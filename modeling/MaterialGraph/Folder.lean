import MaterialGraph.FileAccess
import MaterialGraph.Path

/-!
# A folder of files

A folder is a model of the fresh directory in which a program is run.  It
consists of regular files, each at its place below the folder; the folders
between are implied by the places.  The model ends at the folder: nothing is
found by an absolute path or by one that leaves the folder.  It is one file
system among others, and what the program does is not stated for it alone.

A path is followed step by step.  Where it leads decides what reading and
writing do there.
-/

namespace MaterialGraph

/-- Files with their places.  A place is the list of the names that lead to
it from the folder. -/
structure Folder where
  files : List (List String × List UInt8) := []
  deriving DecidableEq, Repr

namespace Folder

/-- The longest name of a file, in bytes. -/
def maxNameBytes : Nat := 255

/-- The longest path, in bytes. -/
def maxPathBytes : Nat := 4095

/-- Where a path leads. -/
inductive Target
  /-- A folder that exists. -/
  | folder
  /-- A file that exists. -/
  | file (place : List String)
  /-- Nothing, in a folder that exists. -/
  | vacancy (place : List String)
  /-- A slash that ends the path where there is no folder, and why there is
  none. -/
  | slash (reason : FileError)
  deriving DecidableEq, Repr

/-- The content of the file at a place. -/
def content? (folder : Folder) (place : List String) : Option (List UInt8) :=
  folder.files.lookup place

/-- Whether a place is that of a folder: the whole, or one that a file is
in. -/
def hasFolder (folder : Folder) (place : List String) : Bool :=
  place.isEmpty ||
    folder.files.any fun file =>
      place.length < file.1.length && place.isPrefixOf file.1

/-- Put a file at a place; what was there before is lost. -/
def put (folder : Folder) (place : List String) (bytes : List UInt8) :
    Folder :=
  ⟨(place, bytes) :: folder.files.filter fun file => file.1 != place⟩

/-- The target of a path that stops at a name where no folder is.  The reason
for it is kept if nothing but slashes follows the name. -/
def stop (reason : FileError) (rest : List String) : Except FileError Target :=
  if !rest.isEmpty && rest.all (· == "") then
    .ok (.slash reason)
  else
    .error reason

/-- Follow steps from a place; without a place, from outside the folder. -/
def follow (folder : Folder) : (place : Option (List String)) →
    (steps : List String) → Except FileError Target
  | _, [] => .ok .folder
  | place, step :: rest =>
      if Path.isIdle step then
        folder.follow place rest
      else if step = ".." then
        folder.follow
          (place.bind fun names =>
            if names.isEmpty then none else some names.dropLast)
          rest
      else if maxNameBytes < step.utf8ByteSize then
        stop .nameTooLong rest
      else
        match place with
        | none => stop .notFound rest
        | some names =>
            let next := names ++ [step]
            if folder.hasFolder next then
              folder.follow (some next) rest
            else
              match (folder.content? next).isSome, rest with
              | true, [] => .ok (.file next)
              | false, [] => .ok (.vacancy next)
              | true, _ => stop .notFolder rest
              | false, _ => stop .notFound rest

/-- Where a path leads from the folder. -/
def locate (folder : Folder) (path : String) : Except FileError Target :=
  if path = "" then
    .error .notFound
  else if maxPathBytes < path.utf8ByteSize then
    .error .nameTooLong
  else
    folder.follow (if Path.isAbsolute path then none else some [])
      (Path.steps path)

def read (folder : Folder) (path : String) : Except FileError (List UInt8) :=
  match folder.locate path with
  | .ok (.file place) =>
      match folder.content? place with
      | some bytes => .ok bytes
      | none => .error .notFound
  | .ok .folder => .error .isFolder
  | .ok (.vacancy _) => .error .notFound
  | .ok (.slash reason) => .error reason
  | .error reason => .error reason

/-- Put bytes where a path leads. -/
def write (folder : Folder) (path : String) (bytes : List UInt8) :
    Except FileError Folder :=
  match folder.locate path with
  | .ok (.file place) => .ok (folder.put place bytes)
  | .ok (.vacancy place) => .ok (folder.put place bytes)
  | .ok .folder => .error .isFolder
  | .ok (.slash _) => .error .isFolder
  | .error reason => .error reason

/-- The folder with the given files, each at the place that its path names. -/
def ofList (files : List (String × List UInt8)) : Folder :=
  files.foldl
    (fun folder file =>
      folder.put ((Path.steps file.1).filter fun step => !Path.isIdle step)
        file.2)
    {}

/-- Reading and writing in a folder; a write that fails changes nothing. -/
def access : FileAccess (StateM Folder) where
  read path := fun folder => (folder.read path, folder)
  write path bytes := fun folder =>
    match folder.write path bytes with
    | .ok changed => (.ok (), changed)
    | .error reason => (.error reason, folder)

/-- The path of the null device. -/
def nullDevice : String := "/dev/null"

/-- Reading and writing in a folder beside which there is the null device: it
takes whatever is written to it, and is empty nevertheless. -/
def accessWithDevice : FileAccess (StateM Folder) where
  read path := fun folder =>
    if path = nullDevice then (.ok [], folder) else access.read path folder
  write path bytes := fun folder =>
    if path = nullDevice then (.ok (), folder)
    else access.write path bytes folder

end Folder

end MaterialGraph
