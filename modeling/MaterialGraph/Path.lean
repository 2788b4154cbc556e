/-!
# Paths of files

A path is a text whose steps are separated by slashes.  A path that starts
with a slash is absolute.  The stem of a path is the name of its file without
the extension, and serves as the title of what the file holds.
-/

namespace MaterialGraph

namespace Path

/-- Cut a text at every slash. -/
def cut : List Char → List (List Char)
  | [] => [[]]
  | character :: rest =>
      if character = '/' then
        [] :: cut rest
      else
        match cut rest with
        | step :: others => (character :: step) :: others
        | [] => [[character]]

/-- The steps of a path, empty ones included. -/
def steps (path : String) : List String :=
  (cut path.toList).map String.ofList

def isAbsolute (path : String) : Bool :=
  path.toList.head? == some '/'

/-- Whether a step stays where it is. -/
def isIdle (step : String) : Bool :=
  step == "" || step == "."

/-- The name of the file that a path leads to, unless the path ends at a
folder that it does not name. -/
def fileName? (path : String) : Option String :=
  match ((steps path).filter fun step => !isIdle step).getLast? with
  | some name => if name = ".." then none else some name
  | none => none

/-- A name up to its last point.  A point in front begins no extension. -/
def withoutExtension (name : String) : String :=
  match name.toList.reverse.dropWhile (· ≠ '.') with
  | _ :: before =>
      if before.isEmpty then name else String.ofList before.reverse
  | [] => name

/-- The name of the file without its extension. -/
def stem? (path : String) : Option String :=
  (fileName? path).map withoutExtension

end Path

end MaterialGraph
