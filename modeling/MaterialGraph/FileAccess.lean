/-!
# Access to files

Whoever reads and writes files does so through two operations, so that the
same program runs on a real file system and on a model of one.
-/

namespace MaterialGraph

/-- Why a file cannot be read or written. -/
inductive FileError
  /-- The file system refused, with its number and its wording. -/
  | system (number : Nat) (reason : String)
  /-- The bytes of the file are not text. -/
  | notText
  deriving DecidableEq, Repr

namespace FileError

def notFound : FileError := .system 2 "No such file or directory"

def notFolder : FileError := .system 20 "Not a directory"

def isFolder : FileError := .system 21 "Is a directory"

def nameTooLong : FileError := .system 36 "File name too long"

def permissionDenied : FileError := .system 13 "Permission denied"

/-- The refusals whose wording does not depend on the file system. -/
def known : List (Nat × FileError) :=
  [(2, notFound), (13, permissionDenied), (20, notFolder), (21, isFolder),
    (36, nameTooLong)]

/-- A refusal with the given number; the wording is used if none is known. -/
def ofSystem (number : Nat) (reason : String) : FileError :=
  (known.lookup number).getD (.system number reason)

/-- The sentence reported for a file that cannot be used. -/
def message : FileError → String
  | system number reason =>
      reason ++ " (os error " ++ toString number ++ ")"
  | notText => "stream did not contain valid UTF-8"

end FileError

/-- The ways in which files can be used from a computation. -/
structure FileAccess (m : Type → Type) where
  read (path : String) : m (Except FileError (List UInt8))
  write (path : String) (bytes : List UInt8) : m (Except FileError Unit)

namespace FileAccess

/-- The text that bytes encode. -/
def textOf (bytes : List UInt8) : Except FileError String :=
  match String.fromUTF8? ⟨bytes.toArray⟩ with
  | some text => .ok text
  | none => .error .notText

/-- The text in a file. -/
def readText {m : Type → Type} [Monad m] (files : FileAccess m)
    (path : String) : m (Except FileError String) := do
  match ← files.read path with
  | .ok bytes => return textOf bytes
  | .error reason => return .error reason

/-- Put a text into a file. -/
def writeText {m : Type → Type} (files : FileAccess m) (path text : String) :
    m (Except FileError Unit) :=
  files.write path text.toUTF8.toList

end FileAccess

end MaterialGraph
