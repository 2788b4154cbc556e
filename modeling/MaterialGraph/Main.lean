import MaterialGraph.Tool

/-!
# Running the program on the file system
-/

namespace MaterialGraph

/-- The number of an error, which may be stored with its sign changed. -/
def errorNumber (stored : UInt32) : Nat :=
  stored.toInt32.toInt.natAbs

/-- The number and the wording that the file system gave for an error. -/
def fileErrorOf : IO.Error → FileError
  | .alreadyExists _ number reason
  | .otherError number reason
  | .resourceBusy number reason
  | .resourceVanished number reason
  | .unsupportedOperation number reason
  | .hardwareFault number reason
  | .unsatisfiedConstraints number reason
  | .illegalOperation number reason
  | .protocolError number reason
  | .timeExpired number reason
  | .interrupted _ number reason
  | .noFileOrDirectory _ number reason
  | .invalidArgument _ number reason
  | .permissionDenied _ number reason
  | .resourceExhausted _ number reason
  | .inappropriateType _ number reason
  | .noSuchThing _ number reason =>
      .ofSystem (errorNumber number) reason
  | .unexpectedEof => .system 0 "unexpected end of file"
  | .userError reason => .system 0 reason

/-- The result of an action on files. -/
def attemptFile {α : Type} (action : IO α) : IO (Except FileError α) := do
  try
    return .ok (← action)
  catch reason =>
    return .error (fileErrorOf reason)

/-- The files of the system. -/
def systemFiles : FileAccess IO where
  read path := attemptFile do
    let bytes ← IO.FS.readBinFile path
    return bytes.toList
  write path bytes := attemptFile (IO.FS.writeBinFile path ⟨bytes.toArray⟩)

end MaterialGraph

def main (arguments : List String) : IO UInt32 := do
  let report ← MaterialGraph.Tool.run MaterialGraph.systemFiles arguments
  (← IO.getStdout).putStr report.output
  (← IO.getStderr).putStr report.errors
  return report.code
