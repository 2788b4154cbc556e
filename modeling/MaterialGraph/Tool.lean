import MaterialGraph.CommandLine
import MaterialGraph.Expression.Dump
import MaterialGraph.Expression.Order
import MaterialGraph.FileAccess
import MaterialGraph.GraphFile
import MaterialGraph.Path
import MaterialGraph.SampleMaterial
import MaterialGraph.Settings.Json
import MaterialGraph.Tag.Json

/-!
# The program

The program writes a sample graph file, dumps a graph file, or compares two of
them.  It is given its arguments and some access to files, and answers with
what it prints and an exit code: zero, one for a command that failed, or two
for a command line that is refused.
-/

namespace MaterialGraph

/-- Why a command failed. -/
inductive ToolError
  | build (reason : EditError)
  | output (reason : FileError)
  | graphFile (path : String) (reason : FileError)
  | graph (path : String) (reason : DecodeError)
  | settingsFile (path : String) (reason : FileError)
  | settings (reason : Json.Fault)
  | namesFile (reason : FileError)
  | names (reason : Json.Fault)
  deriving DecidableEq, Repr

namespace ToolError

/-- The sentence reported for a command that failed. -/
def message : ToolError → String
  | build reason => reason.message
  | output reason => reason.message
  | graphFile path reason =>
      "cannot read '" ++ path ++ "': " ++ reason.message
  | graph path reason => "'" ++ path ++ "': " ++ reason.message
  | settingsFile path reason =>
      "failed to read config '" ++ path ++ "': " ++ reason.message
  | settings reason => "invalid config: " ++ reason.message
  | namesFile reason => reason.message
  | names reason => reason.message

end ToolError

/-- What the program leaves behind, apart from files. -/
structure Report where
  code : UInt32
  output : String := ""
  errors : String := ""
  deriving DecidableEq, Repr

namespace Tool

def usage : String :=
  "MDL expression graph tool\n\n" ++
  "Usage: mdlx <COMMAND>\n\n" ++
  "Commands:\n" ++
  "  demo     Write a sample material graph\n" ++
  "             -o, --output <FILE>, --chain <COUNT>, --names <FILE>\n" ++
  "  dump     Print a graph file\n" ++
  "             <FILE>, --names <FILE>, --depth <COUNT>, --config <FILE>\n" ++
  "  compare  Order two graph files\n" ++
  "             <FILE> <FILE>\n" ++
  "  help     Print this message\n"

def versionText : String := "mdlx 0.1.0\n"

variable {m : Type → Type} [Monad m]

/-- A step that can fail, with its reason put into the terms of the program. -/
def attempt {ε α : Type} (explain : ε → ToolError) (step : m (Except ε α)) :
    ExceptT ToolError m α :=
  ExceptT.mk do
    match ← step with
    | .ok found => return .ok found
    | .error reason => return .error (explain reason)

/-- The settings in a file, or the standard ones. -/
def readSettings (files : FileAccess m) :
    (path? : Option String) → ExceptT ToolError m Settings
  | none => return {}
  | some path => do
      let text ← attempt (.settingsFile path) (files.readText path)
      attempt .settings (pure (Settings.read text))

/-- The expression in a graph file. -/
def readGraph (files : FileAccess m) (path : String) :
    ExceptT ToolError m Expression := do
  let bytes ← attempt (.graphFile path) (files.read path)
  attempt (.graph path) (pure (GraphFile.decode bytes))

/-- The names of tags in a file, if one is given. -/
def readNames (files : FileAccess m) :
    (path? : Option String) → ExceptT ToolError m (Option TagNames)
  | none => return none
  | some path => do
      let text ← attempt .namesFile (files.readText path)
      let names ← attempt .names (pure (TagNames.read text))
      return some names

/-- Write the sample material with some number of layers, and the names of its
tags if a file is given for them. -/
def demo (files : FileAccess m) (output : String) (layers : UInt64)
    (namesPath? : Option String) : ExceptT ToolError m String := do
  let (material, names) ←
    attempt .build (pure (SampleMaterial.build layers.toNat))
  attempt .output (files.write output (GraphFile.encode material))
  match namesPath? with
  | some path => attempt .output (files.writeText path names.toJson)
  | none => pure ()
  return ""

/-- The name under which a graph file is dumped. -/
def title (path : String) : String :=
  (Path.stem? path).getD "expression"

/-- The dump of a graph file.  The settings say how deep it goes unless a depth
is given. -/
def dump (files : FileAccess m) (input : String) (namesPath? : Option String)
    (depth? : Option UInt64) (settingsPath? : Option String) :
    ExceptT ToolError m String := do
  let settings ← readSettings files settingsPath?
  let expression ← readGraph files input
  let names ← readNames files namesPath?
  let style := settings.style names (depth?.getD settings.defaultDepth)
  return (Tree.expression expression).dump style (title input) ++ "\n"

/-- The word for an order. -/
def word : Ordering → String
  | .lt => "less"
  | .eq => "equal"
  | .gt => "greater"

/-- The order of two graph files. -/
def compare (files : FileAccess m) (left right : String) :
    ExceptT ToolError m String := do
  let left ← readGraph files left
  let right ← readGraph files right
  return word (Ord.compare left right) ++ "\n"

/-- Carry out a command and answer what it prints. -/
def perform (files : FileAccess m) : Command → ExceptT ToolError m String
  | .demo output layers names => demo files output layers names
  | .dump input names depth settings => dump files input names depth settings
  | .compare left right => compare files left right

/-- Run the program with the given arguments. -/
def run (files : FileAccess m) (arguments : List String) : m Report :=
  match CommandLine.parse arguments with
  | .error reason =>
      return ⟨2, "", "error: " ++ reason.message ++ "\n\n" ++ usage⟩
  | .ok .help => return ⟨0, usage, ""⟩
  | .ok .version => return ⟨0, versionText, ""⟩
  | .ok (.perform command) => do
      match ← (perform files command).run with
      | .ok output => return ⟨0, output, ""⟩
      | .error reason =>
          return ⟨1, "", "Error: " ++ reason.message ++ "\n"⟩

end Tool

end MaterialGraph
