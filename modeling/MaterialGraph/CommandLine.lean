/-!
# The command line

A command line names one of three commands, followed by options and operands
in any order.  The value of an option is attached to it or is the next
argument.  Arguments are read from the left, and the first one that is wrong,
or that asks for help, decides.
-/

namespace MaterialGraph

/-- What the program is told to do.  All texts are paths of files. -/
inductive Command
  | demo (output : String) (layers : UInt64) (names : Option String)
  | dump (input : String) (names : Option String) (depth : Option UInt64)
      (settings : Option String)
  | compare (left right : String)
  deriving DecidableEq, Repr

/-- A command, or a question about the program itself. -/
inductive Request
  | perform (command : Command)
  | help
  | version
  deriving DecidableEq, Repr

/-- Why a command line is refused. -/
inductive UsageError
  | noCommand
  | unknownCommand (argument : String)
  | unknownOption (argument : String)
  | repeatedOption (name : String)
  | missingValue (name : String)
  | badValue (name value : String)
  | missingOption (name : String)
  | missingOperand
  | emptyOperand
  | extraOperand (argument : String)
  deriving DecidableEq, Repr

namespace UsageError

/-- The sentence reported for a refused command line. -/
def message : UsageError → String
  | noCommand => "a command is required"
  | unknownCommand argument => "unknown command '" ++ argument ++ "'"
  | unknownOption argument => "unexpected argument '" ++ argument ++ "'"
  | repeatedOption name =>
      "option '--" ++ name ++ "' is given more than once"
  | missingValue name => "option '--" ++ name ++ "' needs a value"
  | badValue name value =>
      "invalid value '" ++ value ++ "' for option '--" ++ name ++ "'"
  | missingOption name => "option '--" ++ name ++ "' is required"
  | missingOperand => "a file is required"
  | emptyOperand => "a file needs a name"
  | extraOperand argument => "unexpected operand '" ++ argument ++ "'"

end UsageError

namespace CommandLine

/-- The forms of arguments. -/
inductive Argument
  | operand (text : String)
  /-- A name after two dashes, and what follows an equals sign. -/
  | long (name : List Char) (value : Option (List Char))
  /-- A letter after one dash, and what follows it. -/
  | short (letter : Char) (rest : List Char)
  /-- Two dashes, after which all arguments are operands. -/
  | separator
  deriving DecidableEq, Repr

/-- What stands after the first equals sign, if there is one. -/
def afterEquals? (text : List Char) : Option (List Char) :=
  match text.dropWhile (· ≠ '=') with
  | _ :: value => some value
  | [] => none

/-- The form of an argument.  A single dash is an operand. -/
def classify (text : String) : Argument :=
  match text.toList with
  | ['-', '-'] => .separator
  | '-' :: '-' :: rest =>
      .long (rest.takeWhile (· ≠ '=')) (afterEquals? rest)
  | '-' :: letter :: rest => .short letter rest
  | _ => .operand text

/-- A number of 64 bits in decimal digits, after at most one plus sign. -/
def number? (text : String) : Option UInt64 :=
  let digits :=
    match text.toList with
    | '+' :: digits => digits
    | digits => digits
  if digits.isEmpty || !digits.all Char.isDigit then
    none
  else
    let number := digits.foldl
      (fun number digit => number * 10 + (digit.toNat - '0'.toNat)) 0
    if number < UInt64.size then some (.ofNat number) else none

/-- The options of all commands. -/
inductive OptionName
  | output
  | chain
  | names
  | depth
  | config
  deriving DecidableEq, Repr

namespace OptionName

/-- An option is written with two dashes before this name. -/
def text : OptionName → String
  | output => "output"
  | chain => "chain"
  | names => "names"
  | depth => "depth"
  | config => "config"

/-- The letter that may be written instead, after one dash. -/
def letter? : OptionName → Option Char
  | output => some 'o'
  | _ => none

/-- Whether a text can be the value of an option: numbers for counts, and
paths, which are not empty, for the others. -/
def admits (name : OptionName) (value : String) : Bool :=
  match name with
  | chain | depth => (number? value).isSome
  | output | names | config => value != ""

end OptionName

/-- What one command takes. -/
structure Usage where
  options : List OptionName
  operands : Nat

namespace Usage

def demo : Usage := ⟨[.output, .chain, .names], 0⟩

def dump : Usage := ⟨[.names, .depth, .config], 1⟩

def compare : Usage := ⟨[], 2⟩

def findLong? (usage : Usage) (name : List Char) : Option OptionName :=
  usage.options.find? fun option => option.text.toList == name

def findShort? (usage : Usage) (letter : Char) : Option OptionName :=
  usage.options.find? fun option => option.letter? == some letter

end Usage

/-- The options with their values and the operands that were read. -/
structure Parts where
  options : List (OptionName × String) := []
  operands : List String := []
  deriving Repr

namespace Parts

def option? (parts : Parts) (name : OptionName) : Option String :=
  parts.options.lookup name

/-- Add the value of an option that has none yet. -/
def addOption (parts : Parts) (name : OptionName) (value : String) :
    Except UsageError Parts :=
  if (parts.option? name).isSome then
    .error (.repeatedOption name.text)
  else if name.admits value then
    .ok { parts with options := (name, value) :: parts.options }
  else
    .error (.badValue name.text value)

/-- Add an operand, which is a path, if a further one is expected. -/
def addOperand (usage : Usage) (parts : Parts) (text : String) :
    Except UsageError Parts :=
  if usage.operands ≤ parts.operands.length then
    .error (.extraOperand text)
  else if text = "" then
    .error .emptyOperand
  else
    .ok { parts with operands := parts.operands ++ [text] }

end Parts

/-- The value attached to a letter, with or without an equals sign. -/
def attached? : List Char → Option String
  | [] => none
  | '=' :: value => some (String.ofList value)
  | value => some (String.ofList value)

/-- The option that an argument stands for, and the value attached to it. -/
def optionOf? (usage : Usage) : Argument → Option (OptionName × Option String)
  | .long name value =>
      (usage.findLong? name).map fun name => (name, value.map String.ofList)
  | .short letter rest =>
      (usage.findShort? letter).map fun name => (name, attached? rest)
  | _ => none

/-- Whether an argument asks for help. -/
def asksHelp : Argument → Bool
  | .long name value => name == "help".toList && value == none
  | .short letter _ => letter == 'h'
  | _ => false

/-- Read the arguments after the name of a command.  There are no parts if
help is asked for. -/
def collect (usage : Usage) : Parts → List String →
    Except UsageError (Option Parts)
  | parts, [] => .ok (some parts)
  | parts, text :: rest =>
      match classify text with
      | .separator => do
          let parts ← rest.foldlM (Parts.addOperand usage) parts
          return some parts
      | .operand text => do
          let parts ← parts.addOperand usage text
          collect usage parts rest
      | argument =>
          if asksHelp argument then
            .ok none
          else
            match optionOf? usage argument with
            | none => .error (.unknownOption text)
            | some (name, some value) => do
                let parts ← parts.addOption name value
                collect usage parts rest
            | some (name, none) =>
                match rest with
                | [] => .error (.missingValue name.text)
                | next :: rest =>
                    match classify next with
                    | .operand value => do
                        let parts ← parts.addOption name value
                        collect usage parts rest
                    | _ => .error (.missingValue name.text)

/-- The command `demo` with its parts. -/
def demoOf (parts : Parts) : Except UsageError Command :=
  match parts.option? .output with
  | none => .error (.missingOption OptionName.output.text)
  | some output =>
      .ok (.demo output (((parts.option? .chain).bind number?).getD 2)
        (parts.option? .names))

/-- The command `dump` with its parts. -/
def dumpOf (parts : Parts) : Except UsageError Command :=
  match parts.operands with
  | [input] =>
      .ok (.dump input (parts.option? .names)
        ((parts.option? .depth).bind number?) (parts.option? .config))
  | _ => .error .missingOperand

/-- The command `compare` with its parts. -/
def compareOf (parts : Parts) : Except UsageError Command :=
  match parts.operands with
  | [left, right] => .ok (.compare left right)
  | _ => .error .missingOperand

/-- Read the arguments of one command. -/
def command (usage : Usage) (make : Parts → Except UsageError Command)
    (arguments : List String) : Except UsageError Request := do
  match ← collect usage {} arguments with
  | none => return .help
  | some parts => return .perform (← make parts)

/-- Help may be asked for about one command. -/
def helpAbout : List String → Except UsageError Request
  | [] => .ok .help
  | [name] =>
      if ["demo", "dump", "compare", "help"].contains name then .ok .help
      else .error (.unknownCommand name)
  | _ :: text :: _ => .error (.unknownCommand text)

/-- The request that a command line makes. -/
def parse : List String → Except UsageError Request
  | [] => .error .noCommand
  | text :: rest =>
      match classify text with
      | .operand "demo" => command .demo demoOf rest
      | .operand "dump" => command .dump dumpOf rest
      | .operand "compare" => command .compare compareOf rest
      | .operand "help" => helpAbout rest
      | .operand text => .error (.unknownCommand text)
      | .separator => .error .noCommand
      | .long name value =>
          if value != none then .error (.unknownOption text)
          else if name = "help".toList then .ok .help
          else if name = "version".toList then .ok .version
          else .error (.unknownOption text)
      | .short letter _ =>
          if letter = 'h' then .ok .help
          else if letter = 'V' then .ok .version
          else .error (.unknownOption text)

end CommandLine

end MaterialGraph
