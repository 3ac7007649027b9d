import SolidityCalls.Text.Quoted

/-! The commands of the program, the switches that each takes, and what can be wrong with the
arguments of a call. -/
namespace SolidityCalls.CommandLine

inductive Command where
  | generate
  | validate
  | verify
  deriving DecidableEq, Repr

namespace Command

def all : List Command := [.generate, .validate, .verify]

def name : Command → String
  | .generate => "generate"
  | .validate => "validate"
  | .verify => "verify"

def ofName? (name : String) : Option Command := all.find? fun c => c.name = name

end Command

/-- How many values a switch takes. -/
inductive Arity where
  | none
  | one
  | oneOrMore
  deriving DecidableEq, Repr

inductive Switch where
  | help
  | verbose
  | files
  | outDir
  | artifactsDir
  deriving DecidableEq, Repr

namespace Switch

def names : Switch → List String
  | .help => ["-h", "--help"]
  | .verbose => ["-v", "--verbose"]
  | .files => ["--files"]
  | .outDir => ["--out-dir"]
  | .artifactsDir => ["--artifacts-dir"]

def arity : Switch → Arity
  | .help | .verbose => .none
  | .files => .oneOrMore
  | .outDir | .artifactsDir => .one

end Switch

/-- The switches before the command, or those of a command. -/
def switches : Option Command → List Switch
  | none => [.help, .verbose]
  | some .generate => [.help, .files, .outDir]
  | some .validate => [.help, .artifactsDir]
  | some .verify => [.help, .files, .artifactsDir]

/-- Switches by their names, in order. -/
def switchNames (scope : Option Command) : List (String × Switch) :=
  (switches scope).flatMap fun s => s.names.map (·, s)

def switchNamed? (scope : Option Command) (name : String) : Option Switch :=
  (switchNames scope).lookup name

inductive Fault where
  | noCommand
  | unknownCommand (name : String)
  | unrecognized (arguments : List String)
  | ambiguous (argument : String) (names : List String)
  /-- Too few values follow a switch. -/
  | missingValue (switch : Switch)
  /-- A value is attached to a switch that takes none. -/
  | strayValue (switch : Switch) (value : String)
  deriving DecidableEq, Repr

def argumentLabel (s : Switch) : String := "argument " ++ "/".intercalate s.names ++ ": "

def Fault.message : Fault → String
  | .noCommand => "the following arguments are required: command"
  | .unknownCommand name =>
    "argument command: invalid choice: " ++ Text.quoted name ++ " (choose from " ++
      ", ".intercalate (Command.all.map fun c => Text.quoted c.name) ++ ")"
  | .unrecognized arguments => "unrecognized arguments: " ++ " ".intercalate arguments
  | .ambiguous argument names =>
    "ambiguous option: " ++ argument ++ " could match " ++ ", ".intercalate names
  | .missingValue s =>
    argumentLabel s ++ match s.arity with
      | .oneOrMore => "expected at least one argument"
      | _ => "expected one argument"
  | .strayValue s value => argumentLabel s ++ "ignored explicit argument " ++ Text.quoted value

/-- The program as it names itself in messages, with the command that speaks. -/
def speaker : Option Command → String
  | none => "solgraph"
  | some c => "solgraph " ++ c.name

end SolidityCalls.CommandLine
