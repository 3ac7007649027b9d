import SolidityCalls.CommandLine.Grammar
import SolidityCalls.Text.DecimalDigit

/-! Arguments by the part they play. A switch may be shortened as long as one name fits, its
value may be attached by an equals sign, and one-letter switches may share a hyphen. -/
namespace SolidityCalls.CommandLine

/-- A switch found in an argument, with the name it goes by and the text attached to it. -/
structure Found where
  name : String
  switch : Switch
  attached : Option (List Char)
  deriving DecidableEq, Repr

inductive Token where
  | operand (text : String)
  /-- Two hyphens, after which everything is an operand. -/
  | divider
  | switch (text : String) (found : Found)
  /-- It looks like a switch, but there is none of this name. -/
  | unknown (text : String)
  deriving DecidableEq, Repr

namespace Token

def text : Token → String
  | operand text | switch text _ | unknown text => text
  | divider => "--"

def operand? : Token → Option String
  | operand text => some text
  | _ => none

end Token

/-- The part before the first equals sign, and what follows it. -/
def splitEquals (cs : List Char) : List Char × Option (List Char) :=
  match cs.dropWhile (· ≠ '=') with
  | [] => (cs, none)
  | _ :: value => (cs.takeWhile (· ≠ '='), some value)

/-- Nothing, or one newline. -/
def isLineEnd (cs : List Char) : Bool := cs = [] || cs = ['\n']

/-- Digits, and the end of the line after them. -/
def isDigitsToEnd (cs : List Char) : Bool :=
  cs.head?.any Text.isDecimalDigit && isLineEnd (cs.dropWhile Text.isDecimalDigit)

/-- A hyphen and a decimal number, to the end of the line. -/
def isNegativeNumber : List Char → Bool
  | '-' :: cs =>
    isDigitsToEnd cs ||
      match cs.dropWhile Text.isDecimalDigit with
      | '.' :: digits => isDigitsToEnd digits
      | _ => false
  | _ => false

/-- The switches whose names start like the argument. -/
def candidates (scope : Option Command) (cs : List Char) : List Found :=
  match cs with
  | '-' :: '-' :: _ =>
    let (start, value) := splitEquals cs
    ((switchNames scope).filter fun e => start.isPrefixOf e.1.toList).map fun (name, s) =>
      ⟨name, s, value⟩
  | _ =>
    (switchNames scope).filterMap fun (name, s) =>
      if name.toList = cs.take 2 then some ⟨name, s, some (cs.drop 2)⟩
      else if cs.isPrefixOf name.toList then some ⟨name, s, none⟩
      else none

/-- The switch whose whole name stands before an equals sign. -/
def foundByEquals? (scope : Option Command) (cs : List Char) : Option Found :=
  match splitEquals cs with
  | (start, some value) =>
    (switchNamed? scope (String.ofList start)).map fun s =>
      ⟨String.ofList start, s, some value⟩
  | _ => none

/-- Reads an argument that starts with a hyphen and is no whole name of a switch. -/
def readSwitch (scope : Option Command) (arg : String) : Except Fault Token :=
  match foundByEquals? scope arg.toList with
  | some found => .ok (.switch arg found)
  | none =>
    match candidates scope arg.toList with
    | [found] => .ok (.switch arg found)
    | [] =>
      if isNegativeNumber arg.toList || arg.toList.contains ' ' then .ok (.operand arg)
      else .ok (.unknown arg)
    | several => .error (.ambiguous arg (several.map (·.name)))

def readArgument (scope : Option Command) (arg : String) : Except Fault Token :=
  match switchNamed? scope arg with
  | some s => .ok (.switch arg ⟨arg, s, none⟩)
  | none =>
    match arg.toList with
    | '-' :: _ :: _ => readSwitch scope arg
    | _ => .ok (.operand arg)

/-- The tokens of arguments, read from left to right. -/
def tokens (scope : Option Command) : List String → Except Fault (List Token)
  | [] => .ok []
  | "--" :: rest => .ok (.divider :: rest.map .operand)
  | arg :: rest => do return (← readArgument scope arg) :: (← tokens scope rest)

end SolidityCalls.CommandLine
