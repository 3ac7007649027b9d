import SolidityCalls.CommandLine.Token

/-! What a call of the program asks for. Arguments are taken from left to right. Switches come
before and after operands; of a switch that is given more than once the last values count. -/
namespace SolidityCalls.CommandLine

/-- A switch that is given, with its values. -/
structure Setting where
  switch : Switch
  values : List String
  deriving DecidableEq, Repr

/-- Why the reading of arguments ends early, and where. -/
inductive Stop where
  | help (scope : Option Command)
  | fault (scope : Option Command) (f : Fault)
  deriving DecidableEq, Repr

/-- Switches that share one argument: settings in order, and a last switch that may take values
from the arguments that follow. -/
structure Cluster where
  settings : List Setting
  last : Option Switch

def Cluster.after (s : Setting) (c : Cluster) : Cluster := { c with settings := s :: c.settings }

/-- The values of a switch in the text attached to it. Two hyphens are no value. -/
def attachedValues (text : List Char) : List String :=
  if text = ['-', '-'] then [] else [String.ofList text]

/-- Reads the text attached to a switch. Letters after a one-letter switch are switches too. -/
def cluster (scope : Option Command) (name : String) (s : Switch) (text : List Char) :
    Except Fault Cluster :=
  if s.arity ≠ .none then .ok ⟨[⟨s, attachedValues text⟩], none⟩
  else
    match text with
    | [] => .error (.strayValue s "")
    | letter :: rest =>
      let next := String.ofList ['-', letter]
      if name.startsWith "--" then .error (.strayValue s (String.ofList text))
      else
        match switchNamed? scope next, rest with
        | none, _ => .error (.strayValue s (String.ofList text))
        | some s', [] => .ok ⟨[⟨s, []⟩], some s'⟩
        | some s', rest => Cluster.after ⟨s, []⟩ <$> cluster scope next s' rest
termination_by text.length

/-- What the arguments so far have settled. -/
structure Progress where
  settings : List Setting
  /-- A switch that still takes values, with those it has. -/
  awaiting : Option (Switch × List String)
  operand : Option String
  /-- The last argument was the operand. -/
  atOperand : Bool
  /-- Arguments that nothing wants. -/
  extras : List String

namespace Progress

def start : Progress := ⟨[], none, none, false, []⟩

def settle (scope : Option Command) (p : Progress) (s : Setting) : Except Stop Progress :=
  if s.switch = .help then .error (.help scope)
  else .ok { p with settings := p.settings ++ [s], atOperand := false }

def addExtra (p : Progress) (text : String) : Progress :=
  { p with extras := p.extras ++ [text], atOperand := false }

/-- Ends the values of the switch that takes them. -/
def close (scope : Option Command) (p : Progress) : Except Stop Progress :=
  match p.awaiting with
  | none => .ok p
  | some (s, []) => .error (.fault scope (.missingValue s))
  | some (s, values) => { p with awaiting := none }.settle scope ⟨s, values⟩

/-- Starts the values of a switch, if it takes any. -/
def await (scope : Option Command) (p : Progress) (s : Switch) : Except Stop Progress :=
  if s.arity = .none then p.settle scope ⟨s, []⟩
  else .ok { p with awaiting := some (s, []), atOperand := false }

def addSwitch (scope : Option Command) (p : Progress) (found : Found) : Except Stop Progress := do
  let p ← p.close scope
  match found.attached with
  | none => p.await scope found.switch
  | some text =>
    match cluster scope found.name found.switch text with
    | .error f => .error (.fault scope f)
    | .ok c =>
      let p ← c.settings.foldlM (settle scope) p
      match c.last with
      | none => return p
      | some s => p.await scope s

/-- An operand of a command is a value of the switch that takes values, else the one operand a
command has, else unwanted. -/
def addOperand (scope : Option Command) (p : Progress) (text : String) : Except Stop Progress :=
  match p.awaiting with
  | some (s, values) =>
    if s.arity = .one then { p with awaiting := none }.settle scope ⟨s, [text]⟩
    else .ok { p with awaiting := some (s, values ++ [text]) }
  | none =>
    if p.operand.isNone then .ok { p with operand := some text, atOperand := true }
    else .ok (p.addExtra text)

/-- A divider goes with the operand before or after it. -/
def addDivider (scope : Option Command) (p : Progress) : Except Stop Progress := do
  let p ← p.close scope
  if p.operand.isNone || p.atOperand then return { p with atOperand := false }
  else return p.addExtra Token.divider.text

def add (scope : Option Command) (p : Progress) : Token → Except Stop Progress
  | .operand text => p.addOperand scope text
  | .divider => p.addDivider scope
  | .switch _ found => p.addSwitch scope found
  | .unknown text => do return (← p.close scope).addExtra text

/-- How often a switch is given. -/
def count (p : Progress) (s : Switch) : Nat := (p.settings.filter fun e => e.switch = s).length

/-- The values of a switch where it is given last. -/
def values? (p : Progress) (s : Switch) : Option (List String) :=
  (p.settings.reverse.find? fun e => e.switch = s).map (·.values)

end Progress

def readTokens (scope : Option Command) (args : List String) : Except Stop (List Token) :=
  match tokens scope args with
  | .ok ts => .ok ts
  | .error f => .error (.fault scope f)

/-- Reads the arguments of a command. -/
def readCommand (c : Command) (args : List String) : Except Stop Progress := do
  let p ← (← readTokens (some c) args).foldlM (Progress.add (some c)) .start
  p.close (some c)

/-- Takes the switches before the command. Everything from the first operand on belongs to the
command; a divider before it is taken for its name. -/
def readLead (p : Progress) : List Token → Except Stop (Progress × List String)
  | [] => do return (← p.close none, [])
  | .switch text found :: rest => do readLead (← p.add none (.switch text found)) rest
  | .unknown text :: rest => do readLead (← p.add none (.unknown text)) rest
  | .divider :: [] => do return ((← p.close none).addExtra Token.divider.text, [])
  | first :: rest => do return (← p.close none, first.text :: rest.map Token.text)

/-- What to do, with the values of the switches that are given. -/
inductive Action where
  | generate (files outDir : Option (List String))
  | validate (artifactsDir : Option (List String))
  | verify (files artifactsDir : Option (List String))
  deriving DecidableEq, Repr

structure Invocation where
  verbosity : Nat
  root : String
  action : Action
  deriving DecidableEq, Repr

namespace Invocation

def actionOf (p : Progress) : Command → Action
  | .generate => .generate (p.values? .files) (p.values? .outDir)
  | .validate => .validate (p.values? .artifactsDir)
  | .verify => .verify (p.values? .files) (p.values? .artifactsDir)

/-- Reads all arguments of a call. -/
def parse (args : List String) : Except Stop Invocation := do
  let (lead, words) ← readLead .start (← readTokens none args)
  match words with
  | [] => .error (.fault none .noCommand)
  | name :: args =>
    match Command.ofName? name with
    | none => .error (.fault none (.unknownCommand name))
    | some c =>
      let p ← readCommand c args
      match lead.extras ++ p.extras with
      | [] => return ⟨lead.count .verbose, p.operand.getD ".", actionOf p c⟩
      | extras => .error (.fault none (.unrecognized extras))

end Invocation
end SolidityCalls.CommandLine
