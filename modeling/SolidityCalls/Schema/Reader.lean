import SolidityCalls.Data.Value
import SolidityCalls.Schema.Integer

/-! Reading typed data from values. Numbers and flags are read leniently: a text or a whole
float may stand for an integer, and a text or 0 and 1 for a flag. All issues of a value are
collected, in the order of the fields. -/
namespace SolidityCalls.Schema

/-- A result, or all issues in its way. -/
def Checked (α : Type) : Type := Except (List Issue) α

namespace Checked

def ok {α : Type} (a : α) : Checked α := Except.ok a

def fail {α : Type} (p : Problem) : Checked α := Except.error [⟨[], p⟩]

def seq {α β : Type} (f : Checked (α → β)) (x : Checked α) : Checked β :=
  match f, x with
  | .ok f, .ok a => .ok (f a)
  | .ok _, .error es => .error es
  | .error es, .ok _ => .error es
  | .error es, .error es' => .error (es ++ es')

instance : Applicative Checked where
  pure := ok
  seq f x := seq f (x ())

/-- Puts a key or index in front of the location of every issue. -/
def under {α : Type} (key : String) (x : Checked α) : Checked α :=
  match x with
  | .ok a => .ok a
  | .error es => .error (es.map fun e => { e with location := key :: e.location })

end Checked

abbrev Reader (α : Type) := Value → Checked α

def string : Reader String
  | .string s => .ok s
  | _ => .fail .stringType

/-- The integers that a float may stand for. -/
def inFloatRange (n : Int) : Bool := -Int.pow 2 63 < n && n < Int.pow 2 63

def integer : Reader Int
  | .int n => .ok n
  | .bool b => .ok (if b then 1 else 0)
  | .float x =>
    match x.toInt? with
    | some n => if inFloatRange n then .ok n else .fail .intSize
    | none => .fail .intFraction
  | .string s =>
    match integerOfText s.toList with
    | .ok n => .ok n
    | .error p => .fail p
  | _ => .fail .intType

def flagOfText? (s : String) : Option Bool :=
  let s := s.toLower
  if s ∈ ["true", "t", "yes", "y", "on", "1"] then some true
  else if s ∈ ["false", "f", "no", "n", "off", "0"] then some false
  else none

def flagOfInt? (n : Int) : Option Bool :=
  if n = 0 then some false else if n = 1 then some true else none

def flagOr (problem : Problem) : Option Bool → Checked Bool
  | some b => .ok b
  | none => .fail problem

def flag : Reader Bool
  | .bool b => .ok b
  | .string s => flagOr .boolValue (flagOfText? s)
  | .int n =>
    if -Int.pow 2 63 ≤ n ∧ n < Int.pow 2 63 then flagOr .boolValue (flagOfInt? n)
    else .fail .boolType
  | .float x =>
    match x.toInt? with
    | some n => if inFloatRange n then flagOr .boolValue (flagOfInt? n) else .fail .boolType
    | none => .fail .boolType
  | _ => .fail .boolType

def itemsFrom {α : Type} (item : Reader α) : Nat → List Value → Checked (List α)
  | _, [] => .ok []
  | i, v :: vs => List.cons <$> (item v).under (toString i) <*> itemsFrom item (i + 1) vs

def list {α : Type} (item : Reader α) : Reader (List α)
  | .array items => itemsFrom item 0 items
  | _ => .fail .listType

/-- A value that may be null. -/
def nullable {α : Type} (read : Reader α) : Reader (Option α)
  | .null => .ok none
  | v => some <$> read v

def record {α : Type} (model : String) (read : OrderedMap Value → Checked α) : Reader α
  | .object fields => read fields
  | _ => .fail (.recordType model)

def required {α : Type} (fields : OrderedMap Value) (key : String) (read : Reader α) :
    Checked α :=
  match fields.get? key with
  | some v => (read v).under key
  | none => (Checked.fail .missing).under key

def optional {α : Type} (fields : OrderedMap Value) (key : String) (standard : α)
    (read : Reader α) : Checked α :=
  match fields.get? key with
  | some v => (read v).under key
  | none => .ok standard

/-- Reads a whole value as a record of a model. -/
def validate {α : Type} (model : String) (read : Reader α) (v : Value) : Except Report α :=
  match read v with
  | .ok a => .ok a
  | .error issues => .error ⟨model, issues⟩

end SolidityCalls.Schema
