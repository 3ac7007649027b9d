import SolidityCalls.Json.Layout
import SolidityCalls.Text.Character

/-! Writing JSON. Strings escape the quote, the backslash and control characters, and nothing
else. -/
namespace SolidityCalls

/-- What artifacts are written from. Fields are written in the order given. -/
inductive Json where
  | null
  | bool (value : Bool)
  | int (value : Int)
  | string (value : String)
  | array (items : List Json)
  | object (fields : List (String × Json))

namespace Json

def escape (c : Char) : List Char :=
  if c = '"' then ['\\', '"']
  else if c = '\\' then ['\\', '\\']
  else if c = '\x08' then ['\\', 'b']
  else if c = '\t' then ['\\', 't']
  else if c = '\n' then ['\\', 'n']
  else if c = '\x0c' then ['\\', 'f']
  else if c = '\r' then ['\\', 'r']
  else if c.toNat < 0x20 then ['\\', 'u', '0', '0'] ++ Text.hexDigits 2 c.toNat
  else [c]

def quote (s : String) : List Char := '"' :: s.toList.flatMap escape ++ ['"']

/-- The text of a value that has no parts. -/
def atom : Json → List Char
  | .bool true => "true".toList
  | .bool false => "false".toList
  | .int n => (toString n).toList
  | .string s => quote s
  | _ => "null".toList

mutual

def write (l : Layout) (level : Nat) : Json → List Char
  | .array items => '[' :: writeItems l (level + 1) items ++ l.closing level items ++ [']']
  | .object fields => '{' :: writeFields l (level + 1) fields ++ l.closing level fields ++ ['}']
  | j => j.atom

def writeItems (l : Layout) (level : Nat) : List Json → List Char
  | [] => []
  | j :: rest => l.gap level ++ j.write l level ++ comma rest ++ writeItems l level rest

def writeFields (l : Layout) (level : Nat) : List (String × Json) → List Char
  | [] => []
  | (key, j) :: rest =>
    l.gap level ++ quote key ++ ':' :: l.afterColon ++ j.write l level ++ comma rest ++
      writeFields l level rest

end

mutual

/-- Every integer in a value has at most 64 bits, with or without a sign. -/
def fits : Json → Bool
  | .int n => -Int.pow 2 63 ≤ n && n < Int.pow 2 64
  | .array items => fitsItems items
  | .object fields => fitsFields fields
  | _ => true

def fitsItems : List Json → Bool
  | [] => true
  | j :: js => j.fits && fitsItems js

def fitsFields : List (String × Json) → Bool
  | [] => true
  | (_, j) :: rest => j.fits && fitsFields rest

end

/-- One line, with its end. -/
def line (j : Json) : String := String.ofList (j.write .oneLine 0 ++ ['\n'])

def page (j : Json) : String := String.ofList (j.write .indented 0)

def strings (xs : List String) : Json := .array (xs.map .string)

def nullable : Option String → Json
  | some s => .string s
  | none => .null

end Json
end SolidityCalls
