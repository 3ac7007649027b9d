import SolidityCalls.Data.Value
import SolidityCalls.Json.Layout
import SolidityCalls.Text.Utf8

/-! Reading JSON, strictly: no comments, no trailing commas, no control characters and no lone
surrogates in strings. Whole numbers of 64 bits stay integers; other numbers become binary
floating point, and one that is too large for it is refused. A repeated key keeps its first place
and its last value. -/
namespace SolidityCalls.Json

def skip (cs : List Char) : List Char := cs.dropWhile isBlank

def hexValue? (c : Char) : Option Nat :=
  if '0' ≤ c ∧ c ≤ '9' then some (c.toNat - '0'.toNat)
  else if 'a' ≤ c ∧ c ≤ 'f' then some (c.toNat - 'a'.toNat + 10)
  else if 'A' ≤ c ∧ c ≤ 'F' then some (c.toNat - 'A'.toNat + 10)
  else none

def hexQuad? (a b c d : Char) : Option Nat := do
  let w ← hexValue? a
  let x ← hexValue? b
  let y ← hexValue? c
  let z ← hexValue? d
  some (((w * 16 + x) * 16 + y) * 16 + z)

/-- The character after a backslash stands for this one. -/
def escaped? : Char → Option Char
  | '"' => some '"'
  | '\\' => some '\\'
  | '/' => some '/'
  | 'b' => some '\x08'
  | 'f' => some '\x0c'
  | 'n' => some '\n'
  | 'r' => some '\r'
  | 't' => some '\t'
  | _ => none

def isHighSurrogate (n : Nat) : Bool := 0xD800 ≤ n && n < 0xDC00

def isLowSurrogate (n : Nat) : Bool := 0xDC00 ≤ n && n < 0xE000

/-- The rest of a string after its opening quote, and what follows the closing one. -/
def stringTail : List Char → Option (List Char × List Char)
  | [] => none
  | '"' :: rest => some ([], rest)
  | '\\' :: 'u' :: a :: b :: c :: d :: rest =>
    match hexQuad? a b c d with
    | none => none
    | some n =>
      if isHighSurrogate n then
        match rest with
        | '\\' :: 'u' :: a' :: b' :: c' :: d' :: rest' =>
          match hexQuad? a' b' c' d' with
          | none => none
          | some m =>
            if isLowSurrogate m then
              (stringTail rest').map fun (s, r) =>
                (Char.ofNat (0x10000 + (n - 0xD800) * 0x400 + (m - 0xDC00)) :: s, r)
            else none
        | _ => none
      else if isLowSurrogate n then none
      else (stringTail rest).map fun (s, r) => (Char.ofNat n :: s, r)
  | '\\' :: e :: rest =>
    match escaped? e with
    | some c => (stringTail rest).map fun (s, r) => (c :: s, r)
    | none => none
  | c :: rest =>
    if c.toNat < 0x20 ∨ c = '\\' then none
    else (stringTail rest).map fun (s, r) => (c :: s, r)

def digitsToNat (cs : List Char) : Nat :=
  cs.foldl (fun n c => n * 10 + (c.toNat - '0'.toNat)) 0

/-- A minus sign, if there is one. -/
def sign (cs : List Char) : Bool × List Char :=
  match cs with
  | '-' :: rest => (true, rest)
  | _ => (false, cs)

/-- Digits without a leading zero, unless zero is the only one. -/
def wholePart? (cs : List Char) : Option (List Char × List Char) :=
  match cs with
  | '0' :: rest => some (['0'], rest)
  | c :: _ =>
    if c.isDigit then some (cs.takeWhile Char.isDigit, cs.dropWhile Char.isDigit) else none
  | [] => none

/-- The digits after a point, none when there is no point. -/
def fraction? (cs : List Char) : Option (List Char × List Char) :=
  match cs with
  | '.' :: rest =>
    match rest.takeWhile Char.isDigit with
    | [] => none
    | digits => some (digits, rest.dropWhile Char.isDigit)
  | _ => some ([], cs)

/-- The exponent after an `e`, if there is an `e`. -/
def exponent? (cs : List Char) : Option (Option Int × List Char) :=
  match cs with
  | e :: rest =>
    if e = 'e' ∨ e = 'E' then
      let (negative, rest) :=
        match rest with
        | '-' :: rest => (true, rest)
        | '+' :: rest => (false, rest)
        | _ => (false, rest)
      match rest.takeWhile Char.isDigit with
      | [] => none
      | digits =>
        let n : Int := digitsToNat digits
        some (some (if negative then -n else n), rest.dropWhile Char.isDigit)
    else some (none, cs)
  | [] => some (none, [])

/-- An integer of 64 bits, signed or not, stays one; a float must be finite. -/
def numberOf? (negative : Bool) (whole fraction : List Char) (exponent : Option Int) :
    Option Value :=
  let magnitude := digitsToNat (whole ++ fraction)
  let value : Int := if negative then -(magnitude : Int) else magnitude
  if fraction = [] ∧ exponent = none ∧ -Int.pow 2 63 ≤ value ∧ value < Int.pow 2 64 then
    some (.int value)
  else
    match Binary64.ofDecimal negative magnitude (exponent.getD 0 - fraction.length) with
    | .finite n m e => some (.float (.finite n m e))
    | _ => none

def number? (cs : List Char) : Option (Value × List Char) := do
  let (negative, cs) := sign cs
  let (whole, cs) ← wholePart? cs
  let (fraction, cs) ← fraction? cs
  let (exponent, cs) ← exponent? cs
  let value ← numberOf? negative whole fraction exponent
  some (value, cs)

mutual

/-- One value, with blanks before it allowed, and a number of levels left for arrays and objects.
Each call spends one unit of fuel. -/
def value? : (fuel levels : Nat) → List Char → Option (Value × List Char)
  | 0, _, _ => none
  | fuel + 1, levels, cs =>
    match skip cs with
    | '"' :: rest => (stringTail rest).map fun (s, r) => (.string (String.ofList s), r)
    | '[' :: rest =>
      if levels = 0 then none
      else
        match skip rest with
        | ']' :: rest => some (.array [], rest)
        | _ => (items? fuel (levels - 1) rest).map fun (vs, r) => (.array vs, r)
    | '{' :: rest =>
      if levels = 0 then none
      else
        match skip rest with
        | '}' :: rest => some (.object [], rest)
        | _ =>
          (fields? fuel (levels - 1) rest).map fun (fs, r) => (.object (OrderedMap.ofPairs fs), r)
    | 't' :: 'r' :: 'u' :: 'e' :: rest => some (.bool true, rest)
    | 'f' :: 'a' :: 'l' :: 's' :: 'e' :: rest => some (.bool false, rest)
    | 'n' :: 'u' :: 'l' :: 'l' :: rest => some (.null, rest)
    | rest => number? rest

/-- Items up to the closing bracket. -/
def items? : (fuel levels : Nat) → List Char → Option (List Value × List Char)
  | 0, _, _ => none
  | fuel + 1, levels, cs =>
    match value? fuel levels cs with
    | none => none
    | some (v, rest) =>
      match skip rest with
      | ',' :: rest => (items? fuel levels rest).map fun (vs, r) => (v :: vs, r)
      | ']' :: rest => some ([v], rest)
      | _ => none

/-- Fields up to the closing brace. -/
def fields? : (fuel levels : Nat) → List Char → Option (List (String × Value) × List Char)
  | 0, _, _ => none
  | fuel + 1, levels, cs =>
    match skip cs with
    | '"' :: rest =>
      match stringTail rest with
      | none => none
      | some (key, rest) =>
        match skip rest with
        | ':' :: rest =>
          match value? fuel levels rest with
          | none => none
          | some (v, rest) =>
            match skip rest with
            | ',' :: rest =>
              (fields? fuel levels rest).map fun (fs, r) => ((String.ofList key, v) :: fs, r)
            | '}' :: rest => some ([(String.ofList key, v)], rest)
            | _ => none
        | _ => none
    | _ => none

end

/-- The value of a whole text, in which arrays and objects nest to a number of levels. -/
def read? (levels : Nat) (text : String) : Option Value :=
  let cs := text.toList
  match value? (cs.length + 1) levels cs with
  | some (v, rest) => if skip rest = [] then some v else none
  | none => none

/-- How deeply arrays and objects nest in a file. -/
def maxLevels : Nat := 1024

/-- The value of a whole file, which must be well-formed UTF-8. -/
def readBytes? (bytes : Bytes) : Option Value := (Utf8.decode? bytes).bind (read? maxLevels)

end SolidityCalls.Json
