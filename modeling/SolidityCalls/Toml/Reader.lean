import SolidityCalls.Toml.Document
import SolidityCalls.Toml.Scalar

/-! Reading TOML 1.0. -/
namespace SolidityCalls.Toml

def isBareKey (c : Char) : Bool := c.isAlphanum || c == '-' || c == '_'

def keyPart? (cs : Rest) : Option (String × Rest) :=
  match cs.takeWhile isBareKey with
  | [] => (lineString? cs).map fun (s, r) => (String.ofList s, r)
  | part => some (String.ofList part, cs.dropWhile isBareKey)

/-- A key: parts with dots between them, and blanks around the dots. -/
def key? : (fuel : Nat) → Rest → Option (Key × Rest)
  | 0, _ => none
  | fuel + 1, cs =>
    match keyPart? cs with
    | none => none
    | some (part, rest) =>
      match skipBlanks rest with
      | '.' :: rest => (key? fuel (skipBlanks rest)).map fun (parts, r) => (part :: parts, r)
      | rest => some ([part], rest)

/-- The rest of a line after a comment, if one starts here. -/
def afterComment? (cs : Rest) : Option Rest :=
  match cs with
  | '#' :: rest =>
    if (rest.takeWhile (· ≠ '\n')).any (isIllegal false) then none
    else some (rest.dropWhile (· ≠ '\n'))
  | _ => some cs

/-- Skips blanks, newlines and comments between the items of an array. -/
def betweenItems? : (fuel : Nat) → Rest → Option Rest
  | 0, cs => some cs
  | fuel + 1, cs =>
    match cs.dropWhile isBlankOrNewline with
    | '#' :: rest =>
      match afterComment? ('#' :: rest) with
      | some rest => betweenItems? fuel rest
      | none => none
    | rest => some rest

/-- How deeply values nest: an array counts two levels and a table three. The number approximates a
limit that depends on how much room the callers leave: 493 or 494 arrays, 329 or 330 tables. -/
def maxLevels : Nat := 987

def arrayLevels : Nat := 2
def tableLevels : Nat := 3

mutual

/-- One value, with a number of levels left for what is in it. Each call spends one unit of
fuel. -/
def value : (fuel levels : Nat) → Rest → Except Fault (Value × Rest)
  | 0, _, _ => .error .malformed
  | fuel + 1, levels, cs =>
    match cs with
    | '"' :: _ | '\x27' :: _ =>
      (orMalformed (string? cs)).map fun (s, r) => (.string (String.ofList s), r)
    | 't' :: 'r' :: 'u' :: 'e' :: rest => .ok (.bool true, rest)
    | 'f' :: 'a' :: 'l' :: 's' :: 'e' :: rest => .ok (.bool false, rest)
    | '[' :: rest =>
      if levels < arrayLevels then .error .tooDeep
      else (items fuel (levels - arrayLevels) rest).map fun (vs, r) => (.array vs, r)
    | '{' :: rest =>
      if levels < tableLevels then .error .tooDeep
      else
        match skipBlanks rest with
        | '}' :: rest => .ok (.object [], rest)
        | rest =>
          (pairs fuel (levels - tableLevels) .empty rest).map fun (t, r) => (.object t.fields, r)
    | _ => plain cs

/-- Items up to the closing bracket; a comma may stand after the last one. -/
def items : (fuel levels : Nat) → Rest → Except Fault (List Value × Rest)
  | 0, _, _ => .error .malformed
  | fuel + 1, levels, cs =>
    match betweenItems? cs.length cs with
    | none => .error .malformed
    | some (']' :: rest) => .ok ([], rest)
    | some cs =>
      match value fuel levels cs with
      | .error e => .error e
      | .ok (v, rest) =>
        match betweenItems? rest.length rest with
        | some (',' :: rest) => (items fuel levels rest).map fun (vs, r) => (v :: vs, r)
        | some (']' :: rest) => .ok ([v], rest)
        | _ => .error .malformed

/-- Adds pairs to a table up to the closing brace. -/
def pairs : (fuel levels : Nat) → InlineTable → Rest → Except Fault (InlineTable × Rest)
  | 0, _, _, _ => .error .malformed
  | fuel + 1, levels, t, cs =>
    match pair fuel levels cs with
    | .error e => .error e
    | .ok ((key, v), rest) =>
      match t.add key v, skipBlanks rest with
      | some t, ',' :: rest => pairs fuel levels t (skipBlanks rest)
      | some t, '}' :: rest => .ok (t, rest)
      | _, _ => .error .malformed

def pair : (fuel levels : Nat) → Rest → Except Fault ((Key × Value) × Rest)
  | 0, _, _ => .error .malformed
  | fuel + 1, levels, cs =>
    match key? (cs.length + 1) cs with
    | some (key, '=' :: rest) =>
      (value fuel levels (skipBlanks rest)).map fun (v, r) => ((key, v), r)
    | _ => .error .malformed

end

/-- A table header, or the header of an item of an array of tables. -/
def header? (cs : Rest) : Option (Statement × Rest) :=
  match cs with
  | '[' :: '[' :: rest =>
    match key? (rest.length + 1) (skipBlanks rest) with
    | some (key, ']' :: ']' :: rest) => some (.item key, rest)
    | _ => none
  | '[' :: rest =>
    match key? (rest.length + 1) (skipBlanks rest) with
    | some (key, ']' :: rest) => some (.table key, rest)
    | _ => none
  | _ => none

/-- The statement at the start of a line, none for a blank line or a comment. -/
def statement (cs : Rest) : Except Fault (Option Statement × Rest) :=
  match cs with
  | [] | '\n' :: _ | '#' :: _ => .ok (none, cs)
  | '[' :: _ => (orMalformed (header? cs)).map fun (s, r) => (some s, r)
  | _ =>
    (pair (2 * cs.length + 2) maxLevels cs).map fun ((key, v), r) => (some (.pair key v), r)

/-- Adds statements to a document, line by line. -/
def statements : (fuel : Nat) → Document → Rest → Except Fault Document
  | 0, _, _ => .error .malformed
  | fuel + 1, d, cs => do
    let (found, rest) ← statement (skipBlanks cs)
    let d ← orMalformed (found.elim (some d) d.add)
    match afterComment? (skipBlanks rest) with
    | some [] => return d
    | some ('\n' :: rest) => statements fuel d rest
    | _ => throw .malformed

/-- A carriage return before a newline is dropped. -/
def plainNewlines : List Char → List Char
  | '\r' :: '\n' :: rest => '\n' :: plainNewlines rest
  | c :: rest => c :: plainNewlines rest
  | [] => []

/-- The table of a whole text. The first fault in the order of the text is reported. -/
def read (text : String) : Except Fault (OrderedMap Value) := do
  let cs := plainNewlines text.toList
  return (← statements (cs.length + 1) .empty cs).root

end SolidityCalls.Toml
