import SolidityCalls.Data.Value
import SolidityCalls.Json.Reader

/-! Strings, numbers, dates and times of TOML. Each reader takes the longest front of the text
that it accepts and returns the rest. -/
namespace SolidityCalls.Toml

/-- Why a text is no document. -/
inductive Fault where
  | malformed
  /-- An integer has too many digits. -/
  | oversizedInteger
  /-- Values are nested too deeply. -/
  | tooDeep
  deriving DecidableEq, Repr

def orMalformed {α : Type} : Option α → Except Fault α
  | some a => .ok a
  | none => .error .malformed

abbrev Rest := List Char

def isBlank (c : Char) : Bool := c == ' ' || c == '\t'

def isBlankOrNewline (c : Char) : Bool := isBlank c || c == '\n'

/-- Control characters other than the tab; a newline is legal in texts of several lines. -/
def isIllegal (multiline : Bool) (c : Char) : Bool :=
  (c.toNat < 32 || c.toNat == 127) && c != '\t' && !(multiline && c == '\n')

def skipBlanks (cs : Rest) : Rest := cs.dropWhile isBlank

/-! Strings -/

def escaped? : Char → Option Char
  | 'b' => some '\x08'
  | 't' => some '\t'
  | 'n' => some '\n'
  | 'f' => some '\x0c'
  | 'r' => some '\r'
  | '"' => some '"'
  | '\\' => some '\\'
  | _ => none

/-- The number written by hexadecimal digits. -/
def hexNumber? (cs : List Char) : Option Nat :=
  cs.foldlM (fun n c => (Json.hexValue? c).map (n * 16 + ·)) 0

/-- The character whose code is given by the next `width` digits. -/
def codePoint? (width : Nat) (cs : Rest) : Option (List Char × Rest) :=
  if (cs.take width).length = width then
    match hexNumber? (cs.take width) with
    | some n => if n.isValidChar then some ([Char.ofNat n], cs.drop width) else none
    | none => none
  else none

/-- A backslash at the end of a line takes the blanks and newlines after it along. -/
def lineEnd? (cs : Rest) : Option (List Char × Rest) :=
  if cs.head?.any isBlankOrNewline then
    match skipBlanks cs with
    | '\n' :: rest => some ([], rest.dropWhile isBlankOrNewline)
    | [] => some ([], [])
    | _ => none
  else none

/-- What a backslash and the text after it stand for. -/
def escape? (multiline : Bool) (cs : Rest) : Option (List Char × Rest) :=
  match cs with
  | 'u' :: rest => codePoint? 4 rest
  | 'U' :: rest => codePoint? 8 rest
  | c :: rest =>
    match escaped? c with
    | some d => some ([d], rest)
    | none => if multiline then lineEnd? cs else none
  | [] => none

/-- The rest of a string after its opening quotes. -/
def basicTail (multiline : Bool) : (fuel : Nat) → Rest → Option (List Char × Rest)
  | 0, _ => none
  | _, [] => none
  | fuel + 1, '"' :: rest =>
    if multiline then
      match rest with
      | '"' :: '"' :: rest => some ([], rest)
      | _ => (basicTail multiline fuel rest).map fun (s, r) => ('"' :: s, r)
    else some ([], rest)
  | fuel + 1, '\\' :: rest =>
    match escape? multiline rest with
    | some (out, rest) => (basicTail multiline fuel rest).map fun (s, r) => (out ++ s, r)
    | none => none
  | fuel + 1, c :: rest =>
    if isIllegal multiline c then none
    else (basicTail multiline fuel rest).map fun (s, r) => (c :: s, r)

def literalTail (multiline : Bool) : Rest → Option (List Char × Rest)
  | [] => none
  | '\x27' :: rest =>
    if multiline then
      match rest with
      | '\x27' :: '\x27' :: rest => some ([], rest)
      | _ => (literalTail multiline rest).map fun (s, r) => ('\x27' :: s, r)
    else some ([], rest)
  | c :: rest =>
    if isIllegal multiline c then none
    else (literalTail multiline rest).map fun (s, r) => (c :: s, r)

/-- Up to two more quotes belong to a text that three quotes have closed. -/
def extraQuotes (mark : Char) (result : List Char × Rest) : List Char × Rest :=
  let extra := (result.2.take 2).takeWhile (· = mark)
  (result.1 ++ extra, result.2.drop extra.length)

def dropNewline : Rest → Rest
  | '\n' :: rest => rest
  | cs => cs

/-- A string on one line, as keys may be written too. -/
def lineString? (cs : Rest) : Option (List Char × Rest) :=
  match cs with
  | '"' :: rest => basicTail false (rest.length + 1) rest
  | '\x27' :: rest => literalTail false rest
  | _ => none

def string? (cs : Rest) : Option (List Char × Rest) :=
  match cs with
  | '"' :: '"' :: '"' :: rest =>
    let rest := dropNewline rest
    (basicTail true (rest.length + 1) rest).map (extraQuotes '"')
  | '\x27' :: '\x27' :: '\x27' :: rest =>
    (literalTail true (dropNewline rest)).map (extraQuotes '\x27')
  | _ => lineString? cs

/-! Numbers -/

/-- Digits of one class, with single underscores between them. -/
def digitRun (isDigit : Char → Bool) : Rest → List Char × Rest
  | [] => ([], [])
  | [c] => if isDigit c then ([c], []) else ([], [c])
  | c :: d :: rest =>
    if isDigit c then
      if d = '_' ∧ rest.head?.any isDigit then
        let (s, r) := digitRun isDigit rest
        (c :: s, r)
      else
        let (s, r) := digitRun isDigit (d :: rest)
        (c :: s, r)
    else ([], c :: d :: rest)

def radixNumber? (base : Nat) (isDigit : Char → Bool) (cs : Rest) : Option (Value × Rest) :=
  match digitRun isDigit cs with
  | ([], _) => none
  | (digits, rest) =>
    let n := digits.foldl (fun n c => n * base + (Json.hexValue? c).getD 0) 0
    some (.int n, rest)

def isHexDigit (c : Char) : Bool := (Json.hexValue? c).isSome

def signOf (cs : Rest) : Bool × Rest :=
  match cs with
  | '-' :: rest => (true, rest)
  | '+' :: rest => (false, rest)
  | _ => (false, cs)

/-- Digits after a point, if at least one follows it. -/
def fraction (cs : Rest) : List Char × Rest :=
  match cs with
  | '.' :: rest =>
    match digitRun Char.isDigit rest with
    | ([], _) => ([], cs)
    | found => found
  | _ => ([], cs)

/-- A power of ten after an `e`, if at least one digit follows it. -/
def power? (cs : Rest) : Option Int × Rest :=
  match cs with
  | e :: rest =>
    if e = 'e' ∨ e = 'E' then
      let (negative, rest) := signOf rest
      match digitRun Char.isDigit rest with
      | ([], _) => (none, cs)
      | (digits, rest) =>
        let n : Int := Json.digitsToNat digits
        (some (if negative then -n else n), rest)
    else (none, cs)
  | [] => (none, [])

/-- The number of digits in the longest decimal integer. -/
def maxDigits : Nat := 4300

def decimal (cs : Rest) : Except Fault (Value × Rest) :=
  let (negative, cs) := signOf cs
  let (whole, cs) :=
    match cs with
    | '0' :: rest => (['0'], rest)
    | _ => digitRun Char.isDigit cs
  if whole = [] then .error .malformed
  else
    let (places, cs) := fraction cs
    let (power, cs) := power? cs
    let n := Json.digitsToNat (whole ++ places)
    if places ≠ [] ∨ power ≠ none then
      .ok (.float (Binary64.ofDecimal negative n (power.getD 0 - places.length)), cs)
    else if maxDigits < whole.length then .error .oversizedInteger
    else .ok (.int (if negative then -(n : Int) else n), cs)

/-- A number in base sixteen, two or eight, marked by a letter after a zero. -/
def marked? (cs : Rest) : Option (Value × Rest) :=
  match cs with
  | '0' :: 'x' :: rest => radixNumber? 16 isHexDigit rest
  | '0' :: 'b' :: rest => radixNumber? 2 (fun c => c == '0' || c == '1') rest
  | '0' :: 'o' :: rest => radixNumber? 8 (fun c => '0' ≤ c && c ≤ '7') rest
  | _ => none

def special? (cs : Rest) : Option (Value × Rest) :=
  let (negative, rest) := signOf cs
  match rest with
  | 'i' :: 'n' :: 'f' :: rest => some (.float (.infinite negative), rest)
  | 'n' :: 'a' :: 'n' :: rest => some (.float .nan, rest)
  | _ => none

/-! Dates and times -/

/-- Two digits that make a number in a range. -/
def twoDigits? (least most : Nat) (cs : Rest) : Option (Nat × Rest) :=
  match cs with
  | a :: b :: rest =>
    let n := Json.digitsToNat [a, b]
    if a.isDigit ∧ b.isDigit ∧ least ≤ n ∧ n ≤ most then some (n, rest) else none
  | _ => none

def expect? (c : Char) (cs : Rest) : Option Rest :=
  match cs with
  | d :: rest => if c = d then some rest else none
  | [] => none

/-- Fractions of a second, if there are any. -/
def secondFraction (cs : Rest) : Rest :=
  match cs with
  | '.' :: rest => if rest.head?.any Char.isDigit then rest.dropWhile Char.isDigit else cs
  | _ => cs

/-- The rest after a time of day. -/
def afterTime? (cs : Rest) : Option Rest := do
  let (_, cs) ← twoDigits? 0 23 cs
  let cs ← expect? ':' cs
  let (_, cs) ← twoDigits? 0 59 cs
  let cs ← expect? ':' cs
  let (_, cs) ← twoDigits? 0 59 cs
  some (secondFraction cs)

/-- The rest after a distance from universal time such as `+01:30`. -/
def afterOffset? (cs : Rest) : Option Rest := do
  let (_, cs) ← twoDigits? 0 23 cs
  let cs ← expect? ':' cs
  let (_, cs) ← twoDigits? 0 59 cs
  some cs

def afterZone (cs : Rest) : Rest :=
  match cs with
  | c :: rest =>
    if c = 'Z' ∨ c = 'z' then rest
    else if c = '+' ∨ c = '-' then (afterOffset? rest).getD cs
    else cs
  | [] => []

def isLeap (year : Nat) : Bool := year % 4 == 0 && (year % 100 != 0 || year % 400 == 0)

def daysIn (year month : Nat) : Nat :=
  if month = 2 then (if isLeap year then 29 else 28)
  else if month ∈ [4, 6, 9, 11] then 30 else 31

/-- Year, month and day, written as a date but not checked against the calendar. -/
def date? (cs : Rest) : Option ((Nat × Nat × Nat) × Rest) :=
  if (cs.take 4).length = 4 ∧ (cs.take 4).all Char.isDigit then do
    let rest ← expect? '-' (cs.drop 4)
    let (month, rest) ← twoDigits? 1 12 rest
    let rest ← expect? '-' rest
    let (day, rest) ← twoDigits? 1 31 rest
    some ((Json.digitsToNat (cs.take 4), month, day), rest)
  else none

/-- The rest after the time that may follow a date. -/
def afterDate (cs : Rest) : Rest :=
  match cs with
  | c :: rest =>
    if c = 'T' ∨ c = 't' ∨ c = ' ' then
      match afterTime? rest with
      | some rest => afterZone rest
      | none => cs
    else cs
  | [] => []

/-- A number, a date or a time. A date must be one of the calendar. -/
def plain (cs : Rest) : Except Fault (Value × Rest) :=
  match date? cs, afterTime? cs, marked? cs with
  | some ((year, month, day), rest), _, _ =>
    if 1 ≤ year ∧ day ≤ daysIn year month then .ok (.moment, afterDate rest)
    else .error .malformed
  | none, some rest, _ => .ok (.moment, rest)
  | none, none, some number => .ok number
  | none, none, none =>
    match decimal cs with
    | .error .malformed => orMalformed (special? cs)
    | other => other

end SolidityCalls.Toml
