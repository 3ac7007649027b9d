import SolidityCalls.Json.Reader
import SolidityCalls.Schema.Issue
import SolidityCalls.Text.Character

/-! Integers in texts. The plain form has a minus sign or none and no needless zeros. A text in
another form is tidied first: it may have a plus sign, leading zeros, single underscores between
digits and a fraction of zeros. -/
namespace SolidityCalls.Schema

/-- The number of digits in the longest integer. -/
def maxDigits : Nat := 4300

def plainInteger (cs : List Char) : Except Problem Int :=
  let (negative, cs) := Json.sign cs
  match Json.wholePart? cs with
  | none => .error .intText
  | some (digits, rest) =>
    if maxDigits < digits.length then .error .intSize
    else if rest ≠ [] then .error .intText
    else
      let n : Int := Json.digitsToNat digits
      .ok (if negative then -n else n)

/-- What follows leading zeros and the underscores among them. The character before it, which is
`last` at first, is kept before a point and at the end. -/
def afterZeros? (last : Char) : List Char → Option (List Char)
  | [] => some [last]
  | c :: rest =>
    if c = '0' ∨ c = '_' then afterZeros? c rest
    else if c.isDigit ∨ c = '-' then some (c :: rest)
    else if c = '.' then some (last :: c :: rest)
    else none

/-- A text that starts with a digit, without its leading zeros. -/
def withoutZeros? (cs : List Char) : Option (List Char) :=
  match cs with
  | '0' :: rest => afterZeros? '0' rest
  | c :: _ => if c.isDigit then some cs else none
  | [] => none

/-- A text without the point and zeros at its end. -/
def withoutFraction (cs : List Char) : List Char :=
  match cs.dropWhile (· ≠ '.') with
  | _ :: zeros => if zeros ≠ [] ∧ zeros.all (· = '0') then cs.takeWhile (· ≠ '.') else cs
  | [] => cs

def hasDoubleUnderscore : List Char → Bool
  | '_' :: '_' :: _ => true
  | _ :: rest => hasDoubleUnderscore rest
  | [] => false

/-- A text without the single underscores in it. -/
def ungrouped? (cs : List Char) : Option (List Char) :=
  if cs.head? = some '_' ∨ cs.getLast? = some '_' ∨ hasDoubleUnderscore cs then none
  else some (cs.filter (· ≠ '_'))

def tidied? (cs : List Char) : Option (List Char) :=
  match cs with
  | '-' :: rest =>
    (withoutZeros? rest).bind fun r => (ungrouped? (withoutFraction r)).map ('-' :: ·)
  | '+' :: rest => (withoutZeros? rest).bind (ungrouped? ∘ withoutFraction)
  | _ => (withoutZeros? cs).bind (ungrouped? ∘ withoutFraction)

/-- The integer in a text, with blanks around it allowed. -/
def integerOfText (cs : List Char) : Except Problem Int :=
  let cs := Text.trim Text.isWhiteSpace cs
  match plainInteger cs, tidied? cs with
  | .error .intText, some tidy => plainInteger tidy
  | result, _ => result

end SolidityCalls.Schema
