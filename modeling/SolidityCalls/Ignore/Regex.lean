/-! Regular expressions, as far as ignore patterns need them: characters, classes, the dot,
groups, alternatives, repetition, and the two ends of a text. -/
namespace SolidityCalls.Ignore

inductive Regex where
  | empty
  /-- One character, in or out of some ranges. -/
  | oneOf (negated : Bool) (ranges : List (Char × Char))
  /-- Any character but a newline. -/
  | dot
  | start
  /-- The end of the text, or a newline that ends it. -/
  | finish
  | seq (a b : Regex)
  | alt (a b : Regex)
  | star (a : Regex)
  | option (a : Regex)
  deriving Repr

namespace Regex

/-- A place in a text: the number of characters before it, and what is after it. -/
structure Spot where
  position : Nat
  rest : List Char

/-- All places from a position on. -/
def spotsFrom (position : Nat) : List Char → List Spot
  | [] => [⟨position, []⟩]
  | c :: cs => ⟨position, c :: cs⟩ :: spotsFrom (position + 1) cs

/-- The place after one character of a class. -/
def Spot.take? (p : Char → Bool) (s : Spot) : Option Spot :=
  match s.rest with
  | c :: rest => if p c then some ⟨s.position + 1, rest⟩ else none
  | [] => none

/-- The places of two lists in the order of the text, each of them once. -/
def merge : List Spot → List Spot → List Spot
  | [], ts => ts
  | ss, [] => ss
  | s :: ss, t :: ts =>
    if s.position < t.position then s :: merge ss (t :: ts)
    else if t.position < s.position then t :: merge (s :: ss) ts
    else s :: merge ss ts

/-- The places that are reached by repeated steps, none included. -/
def iterate (step : List Spot → List Spot) : (fuel : Nat) → List Spot → List Spot
  | 0, ss => ss
  | fuel + 1, ss =>
    match ss with
    | [] => []
    | ss => merge ss (iterate step fuel (step ss))

/-- The places where a match from one of the given places can end. Places are listed in the order
of the text. -/
def ends : Regex → List Spot → List Spot
  | .empty, ss => ss
  | .oneOf negated ranges, ss =>
    ss.filterMap (·.take? fun c => negated != ranges.any fun r => r.1 ≤ c && c ≤ r.2)
  | .dot, ss => ss.filterMap (·.take? (· ≠ '\n'))
  | .start, ss => ss.filter (·.position = 0)
  | .finish, ss => ss.filter fun s => s.rest = [] ∨ s.rest = ['\n']
  | .seq a b, ss => b.ends (a.ends ss)
  | .alt a b, ss => merge (a.ends ss) (b.ends ss)
  | .star a, ss => iterate a.ends (ss.head?.elim 0 (·.rest.length)) ss
  | .option a, ss => merge ss (a.ends ss)

/-- A match stands somewhere in the text. -/
def occursIn (r : Regex) (text : String) : Bool :=
  !(r.ends (spotsFrom 0 text.toList)).isEmpty

/-! Reading -/

def literal (c : Char) : Regex := .oneOf false [(c, c)]

/-- One character of a class, with the backslash that may stand before it. -/
def classChar? (cs : List Char) : Option (Char × List Char) :=
  match cs with
  | '\\' :: c :: rest => some (c, rest)
  | '\\' :: [] => none
  | c :: rest => some (c, rest)
  | [] => none

/-- The ranges of a class up to its closing bracket. A bracket in the first place does not close
it, and a hyphen before the closing bracket stands for itself. -/
def classRanges? (isFirst : Bool) : (fuel : Nat) → List Char →
    Option (List (Char × Char) × List Char)
  | 0, _ => none
  | fuel + 1, cs =>
    match cs with
    | [] => none
    | c :: rest =>
      if c = ']' ∧ !isFirst then some ([], rest)
      else
        match classChar? cs with
        | none => none
        | some (low, '-' :: ']' :: rest) => some ([(low, low), ('-', '-')], rest)
        | some (low, '-' :: rest) =>
          match classChar? rest with
          | none => none
          | some (high, rest) =>
            if high < low then none
            else (classRanges? false fuel rest).map fun (rs, r) => ((low, high) :: rs, r)
        | some (low, rest) =>
          (classRanges? false fuel rest).map fun (rs, r) => ((low, low) :: rs, r)

def class? (cs : List Char) : Option (Regex × List Char) :=
  match cs with
  | '^' :: rest => (classRanges? true (rest.length + 1) rest).map fun (rs, r) => (.oneOf true rs, r)
  | _ => (classRanges? true (cs.length + 1) cs).map fun (rs, r) => (.oneOf false rs, r)

/-- Applies the star or question mark that may follow an expression. -/
def repeated (a : Regex) (cs : List Char) : Regex × List Char :=
  match cs with
  | '*' :: rest => (.star a, rest)
  | '?' :: rest => (.option a, rest)
  | _ => (a, cs)

mutual

/-- Alternatives up to a closing parenthesis or the end. -/
def alternatives? : (fuel : Nat) → List Char → Option (Regex × List Char)
  | 0, _ => none
  | fuel + 1, cs =>
    match sequence? fuel cs with
    | some (a, '|' :: rest) => (alternatives? fuel rest).map fun (b, r) => (.alt a b, r)
    | other => other

def sequence? : (fuel : Nat) → List Char → Option (Regex × List Char)
  | 0, _ => none
  | fuel + 1, cs =>
    match cs with
    | [] | '|' :: _ | ')' :: _ => some (.empty, cs)
    | _ =>
      match single? fuel cs with
      | none => none
      | some (a, rest) =>
        let (a, rest) := repeated a rest
        (sequence? fuel rest).map fun (b, r) => (.seq a b, r)

def single? : (fuel : Nat) → List Char → Option (Regex × List Char)
  | 0, _ => none
  | fuel + 1, cs =>
    match cs with
    | '(' :: rest =>
      match alternatives? fuel rest with
      | some (a, ')' :: rest) => some (a, rest)
      | _ => none
    | '[' :: rest => class? rest
    | '.' :: rest => some (.dot, rest)
    | '^' :: rest => some (.start, rest)
    | '$' :: rest => some (.finish, rest)
    | '\\' :: c :: rest => some (literal c, rest)
    | '*' :: _ | '?' :: _ | '\\' :: [] | [] => none
    | c :: rest => some (literal c, rest)

end

def parse? (cs : List Char) : Option Regex :=
  match alternatives? (3 * cs.length + 3) cs with
  | some (r, []) => some r
  | _ => none

end Regex
end SolidityCalls.Ignore
