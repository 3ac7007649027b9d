/-! Globs over whole texts: a star stands for any run of characters, slashes included, and a
question mark for one character. A class in brackets is negated by a leading exclamation mark;
ranges in reverse are dropped from it, and a bracket that is not closed stands for itself. -/
namespace SolidityCalls.Glob

/-- One character of a pattern. -/
inductive Single where
  | any
  | never
  | exactly (c : Char)
  | oneOf (negated : Bool) (ranges : List (Char × Char))
  deriving DecidableEq, Repr

def Single.accepts (s : Single) (c : Char) : Bool :=
  match s with
  | .any => true
  | .never => false
  | .exactly d => c = d
  | .oneOf negated ranges => negated != ranges.any fun r => r.1 ≤ c && c ≤ r.2

inductive Item where
  | star
  | single (s : Single)
  deriving DecidableEq, Repr

/-- The first character of a text, if it is `c`. -/
def leading (c : Char) (cs : List Char) : List Char := if cs.head? = some c then [c] else []

/-- The text of a class up to its closing bracket, and what follows. A closing bracket in the
first place, after an exclamation mark too, belongs to the class. -/
def classText? (cs : List Char) : Option (List Char × List Char) :=
  let mark := leading '!' cs
  let bracket := leading ']' (cs.drop mark.length)
  let body := cs.drop (mark.length + bracket.length)
  match body.dropWhile (· ≠ ']') with
  | _ :: rest => some (mark ++ bracket ++ body.takeWhile (· ≠ ']'), rest)
  | [] => none

theorem length_dropWhile_le (p : Char → Bool) (cs : List Char) :
    (cs.dropWhile p).length ≤ cs.length :=
  (List.dropWhile_sublist p).length_le

theorem length_classText? {cs text rest : List Char} (h : classText? cs = some (text, rest)) :
    rest.length < cs.length := by
  simp only [classText?] at h
  split at h
  · rename_i found
    have shorter := congrArg List.length found ▸ length_dropWhile_le _ _
    rw [← (Prod.mk.inj (Option.some.inj h)).2]
    simp at shorter
    omega
  · simp at h

/-- Splits a class at its range hyphens: the first piece has at least `least` characters and the
others at least two. -/
def pieces (least : Nat) (cs : List Char) : List (List Char) :=
  let piece := cs.take least ++ (cs.drop least).takeWhile (· ≠ '-')
  match _h : (cs.drop least).dropWhile (· ≠ '-') with
  | _ :: [] => [piece ++ ['-']]
  | _ :: rest => piece :: pieces 2 rest
  | [] => [piece]
termination_by cs.length
decreasing_by
  have := length_dropWhile_le (· ≠ '-') (cs.drop least)
  rw [_h] at this
  simp at this ⊢
  omega

/-- Puts a piece in front of others. Two ends that make a range in reverse are dropped. -/
def joinPiece (piece : List Char) (others : List (List Char)) : List (List Char) :=
  match others with
  | [] => [piece]
  | next :: rest =>
    match piece.getLast?, next with
    | some last, first :: tail =>
      if first < last then (piece.dropLast ++ tail) :: rest else piece :: others
    | _, _ => piece :: others

def singles (cs : List Char) : List (Char × Char) := cs.map fun c => (c, c)

/-- The ranges of pieces: the end of one and the start of the next make a range, every other
character is a range of its own. -/
def rangesOf (piece : List Char) : List (List Char) → List (Char × Char)
  | [] => singles piece
  | next :: rest =>
    match piece.getLast?, next with
    | some last, first :: tail => singles piece.dropLast ++ (last, first) :: rangesOf tail rest
    | _, _ => singles piece ++ rangesOf next rest

def classOf (text : List Char) : Single :=
  let pieces :=
    if text.contains '-' then
      (pieces (if text.head? = some '!' then 2 else 1) text).foldr joinPiece []
    else [text]
  match pieces with
  | [] | [[]] => .never
  | [['!']] => .any
  | ('!' :: piece) :: rest => .oneOf true (rangesOf piece rest)
  | piece :: rest => .oneOf false (rangesOf piece rest)

def parse (cs : List Char) : List Item :=
  match cs with
  | [] => []
  | '*' :: rest => .star :: parse rest
  | '?' :: rest => .single .any :: parse rest
  | '[' :: rest =>
    match _h : classText? rest with
    | some (text, rest') => .single (classOf text) :: parse rest'
    | none => .single (.exactly '[') :: parse rest
  | c :: rest => .single (.exactly c) :: parse rest
termination_by cs.length
decreasing_by
  all_goals first
    | (have shorter := length_classText? _h; simp; omega)
    | simp

/-- A text and what is left of it when characters are taken from its front. -/
def suffixes : List Char → List (List Char)
  | [] => [[]]
  | c :: cs => (c :: cs) :: suffixes cs

/-- What is left of a text after one character that fits. -/
def Single.rest? (s : Single) : List Char → Option (List Char)
  | c :: cs => if s.accepts c then some cs else none
  | [] => none

/-- What an item can leave of any of `rests`, which are ends of one text, the longest first. -/
def Item.advance (rests : List (List Char)) : Item → List (List Char)
  | .star =>
    match rests with
    | longest :: _ => suffixes longest
    | [] => []
  | .single s => rests.filterMap s.rest?

/-- The items together can take the whole text. -/
def accepts (items : List Item) (cs : List Char) : Bool :=
  (items.foldl Item.advance [cs]).contains []

/-- The whole text matches the pattern. -/
def isMatch (pattern text : String) : Bool := accepts (parse pattern.toList) text.toList

end SolidityCalls.Glob
