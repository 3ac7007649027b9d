import SolidityCalls.Failure
import SolidityCalls.Glob
import SolidityCalls.Ignore.Regex

/-! Rules of ignore files: one pattern a line. A pattern becomes a regular expression that is
looked for in paths relative to the directory of the file. -/
namespace SolidityCalls.Ignore

structure Rule where
  negated : Bool
  /-- The text of the regular expression. -/
  regex : List Char
  deriving DecidableEq, Repr

/-- Two or more stars after anything but a slash become one star. -/
def collapseAfter : List Char → List Char
  | [] => []
  | c :: rest =>
    if c ≠ '/' ∧ 2 ≤ (rest.takeWhile (· = '*')).length then
      c :: '*' :: collapseAfter (rest.dropWhile (· = '*'))
    else c :: collapseAfter rest
termination_by cs => cs.length
decreasing_by
  · have := Glob.length_dropWhile_le (· = '*') rest
    simp; omega
  · simp

/-- Two or more stars before anything but a slash become one star. Of three or more stars the
last counts as such a character if nothing better follows. -/
def collapseBefore : List Char → List Char
  | [] => []
  | '*' :: rest =>
    let stars := rest.takeWhile (· = '*')
    if stars = [] then '*' :: collapseBefore rest
    else
      let kept := if 2 ≤ stars.length then ['*', '*'] else '*' :: stars
      match _h : rest.dropWhile (· = '*') with
      | [] => kept
      | c :: after =>
        if c ≠ '/' then '*' :: c :: collapseBefore after else kept ++ c :: collapseBefore after
  | c :: rest => c :: collapseBefore rest
termination_by cs => cs.length
decreasing_by
  · simp
  · have := _h ▸ Glob.length_dropWhile_le (· = '*') rest
    simp at this ⊢; omega
  · have := _h ▸ Glob.length_dropWhile_le (· = '*') rest
    simp at this ⊢; omega
  · simp

/-- Trailing blanks, read from the end: they go, up to one that a backslash keeps. That backslash
goes too. The first two characters always stay. -/
def trimBlanks (stripping : Bool) : (reversed : List Char) → List Char
  | ' ' :: '\\' :: c :: rest => ' ' :: trimBlanks false (c :: rest)
  | ' ' :: c :: d :: rest =>
    if stripping then trimBlanks true (c :: d :: rest) else ' ' :: trimBlanks false (c :: d :: rest)
  | cs => cs

def specialChars : List Char :=
  "()[]\x7b\x7d?*+-|^$\\.&~# \t\n\r\x0b\x0c".toList

/-- A character that stands for itself. -/
def escapeChar (c : Char) : List Char := if c ∈ specialChars then ['\\', c] else [c]

/-- The text of a class, from what stands in its brackets. -/
def classRegex (text : List Char) : Except Failure (List Char) :=
  match (text.flatMap fun c => if c = '\\' then ['\\', '\\'] else [c]).filter (· ≠ '/') with
  | [] => .error .cutPattern
  | '!' :: rest => .ok ('[' :: '^' :: rest ++ [']'])
  | '^' :: rest => .ok ('[' :: '\\' :: '^' :: rest ++ [']'])
  | rest => .ok ('[' :: rest ++ [']'])

def notSlash : List Char := "[^/]".toList

def bodyRegex (cs : List Char) : Except Failure (List Char) :=
  match cs with
  | [] => .ok []
  | '*' :: '*' :: '/' :: rest => ("(.*[/])?".toList ++ ·) <$> bodyRegex rest
  | '*' :: '*' :: rest => (".*".toList ++ ·) <$> bodyRegex rest
  | '*' :: rest => (notSlash ++ '*' :: ·) <$> bodyRegex rest
  | '?' :: rest => (notSlash ++ ·) <$> bodyRegex rest
  | '/' :: rest => ("[/]".toList ++ ·) <$> bodyRegex rest
  | '[' :: rest =>
    match _h : Glob.classText? rest with
    | some (text, rest') => do
      let head ← classRegex text
      (head ++ ·) <$> bodyRegex rest'
    | none => ("\\[".toList ++ ·) <$> bodyRegex rest
  | c :: rest => (escapeChar c ++ ·) <$> bodyRegex rest
termination_by cs.length
decreasing_by
  all_goals first
    | (have shorter := Glob.length_classText? _h; simp; omega)
    | (simp; try omega)

/-- Needs a first character, and drops it if it is a slash. -/
def dropSlash : List Char → Except Failure (List Char)
  | [] => .error .cutPattern
  | '/' :: rest => .ok rest
  | cs => .ok cs

/-- Needs a last character, and drops it if it is a slash. -/
def dropLastSlash (cs : List Char) : Except Failure (List Char) :=
  match cs.getLast? with
  | none => .error .cutPattern
  | some c => .ok (if c = '/' then cs.dropLast else cs)

/-- A backslash before a hash or an exclamation mark at the start goes. -/
def unescapeStart : List Char → Except Failure (List Char)
  | [] => .error .cutPattern
  | ['\\'] => .error .cutPattern
  | '\\' :: c :: rest => .ok (if c = '#' ∨ c = '!' then c :: rest else '\\' :: c :: rest)
  | cs => .ok cs

/-- Two leading stars free a pattern from the directory of its file. -/
def dropStars (anchored : Bool) : List Char → Except Failure (Bool × List Char)
  | [] => .error .cutPattern
  | '*' :: '*' :: rest => .ok (false, rest)
  | cs => .ok (anchored, cs)

def frame (negated directoryOnly anchored : Bool) (body : List Char) : List Char :=
  (if anchored then "^".toList else "(^|[/])".toList) ++ body ++
    (if !directoryOnly then "$".toList
    else if negated then "/$".toList
    else "($|\\/)".toList)

/-- The rule of a pattern from which the exclamation mark has been taken. -/
def ruleOf (negated : Bool) (pattern : List Char) : Except Failure (Option Rule) := do
  let cs := collapseBefore (collapseAfter pattern)
  if (cs.reverse.dropWhile Text.isBlank).reverse = ['/'] then return none
  match cs.getLast? with
  | none => throw .cutPattern
  | some last =>
    let directoryOnly := last == '/'
    let anchored := cs.dropLast.contains '/'
    let cs ← dropSlash cs
    let (anchored, cs) ← dropStars anchored cs
    let cs ← dropSlash cs
    let cs ← dropLastSlash cs
    let cs ← unescapeStart cs
    let body ← bodyRegex (trimBlanks true cs.reverse).reverse
    return some ⟨negated, frame negated directoryOnly anchored body⟩

/-- The rule of a line; blank lines and comments have none. -/
def ruleOfLine (line : List Char) : Except Failure (Option Rule) :=
  if line.all Text.isBlank || line.head? = some '#' then .ok none
  else
    match line with
    | '!' :: rest => ruleOf true rest
    | _ => ruleOf false line

/-- The lines of a text; a carriage return ends a line, with a newline after it or without. -/
def linesOf : List Char → List (List Char)
  | [] => [[]]
  | '\r' :: '\n' :: rest => [] :: linesOf rest
  | c :: rest =>
    if c = '\n' ∨ c = '\r' then [] :: linesOf rest
    else
      match linesOf rest with
      | line :: lines => (c :: line) :: lines
      | [] => [[c]]

def rulesOf (bytes : Bytes) : Except Failure (List Rule) :=
  match Utf8.decode? bytes with
  | none => .error .undecodable
  | some text => do
    let rules ← (linesOf text.toList).mapM ruleOfLine
    return rules.filterMap id

def Rule.matches (r : Rule) (path : String) : Except Failure Bool :=
  match Regex.parse? r.regex with
  | some regex => .ok (regex.occursIn path)
  | none => .error .badPattern

def anyMatch (path : String) : List Rule → Except Failure Bool
  | [] => .ok false
  | r :: rules => do if ← r.matches path then return true else anyMatch path rules

/-- The last rule that matches decides; the rules are given in reverse. -/
def lastMatch (path : String) : (reversed : List Rule) → Except Failure Bool
  | [] => .ok false
  | r :: rules => do if ← r.matches path then return !r.negated else lastMatch path rules

/-- The rules ignore a path. -/
def ignores (rules : List Rule) (path : String) : Except Failure Bool :=
  if rules.any (·.negated) then lastMatch path rules.reverse else anyMatch path rules

end SolidityCalls.Ignore
