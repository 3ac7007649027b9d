/-! File paths: an anchor and the components below it. Reading a path drops empty and `.`
components and keeps `..`, so two texts of one path read alike. -/
namespace SolidityCalls

/-- How a path starts. Exactly two leading slashes are an anchor of their own. -/
inductive Anchor where
  | relative
  | root
  | doubleRoot
  deriving DecidableEq, Repr, Inhabited

def Anchor.text : Anchor → String
  | .relative => ""
  | .root => "/"
  | .doubleRoot => "//"

structure Path where
  anchor : Anchor
  parts : List String
  deriving DecidableEq, Repr, Inhabited

namespace Path

/-- The pieces of a text between slashes. -/
def splitSlash : List Char → List (List Char)
  | [] => [[]]
  | c :: cs =>
    if c = '/' then [] :: splitSlash cs
    else
      match splitSlash cs with
      | piece :: pieces => (c :: piece) :: pieces
      | [] => [[c]]

def pieces (s : String) : List String := (splitSlash s.toList).map String.ofList

def anchorOf : List Char → Anchor
  | '/' :: '/' :: '/' :: _ => .root
  | '/' :: '/' :: _ => .doubleRoot
  | '/' :: _ => .root
  | _ => .relative

def parse (s : String) : Path :=
  ⟨anchorOf s.toList, (pieces s).filter fun p => p ≠ "" ∧ p ≠ "."⟩

def render (p : Path) : String :=
  match p.anchor, p.parts with
  | .relative, [] => "."
  | anchor, parts => anchor.text ++ "/".intercalate parts

/-- The absolute path with the given components. -/
def absolute (parts : List String) : Path := ⟨.root, parts⟩

def isAbsolute (p : Path) : Bool := p.anchor ≠ .relative

/-- `q` below `p`; an absolute `q` stands for itself. -/
def join (p q : Path) : Path :=
  match q.anchor with
  | .relative => ⟨p.anchor, p.parts ++ q.parts⟩
  | _ => q

def child (p : Path) (name : String) : Path := p.join (parse name)

def parent (p : Path) : Path := ⟨p.anchor, p.parts.dropLast⟩

/-- The last component, empty for an anchor alone. -/
def name (p : Path) : String := p.parts.getLast?.getD ""

/-- The part of a file name before its last dot. A dot at either end of the name starts no
suffix. -/
def stemOf (name : List Char) : List Char :=
  let suffix := name.reverse.takeWhile (· ≠ '.')
  let rest := name.reverse.dropWhile (· ≠ '.')
  match suffix, rest with
  | _ :: _, _ :: c :: cs => (c :: cs).reverse
  | _, _ => name

def stem (p : Path) : String := String.ofList (stemOf p.name.toList)

/-- What is left of `p` below `base`, compared component by component. -/
def relativeTo? (p base : Path) : Option (List String) :=
  if p.anchor = base.anchor ∧ base.parts.isPrefixOf p.parts then
    some (p.parts.drop base.parts.length)
  else none

/-- The first of the path's parts, the anchor counting as one. -/
def firstPart? (p : Path) : Option String :=
  match p.anchor with
  | .relative => p.parts.head?
  | anchor => some anchor.text

/-- A path as artifacts show it: relative to `root` when inside it, otherwise as it is. -/
def display (p root : Path) : String :=
  match p.relativeTo? root with
  | some rest => (Path.mk .relative rest).render
  | none => p.render

end Path
end SolidityCalls
