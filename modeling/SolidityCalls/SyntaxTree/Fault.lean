import SolidityCalls.SyntaxTree.Node

/-! The first fault of a tree, and positions in a source text. -/
namespace SolidityCalls

/-- Zero-based line, and zero-based column in bytes. -/
structure Position where
  line : Nat
  column : Nat
  deriving DecidableEq, Repr

def Position.ofOffset (source : Bytes) (offset : Nat) : Position :=
  let before := source.take offset
  ⟨before.count 10, (before.reverse.takeWhile (· ≠ 10)).length⟩

def Position.text (p : Position) : String :=
  "L" ++ toString (p.line + 1) ++ ":C" ++ toString (p.column + 1)

namespace Node

/-- The node itself is wrong, whatever it holds. -/
def isFault (n : Node) : Bool := n.kind == "ERROR" || n.missing

mutual

/-- The first faulty node, looking only below nodes marked as holding one. A marked node that
holds none stands for itself. -/
def firstFault? : Node → Option Node
  | n@⟨_, _, _, _, _, _, _, children⟩ =>
    if n.isFault then some n
    else if n.hasError then some ((firstFaultIn? children).getD n)
    else none

def firstFaultIn? : List Node → Option Node
  | [] => none
  | n :: ns =>
    match n.firstFault? with
    | some m => some m
    | none => firstFaultIn? ns

end

end Node
end SolidityCalls
