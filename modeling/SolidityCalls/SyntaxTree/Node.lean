import SolidityCalls.Text.Utf8

/-! Syntax trees of source files. A node knows the text it covers and the field under which its
parent holds it; a place is a node together with the way up to the root. -/
namespace SolidityCalls

/-- The fields under which a parent names one of its children. -/
inductive Field where
  | function
  | object
  | property
  | name
  | body
  | source
  | type
  deriving DecidableEq, Repr

/-- A node of the grammar. `start` is a byte offset; `hasError` says that the node or a node
below it is faulty. -/
structure Node where
  kind : String
  named : Bool
  missing : Bool
  hasError : Bool
  field : Option Field
  start : Nat
  text : String
  children : List Node

namespace Node

instance : Inhabited Node := ⟨⟨"source_file", true, false, false, none, 0, "", []⟩⟩

/-- The text of the source between two byte offsets, without ill-formed bytes. -/
def textOf (source : ByteArray) (start stop : Nat) : String :=
  Utf8.decodeLossy (source.extract start stop).toList

def namedChildren (n : Node) : List Node := n.children.filter (·.named)

/-- Position of the child held under a field. -/
def fieldIndex? (n : Node) (f : Field) : Option Nat :=
  n.children.findIdx? fun c => c.field = some f

def childByField? (n : Node) (f : Field) : Option Node :=
  n.children.find? fun c => c.field = some f

theorem sizeOf_lt_of_mem_children {n c : Node} (h : c ∈ n.children) : sizeOf c < sizeOf n := by
  cases n
  have := List.sizeOf_lt_of_mem h
  simp_all
  omega

mutual

/-- The node and all nodes below it, each before its children. -/
def preorder : Node → List Node
  | n@⟨_, _, _, _, _, _, _, children⟩ => n :: preorderAll children

def preorderAll : List Node → List Node
  | [] => []
  | n :: ns => n.preorder ++ preorderAll ns

end

/-- The nodes of the given kinds, each before its children. -/
def ofKinds (n : Node) (kinds : List String) : List Node :=
  n.preorder.filter fun m => kinds.contains m.kind

end Node

/-- One step up: the parent and the position of the child that was left. -/
structure Step where
  parent : Node
  index : Nat

/-- A node with the steps from it up to the root. -/
structure Place where
  node : Node
  above : List Step

namespace Place

/-- The place of the child at a position. -/
def child? (p : Place) (i : Nat) : Option Place :=
  p.node.children[i]?.map fun c => ⟨c, ⟨p.node, i⟩ :: p.above⟩

mutual

/-- The places of a node and of all nodes below it, each before its children. -/
def preorder (above : List Step) : Node → List Place
  | n@⟨_, _, _, _, _, _, _, children⟩ => ⟨n, above⟩ :: preorderAll above n 0 children

def preorderAll (above : List Step) (parent : Node) (i : Nat) : List Node → List Place
  | [] => []
  | n :: ns => preorder (⟨parent, i⟩ :: above) n ++ preorderAll above parent (i + 1) ns

end

end Place
end SolidityCalls
