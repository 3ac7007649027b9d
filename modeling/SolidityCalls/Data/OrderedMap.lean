/-! Maps from names that keep the order in which names were first put. -/
namespace SolidityCalls

abbrev OrderedMap (α : Type) := List (String × α)

namespace OrderedMap

def get? {α : Type} (m : OrderedMap α) (key : String) : Option α := m.lookup key

def contains {α : Type} (m : OrderedMap α) (key : String) : Bool := m.any fun e => e.1 = key

/-- Sets the value of `key`, in its place if it has one and at the end otherwise. -/
def put {α : Type} (m : OrderedMap α) (key : String) (value : α) : OrderedMap α :=
  match m with
  | [] => [(key, value)]
  | e :: rest => if e.1 = key then (key, value) :: rest else e :: put rest key value

def ofPairs {α : Type} (pairs : List (String × α)) : OrderedMap α :=
  pairs.foldl (fun m e => put m e.1 e.2) []

end OrderedMap

/-- Sets of names, as lists in the order of insertion. -/
abbrev NameSet := List String

namespace NameSet

def add (s : NameSet) (name : String) : NameSet := if name ∈ s then s else s ++ [name]

def addAll (s : NameSet) (names : List String) : NameSet := names.foldl add s

/-- Names in the order of their code points. -/
def sorted (names : List String) : List String := names.mergeSort (· ≤ ·)

end NameSet
end SolidityCalls
