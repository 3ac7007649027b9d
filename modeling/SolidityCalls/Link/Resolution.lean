import SolidityCalls.Contract
import SolidityCalls.Link.Registry

/-! Resolution of calls over the contracts of a universe. The search looks at a contract, then at
its bases, then at the other contracts of its imported files; of several results the last one
counts. -/
namespace SolidityCalls

namespace Call

/-- Types of members that do not depend on the object. -/
def memberType? : String → Option String
  | "sender" => some "address"
  | "value" => some "uint256"
  | _ => none

/-- What an argument adds to the identifier of a call. -/
def segment? (registry : Registry) (a : Argument) : Option String :=
  match a.kind, a.member with
  | .identifier, _ => some ((registry.typeOf? a.text).getD "")
  | .memberAccess, some member => memberType? member
  | _, _ => none

/-- `Contract:callee` followed by the types of the arguments. -/
def identifier (call : Call) (registry : Registry) (contractName : String) : String :=
  ":".intercalate (contractName :: call.calleeName :: call.args.filterMap (segment? registry))

end Call

namespace Resolution

/-- The last result there is. -/
def lastSome {α : Type} (xs : List (Option α)) : Option α := (xs.filterMap id).getLast?

/-- The contracts whose names are not guarded. -/
def unguarded (u : List Contract) (guard : List String) : List Contract :=
  u.filter fun c => c.name ∉ guard

theorem unguarded_cons (u : List Contract) (guard : List String) (name : String) :
    unguarded u (name :: guard) = (unguarded u guard).filter fun d => d.name ≠ name := by
  simp only [unguarded, List.filter_filter, List.mem_cons, not_or, Bool.decide_and, ne_eq]

theorem unguarded_lt {u : List Contract} {guard : List String} {c : Contract} (hc : c ∈ u)
    (hg : c.name ∉ guard) :
    (unguarded u (c.name :: guard)).length < (unguarded u guard).length := by
  rw [unguarded_cons]
  exact List.length_filter_lt_length_iff_exists.2
    ⟨c, List.mem_filter.2 ⟨hc, by simpa using hg⟩, by simp⟩

/-- The first contract of a name. -/
def named? (u : List Contract) (name : String) : Option { c // c ∈ u } :=
  u.attach.find? fun c => c.1.name = name

/-- The contracts of imported files that are not named as bases, by import and then by place. -/
def imported (u : List Contract) (c : Contract) : List { c // c ∈ u } :=
  c.importPaths.flatMap fun path =>
    u.attach.filter fun d => d.1.sourcePath = path ∧ d.1.name ∉ c.baseNames

/-- What a search that starts at `c` can still go through: the unguarded contracts, and `c` when
it is none of the universe. -/
def budget (u : List Contract) (guard : List String) (c : Contract) : Nat :=
  (unguarded u guard).length + if c ∈ u then 0 else 1

theorem budget_lt {u : List Contract} {guard : List String} {c d : Contract} (hd : d ∈ u)
    (hg : c.name ∉ guard) : budget u (c.name :: guard) d < budget u guard c := by
  simp only [budget, hd, ↓reduceIte, Nat.add_zero]
  by_cases hc : c ∈ u
  · simpa [hc] using unguarded_lt hc hg
  · have hle : (unguarded u (c.name :: guard)).length ≤ (unguarded u guard).length := by
      rw [unguarded_cons]
      exact List.length_filter_le _ _
    simpa [hc] using Nat.lt_succ_of_le hle

/-- The contract that defines the callee, seen from `c`. Contracts whose names are guarded are
being searched and give nothing. -/
def definer? (u : List Contract) (callee : String) (guard : List String) (c : Contract) :
    Option Contract :=
  if _hg : c.name ∈ guard then none
  else if c.defines callee then some c
  else
    match lastSome (c.baseNames.map fun name =>
        (named? u name).bind fun d => definer? u callee (c.name :: guard) d.1) with
    | some d => some d
    | none => lastSome ((imported u c).map fun d => definer? u callee (c.name :: guard) d.1)
termination_by budget u guard c
decreasing_by
  · exact budget_lt d.2 _hg
  · exact budget_lt d.2 _hg

/-- The identifier that a call made in `c` resolves to. -/
def resolve? (u : List Contract) (registry : Registry) (c : Contract) (call : Call) :
    Option String :=
  (definer? u call.calleeName [] c).map fun d => call.identifier registry d.name

def resolveCall (u : List Contract) (registry : Registry) (c : Contract) (call : Call) : Call :=
  { call with resolvedId := some ((resolve? u registry c call).getD unresolvedMark) }

def resolveFunction (u : List Contract) (registry : Registry) (c : Contract)
    (f : ContractFunction) : ContractFunction :=
  { f with calls := f.calls.map (resolveCall u registry c) }

/-- Every call of every contract with its target. -/
def resolveAll (u : List Contract) (registry : Registry) : List Contract :=
  u.map fun c => { c with functions := c.functions.map (resolveFunction u registry c) }

/-- The calls without a target, with the names of the contracts that make them. -/
def unresolved (u : List Contract) : List (String × Call) :=
  u.flatMap fun c => c.functions.flatMap fun f =>
    (f.calls.filter fun k => k.resolvedId = some unresolvedMark).map (c.name, ·)

end Resolution
end SolidityCalls
