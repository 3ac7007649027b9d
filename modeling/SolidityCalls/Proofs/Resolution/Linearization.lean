import SolidityCalls.Link.Resolution
import Mathlib.Data.List.Basic

/-! The order in which a search looks at contracts. It is fixed by the contract the search starts
from and does not depend on the callee: a search finds the first contract in this order that
defines its callee. -/
namespace SolidityCalls.Resolution

/-- The contracts a search from `c` looks at, the one that counts first. Of several results the
last one counts, so bases and imported contracts stand in reverse. -/
def linearization (u : List Contract) (guard : List String) (c : Contract) : List Contract :=
  if _hg : c.name ∈ guard then []
  else
    c :: ((c.baseNames.reverse.flatMap fun name =>
        ((named? u name).map fun d => linearization u (c.name :: guard) d.1).getD []) ++
      (imported u c).reverse.flatMap fun d => linearization u (c.name :: guard) d.1)
termination_by budget u guard c
decreasing_by
  · exact budget_lt d.2 _hg
  · exact budget_lt d.2 _hg

/-- The equation of a linearization, over the universe as a plain list. -/
def IsLinearization (u : List Contract) (L : List String → Contract → List Contract) : Prop :=
  ∀ guard c, L guard c =
    if c.name ∈ guard then []
    else
      c :: ((c.baseNames.reverse.flatMap fun name =>
          ((u.find? fun d => d.name = name).map (L (c.name :: guard))).getD []) ++
        (c.importPaths.flatMap fun path =>
          u.filter fun d => d.sourcePath = path ∧ d.name ∉ c.baseNames).reverse.flatMap
            (L (c.name :: guard)))

theorem named?_map_val (u : List Contract) (name : String) :
    (named? u name).map (·.1) = u.find? fun d => d.name = name := by
  unfold named?
  conv_rhs => rw [← List.attach_map_subtype_val u]
  rw [List.find?_map]
  rfl

theorem imported_map_val (u : List Contract) (c : Contract) :
    (imported u c).map (·.1) = c.importPaths.flatMap fun path =>
      u.filter fun d => d.sourcePath = path ∧ d.name ∉ c.baseNames := by
  unfold imported
  rw [List.map_flatMap]
  congr 1
  funext path
  conv_rhs => rw [← List.attach_map_subtype_val u]
  rw [List.filter_map]
  rfl

theorem linearization_isLinearization (u : List Contract) :
    IsLinearization u (linearization u) := by
  intro guard c
  rw [linearization, ← imported_map_val, ← List.map_reverse, List.flatMap_map]
  simp only [← named?_map_val, Option.map_map, Function.comp_def, dite_eq_ite]

/-- The guard grows at every step, so the equation has one solution only. -/
theorem IsLinearization.eq {u : List Contract} {L : List String → Contract → List Contract}
    (h : IsLinearization u L) (guard : List String) (c : Contract) :
    L guard c = linearization u guard c := by
  induction guard, c using linearization.induct u with
  | case1 guard c hg => rw [h guard c, linearization, if_pos hg, dif_pos hg]
  | case2 guard c hg ih =>
    rw [h guard c, linearization_isLinearization u guard c, if_neg hg, if_neg hg]
    rw [← imported_map_val, ← List.map_reverse, List.flatMap_map, List.flatMap_map]
    simp only [← named?_map_val, Option.map_map, Function.comp_def, ih]

theorem lastSome_map {α β : Type} (f : α → Option β) (xs : List α) :
    lastSome (xs.map f) = xs.reverse.findSome? f := by
  rw [lastSome, List.filterMap_map, List.getLast?_filterMap]
  rfl

/-- A scan of an order looks at the contract, then at the orders of its bases, then at those of
its imported contracts; in both groups the last hit counts. -/
theorem find?_linearization (u : List Contract) (p : Contract → Bool) {guard : List String}
    {c : Contract} (hg : c.name ∉ guard) :
    (linearization u guard c).find? p =
      if p c then some c
      else
        (lastSome (c.baseNames.map fun name => (named? u name).bind fun d =>
          (linearization u (c.name :: guard) d.1).find? p)).or
        (lastSome ((imported u c).map fun d =>
          (linearization u (c.name :: guard) d.1).find? p)) := by
  have hbase (x : Option { d // d ∈ u }) :
      ((x.map fun d => linearization u (c.name :: guard) d.1).getD []).find? p =
        x.bind fun d => (linearization u (c.name :: guard) d.1).find? p := by
    cases x <;> rfl
  rw [linearization, dif_neg hg, List.find?_cons, List.find?_append, List.find?_flatMap,
    List.find?_flatMap, lastSome_map, lastSome_map]
  simp only [hbase]
  cases p c <;> rfl

theorem definer?_of_notMem (u : List Contract) (callee : String) {guard : List String}
    {c : Contract} (hg : c.name ∉ guard) :
    definer? u callee guard c =
      if c.defines callee then some c
      else
        (lastSome (c.baseNames.map fun name => (named? u name).bind fun d =>
          definer? u callee (c.name :: guard) d.1)).or
        (lastSome ((imported u c).map fun d => definer? u callee (c.name :: guard) d.1)) := by
  rw [definer?, dif_neg hg]
  cases lastSome (c.baseNames.map fun name => (named? u name).bind fun d =>
    definer? u callee (c.name :: guard) d.1) <;> rfl

/-- A search that keeps the last result is a scan for the first contract of the order. -/
theorem definer?_eq_find? (u : List Contract) (callee : String) (guard : List String)
    (c : Contract) :
    definer? u callee guard c = (linearization u guard c).find? fun d => d.defines callee := by
  induction guard, c using linearization.induct u with
  | case1 guard c hg => rw [definer?, linearization, dif_pos hg, dif_pos hg, List.find?_nil]
  | case2 guard c hg ih =>
    rw [definer?_of_notMem u callee hg, find?_linearization u _ hg]
    simp only [ih]

/-- Resolution agrees with one order of contracts for each contract, whatever the callee: the
equation of that order has exactly one solution in every universe, cyclic or not, and a call
resolves to the first contract of the order that defines its callee. -/
theorem resolve?_eq_first_of_linearization (u : List Contract) :
    (∃! L, IsLinearization u L) ∧ IsLinearization u (linearization u) ∧
      ∀ (c : Contract) (registry : Registry) (call : Call),
        resolve? u registry c call =
          ((linearization u [] c).find? fun d => d.defines call.calleeName).map fun d =>
            call.identifier registry d.name := by
  refine ⟨⟨linearization u, linearization_isLinearization u, fun L hL => ?_⟩,
    linearization_isLinearization u, fun c registry call => ?_⟩
  · funext guard c
    exact hL.eq guard c
  · rw [resolve?, definer?_eq_find?]

end SolidityCalls.Resolution
