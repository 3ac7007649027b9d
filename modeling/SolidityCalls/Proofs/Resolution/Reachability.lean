import SolidityCalls.Proofs.Resolution.Linearization
import Mathlib.Data.List.Nodup
import Mathlib.Logic.Relation

/-! What a search can reach. Where no two contracts share a name, the guard of the search cuts off
no contract: whatever is reachable at all is reachable by a way that never comes back to a name. -/
namespace SolidityCalls.Resolution
open Relation

/-- One contract leads to another: as a base it names, or as a contract of a file it imports. -/
def Step (u : List Contract) (c d : Contract) : Prop :=
  d ∈ u ∧ (d.name ∈ c.baseNames ∨ d.sourcePath ∈ c.importPaths)

/-- A way whose contracts have pairwise distinct names, none of them guarded. -/
inductive FreshWay (u : List Contract) : List String → Contract → Contract → Prop where
  | here {guard : List String} {c : Contract} (hg : c.name ∉ guard) : FreshWay u guard c c
  | step {guard : List String} {c d e : Contract} (hg : c.name ∉ guard) (hs : Step u c d)
      (rest : FreshWay u (c.name :: guard) d e) : FreshWay u guard c e

theorem named?_spec {u : List Contract} {name : String} {d : { d // d ∈ u }}
    (h : named? u name = some d) : d.1.name = name := by
  simpa using List.find?_some h

theorem mem_imported {u : List Contract} {c : Contract} {d : { d // d ∈ u }} :
    d ∈ imported u c ↔ d.1.sourcePath ∈ c.importPaths ∧ d.1.name ∉ c.baseNames := by
  simp [imported]

theorem step_of_named? {u : List Contract} {c : Contract} {name : String}
    (hname : name ∈ c.baseNames) {d : { d // d ∈ u }} (hd : named? u name = some d) :
    Step u c d.1 :=
  ⟨d.2, .inl (named?_spec hd ▸ hname)⟩

theorem step_of_mem_imported {u : List Contract} {c : Contract} {d : { d // d ∈ u }}
    (hd : d ∈ imported u c) : Step u c d.1 :=
  ⟨d.2, .inr (mem_imported.mp hd).1⟩

theorem mem_of_reachable {u : List Contract} {c d : Contract} (hc : c ∈ u)
    (h : ReflTransGen (Step u) c d) : d ∈ u := by
  rcases h.cases_tail with rfl | ⟨_, _, hlast⟩
  · exact hc
  · exact hlast.1

theorem mem_linearization_of_notMem {u : List Contract} {guard : List String} {c e : Contract}
    (hg : c.name ∉ guard) :
    e ∈ linearization u guard c ↔ e = c ∨
      (∃ name ∈ c.baseNames, ∃ d, named? u name = some d ∧
        e ∈ linearization u (c.name :: guard) d.1) ∨
      ∃ d ∈ imported u c, e ∈ linearization u (c.name :: guard) d.1 := by
  have hbase (x : Option { d // d ∈ u }) :
      e ∈ (x.map fun d => linearization u (c.name :: guard) d.1).getD [] ↔
        ∃ d, x = some d ∧ e ∈ linearization u (c.name :: guard) d.1 := by
    cases x <;> simp
  rw [linearization, dif_neg hg]
  simp only [List.mem_cons, List.mem_append, List.mem_flatMap, List.mem_reverse, hbase]

/-- Every contract of the order is reachable. -/
theorem reachable_of_mem_linearization {u : List Contract} {guard : List String}
    {c e : Contract} (h : e ∈ linearization u guard c) : ReflTransGen (Step u) c e := by
  induction guard, c using linearization.induct u with
  | case1 guard c hg => simp [linearization, hg] at h
  | case2 guard c hg ih =>
    rcases (mem_linearization_of_notMem hg).mp h with rfl | ⟨name, hname, d, hd, he⟩ | ⟨d, hd, he⟩
    · exact .refl
    · exact .head (step_of_named? hname hd) (ih d he)
    · exact .head (step_of_mem_imported hd) (ih d he)

theorem FreshWay.of_subset {u : List Contract} {guard : List String} {c e : Contract}
    (h : FreshWay u guard c e) {guard' : List String} (hsub : guard' ⊆ guard) :
    FreshWay u guard' c e := by
  induction h generalizing guard' with
  | here hg => exact .here fun hmem => hg (hsub hmem)
  | step hg hs _ ih =>
    exact .step (fun hmem => hg (hsub hmem)) hs (ih (List.cons_subset_cons _ hsub))

/-- A fresh way either avoids a name, or what follows a contract of that name is a fresh way. -/
theorem FreshWay.avoids_or_passes {u : List Contract} {guard : List String} {c e : Contract}
    (h : FreshWay u guard c e) (hc : c ∈ u) (name : String) :
    FreshWay u (name :: guard) c e ∨ ∃ d ∈ u, d.name = name ∧ FreshWay u guard d e := by
  induction h with
  | @here guard c hg =>
    by_cases hn : c.name = name
    · exact .inr ⟨c, hc, hn, .here hg⟩
    · exact .inl (.here (by simp [hn, hg]))
  | @step guard c d e hg hs rest ih =>
    by_cases hn : c.name = name
    · exact .inr ⟨c, hc, hn, .step hg hs rest⟩
    rcases ih hs.1 with havoid | ⟨d', hd', hn', hway⟩
    · refine .inl (.step (by simp [hn, hg]) hs (havoid.of_subset ?_))
      simp
    · exact .inr ⟨d', hd', hn', hway.of_subset (List.subset_cons_self _ _)⟩

theorem eq_of_name_eq {u : List Contract} (hu : (u.map Contract.name).Nodup) {c d : Contract}
    (hc : c ∈ u) (hd : d ∈ u) (h : c.name = d.name) : c = d :=
  List.inj_on_of_nodup_map hu hc hd h

/-- Where names are distinct, a contract is the one found under its name. -/
theorem named?_of_mem {u : List Contract} (hu : (u.map Contract.name).Nodup) {d : Contract}
    (hd : d ∈ u) : named? u d.name = some ⟨d, hd⟩ := by
  obtain ⟨e, he⟩ : ∃ e, named? u d.name = some e := by
    apply Option.isSome_iff_exists.mp
    exact List.find?_isSome.mpr ⟨⟨d, hd⟩, List.mem_attach _ _, by simp⟩
  rw [he]
  exact congrArg some (Subtype.ext (eq_of_name_eq hu e.2 hd (named?_spec he)))

/-- Cutting the loops out of a way: the last visit of each name is the one that counts. -/
theorem FreshWay.of_reachable {u : List Contract} (hu : (u.map Contract.name).Nodup)
    {c e : Contract} (hc : c ∈ u) (h : ReflTransGen (Step u) c e) : FreshWay u [] c e := by
  induction h using ReflTransGen.head_induction_on with
  | refl => exact .here List.not_mem_nil
  | @head c d hs _ ih =>
    rcases (ih hs.1).avoids_or_passes hs.1 c.name with havoid | ⟨c', hc', hn, hway⟩
    · exact .step List.not_mem_nil hs havoid
    · exact eq_of_name_eq hu hc' hc hn ▸ hway

theorem mem_linearization_of_freshWay {u : List Contract} (hu : (u.map Contract.name).Nodup)
    {guard : List String} {c e : Contract} (h : FreshWay u guard c e) :
    e ∈ linearization u guard c := by
  induction h with
  | here hg => exact (mem_linearization_of_notMem hg).mpr (.inl rfl)
  | @step guard c d e hg hs _ ih =>
    obtain ⟨hd, hedge⟩ := hs
    apply (mem_linearization_of_notMem hg).mpr
    by_cases hbase : d.name ∈ c.baseNames
    · exact .inr (.inl ⟨d.name, hbase, ⟨d, hd⟩, named?_of_mem hu hd, ih⟩)
    · have himport : d.sourcePath ∈ c.importPaths := hedge.resolve_left hbase
      exact .inr (.inr ⟨⟨d, hd⟩, mem_imported.mpr ⟨himport, hbase⟩, ih⟩)

/-- Where names are distinct, the order holds exactly what is reachable. -/
theorem mem_linearization_iff {u : List Contract} (hu : (u.map Contract.name).Nodup)
    {c e : Contract} (hc : c ∈ u) :
    e ∈ linearization u [] c ↔ ReflTransGen (Step u) c e :=
  ⟨reachable_of_mem_linearization,
    fun h => mem_linearization_of_freshWay hu (FreshWay.of_reachable hu hc h)⟩

theorem definer?_isSome_iff {u : List Contract} (hu : (u.map Contract.name).Nodup)
    {c : Contract} (hc : c ∈ u) (callee : String) :
    (definer? u callee [] c).isSome ↔
      ∃ d, ReflTransGen (Step u) c d ∧ d.defines callee := by
  rw [definer?_eq_find?, List.find?_isSome]
  simp only [mem_linearization_iff hu hc]

theorem definer?_spec {u : List Contract} {callee : String} {guard : List String}
    {c d : Contract} (h : definer? u callee guard c = some d) :
    ReflTransGen (Step u) c d ∧ d.defines callee := by
  rw [definer?_eq_find?] at h
  have hdef := List.find?_some h
  exact ⟨reachable_of_mem_linearization (List.mem_of_find?_eq_some h), hdef⟩

/-- A call resolves exactly when a contract that defines its callee is reachable, and its
identifier then names such a contract. Bases and imports may go in circles. -/
theorem resolve?_iff_reachable {u : List Contract} (hu : (u.map Contract.name).Nodup)
    {c : Contract} (hc : c ∈ u) (registry : Registry) (call : Call) :
    ((resolve? u registry c call).isSome ↔
      ∃ d, ReflTransGen (Step u) c d ∧ d.defines call.calleeName) ∧
    ∀ id, resolve? u registry c call = some id →
      ∃ d, ReflTransGen (Step u) c d ∧ d.defines call.calleeName ∧
        id = call.identifier registry d.name := by
  constructor
  · rw [resolve?, Option.isSome_map]
    exact definer?_isSome_iff hu hc call.calleeName
  · intro id hid
    obtain ⟨d, hd, rfl⟩ := Option.map_eq_some_iff.mp hid
    obtain ⟨hreach, hdef⟩ := definer?_spec hd
    exact ⟨d, hreach, hdef, rfl⟩

/-- Two contracts that name each other as bases, and a third in a file that the second imports. -/
def mutualBases : List Contract :=
  [⟨"A", .contract, "/a.sol", ["B"], [], []⟩,
    ⟨"B", .contract, "/b.sol", ["A"], ["/a.sol", "/c.sol"], []⟩,
    ⟨"C", .library, "/c.sol", [], [], [⟨"f", "C:f", []⟩]⟩]

theorem resolve?_through_mutualBases :
    (mutualBases.map Contract.name).Nodup ∧ mutualBases[0] ∈ mutualBases ∧
      (resolve? mutualBases [] mutualBases[0] ⟨"f", [], none⟩).isSome := by
  refine ⟨by decide, by decide, ?_⟩
  refine (resolve?_iff_reachable (by decide) (by decide) [] ⟨"f", [], none⟩).1.mpr
    ⟨mutualBases[2], ?_, by decide⟩
  exact .head (b := mutualBases[1]) ⟨by decide, .inl (by decide)⟩
    (.single ⟨by decide, .inr (by decide)⟩)

end SolidityCalls.Resolution
