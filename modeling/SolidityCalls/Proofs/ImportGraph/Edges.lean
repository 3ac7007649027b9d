import Mathlib.Data.List.Nodup
import Mathlib.Logic.Relation
import SolidityCalls.ImportGraph
import SolidityCalls.Proofs.Data.OrderedMap

/-! The imports that a graph has, and the components they make: groups of files that lead to each
other. A component is a cycle if its files lead to themselves. -/
namespace SolidityCalls.ImportGraph

open Relation (ReflTransGen TransGen)

/-- The graph has an import of `b` in `a`. -/
def Edge (g : ImportGraph) (a b : String) : Prop := b ∈ targets g a

theorem Edge.exists_get? {g : ImportGraph} {a b : String} (h : g.Edge a b) :
    ∃ names, OrderedMap.get? g a = some names ∧ b ∈ names := by
  cases hget : OrderedMap.get? g a with
  | none => simp [Edge, targets, hget] at h
  | some names => exact ⟨names, rfl, by simpa [Edge, targets, hget] using h⟩

theorem Edge.mem_keys {g : ImportGraph} {a b : String} (h : g.Edge a b) : a ∈ g.map (·.1) := by
  obtain ⟨names, hget, _⟩ := h.exists_get?
  exact OrderedMap.isSome_get?.mp (hget ▸ rfl)

theorem Edge.mem_files {g : ImportGraph} {a b : String} (h : g.Edge a b) : b ∈ g.files := by
  obtain ⟨names, hget, hb⟩ := h.exists_get?
  exact List.mem_flatMap.mpr ⟨_, OrderedMap.mem_of_get? hget, List.mem_cons_of_mem _ hb⟩

theorem mem_keys_of_transGen {g : ImportGraph} {a b : String} (h : TransGen g.Edge a b) :
    a ∈ g.map (·.1) := by
  obtain ⟨_, hedge, _⟩ := TransGen.head'_iff.mp h
  exact hedge.mem_keys

section Edges

variable {g h : ImportGraph} {a b : String}

@[simp] theorem not_edge_nil : ¬ Edge [] a b := List.not_mem_nil

theorem edge_addTargets {node : String} {names : List String} :
    (g.addTargets node names).Edge a b ↔ g.Edge a b ∨ node = a ∧ b ∈ names := by
  simp only [Edge, targets, addTargets, OrderedMap.get?_put]
  split_ifs with hnode
  · simp [hnode, NameSet.mem_addAll]
  · simp [Ne.symm hnode]

theorem nodup_keys_merge (hg : (g.map (·.1)).Nodup) (h : ImportGraph) :
    ((g.merge h).map (·.1)).Nodup := by
  unfold merge
  induction h generalizing g with
  | nil => exact hg
  | cons e h ih => exact ih (OrderedMap.nodup_keys_put hg _ _)

theorem edge_merge : (g.merge h).Edge a b ↔ g.Edge a b ∨ ∃ e ∈ h, e.1 = a ∧ b ∈ e.2 := by
  unfold merge
  induction h generalizing g with
  | nil => simp
  | cons e h ih => rw [List.foldl_cons, ih, edge_addTargets, List.exists_mem_cons_iff, or_assoc]

theorem edge_iff_of_nodup (hg : (g.map (·.1)).Nodup) :
    g.Edge a b ↔ ∃ e ∈ g, e.1 = a ∧ b ∈ e.2 := by
  constructor
  · intro h
    obtain ⟨names, hget, hb⟩ := h.exists_get?
    exact ⟨(a, names), OrderedMap.mem_of_get? hget, rfl, hb⟩
  · rintro ⟨e, he, rfl, hb⟩
    have hget := (OrderedMap.mem_iff_get? hg).mp he
    simpa [Edge, targets, hget] using hb

theorem edge_foldl_merge {α : Type} {graph : α → ImportGraph} {xs : List α}
    (hkeys : ∀ x ∈ xs, ((graph x).map (·.1)).Nodup) :
    (xs.foldl (fun g x => g.merge (graph x)) g).Edge a b ↔
      g.Edge a b ∨ ∃ x ∈ xs, (graph x).Edge a b := by
  induction xs generalizing g with
  | nil => simp
  | cons x xs ih =>
    obtain ⟨hx, hxs⟩ := List.forall_mem_cons.mp hkeys
    rw [List.foldl_cons, ih hxs, edge_merge, ← edge_iff_of_nodup hx, List.exists_mem_cons_iff,
      or_assoc]

theorem ofContracts_eq_merge (label : String → String) (contracts : List Contract) :
    ofContracts label contracts =
      merge [] (contracts.map fun c => (label c.sourcePath, c.importPaths.map label)) := by
  rw [merge, List.foldl_map, ofContracts]

theorem nodup_keys_ofContracts (label : String → String) (contracts : List Contract) :
    ((ofContracts label contracts).map (·.1)).Nodup := by
  rw [ofContracts_eq_merge]
  exact nodup_keys_merge (g := []) List.nodup_nil _

theorem edge_ofContracts {label : String → String} {contracts : List Contract} :
    (ofContracts label contracts).Edge a b ↔
      ∃ c ∈ contracts, label c.sourcePath = a ∧ ∃ path ∈ c.importPaths, label path = b := by
  rw [ofContracts_eq_merge, edge_merge]
  simp

end Edges

/-- Imports lead from a file to another one; none is needed from a file to itself. -/
abbrev Leads (g : ImportGraph) : String → String → Prop := ReflTransGen g.Edge

/-- Two files lead to each other. -/
def Mutual (g : ImportGraph) (a b : String) : Prop := TransGen g.Edge a b ∧ TransGen g.Edge b a

/-- The files of a list, none of them twice, are all those that lead to one of them and back. -/
structure IsComponent (g : ImportGraph) (names : List String) : Prop where
  nodup : names.Nodup
  ne_nil : names ≠ []
  mem_iff : ∀ a ∈ names, ∀ b, b ∈ names ↔ g.Leads a b ∧ g.Leads b a

/-- A component of several files, or of one file that imports itself. -/
def IsCycle (g : ImportGraph) (names : List String) : Prop :=
  g.IsComponent names ∧ (2 ≤ names.length ∨ ∃ a, names = [a] ∧ g.Edge a a)

section Components

variable {g : ImportGraph} {a b : String} {c d : List String}

theorem IsComponent.perm_of_mem (hc : g.IsComponent c) (hd : g.IsComponent d) (hac : a ∈ c)
    (had : a ∈ d) : c.Perm d :=
  (List.perm_ext_iff_of_nodup hc.nodup hd.nodup).mpr fun b =>
    (hc.mem_iff a hac b).trans (hd.mem_iff a had b).symm

theorem IsComponent.perm (hc : g.IsComponent c) (h : c.Perm d) : g.IsComponent d where
  nodup := h.nodup_iff.mp hc.nodup
  ne_nil hd := hc.ne_nil (hd ▸ h).eq_nil
  mem_iff a ha b := h.mem_iff.symm.trans (hc.mem_iff a (h.mem_iff.mpr ha) b)

theorem IsCycle.perm (hc : g.IsCycle c) (h : c.Perm d) : g.IsCycle d := by
  refine ⟨hc.1.perm h, ?_⟩
  rcases hc.2 with hlength | ⟨a, rfl, hedge⟩
  · exact .inl (h.length_eq ▸ hlength)
  · exact .inr ⟨a, (List.singleton_perm.mp h).symm, hedge⟩

theorem transGen_of_leads (h : g.Leads a b) (hne : b ≠ a) : TransGen g.Edge a b :=
  (Relation.reflTransGen_iff_eq_or_transGen.mp h).resolve_left hne

/-- A component is a cycle exactly if an import leads one of its files to itself. -/
theorem IsComponent.isCycle_iff (hc : g.IsComponent c) (ha : a ∈ c) :
    g.IsCycle c ↔ TransGen g.Edge a a := by
  rcases c with _ | ⟨x, _ | ⟨y, c⟩⟩
  · cases ha
  · obtain rfl := List.mem_singleton.mp ha
    constructor
    · rintro ⟨_, hlength | ⟨b, hb, hedge⟩⟩
      · exact absurd hlength (by simp)
      · obtain rfl := List.singleton_inj.mp hb
        exact .single hedge
    · intro h
      -- The first file on the way leads back, so it is the file.
      obtain ⟨b, hedge, hway⟩ := TransGen.head'_iff.mp h
      have hb : b ∈ [a] := (hc.mem_iff a ha b).mpr ⟨.single hedge, hway⟩
      exact ⟨hc, .inr ⟨a, rfl, List.mem_singleton.mp hb ▸ hedge⟩⟩
  · refine iff_of_true ⟨hc, .inl (by simp)⟩ ?_
    have hxy : x ≠ y := (List.nodup_cons.mp hc.nodup).1 ∘ fun h => h ▸ List.mem_cons_self
    obtain ⟨b, hb, hne⟩ : ∃ b ∈ x :: y :: c, b ≠ a := by
      by_cases hx : x = a
      · exact ⟨y, by simp, hx ▸ hxy.symm⟩
      · exact ⟨x, by simp, hx⟩
    obtain ⟨hab, hba⟩ := (hc.mem_iff a ha b).mp hb
    exact (transGen_of_leads hab hne).trans (transGen_of_leads hba hne.symm)

end Components

end SolidityCalls.ImportGraph
