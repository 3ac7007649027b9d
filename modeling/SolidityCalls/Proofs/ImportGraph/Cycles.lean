import SolidityCalls.Proofs.Data.Sorted
import SolidityCalls.Proofs.ImportGraph.Search
import Mathlib

/-! The cycles of a graph: its components of files that lead to themselves, each of them sorted and
given once. They depend on the imports alone, not on the order in which these are kept. -/
namespace SolidityCalls.ImportGraph

open Relation (TransGen)
open Search NameSet

section Cycles

variable {g h : ImportGraph} {a b : String} {names : List String}

/-- The search ends with the components that are cycles. -/
theorem exists_findCycles (g : ImportGraph) : ∃ groups : List (List String),
    g.findCycles = .ok ((groups.map NameSet.sorted).mergeSort fun c d => ¬ d < c) ∧
      (∀ c ∈ groups, g.IsCycle c) ∧ groups.flatten.Nodup ∧
      ∀ a, TransGen g.Edge a a → ∃ c ∈ groups, a ∈ c := by
  obtain ⟨s, hs, hsound, hkeys⟩ := exists_search g
  refine ⟨s.cycles, ?_, fun c hc => (hsound.cycles_sound c hc).1, hsound.cycles_nodup, ?_⟩
  · rw [findCycles, hs]
    rfl
  · intro a ha
    exact hsound.cycles_complete a
      (hsound.settled_of_entered (hkeys a (mem_keys_of_transGen ha))) ha

theorem findCycles_eq (g : ImportGraph) : g.findCycles = .ok g.cycles := by
  obtain ⟨groups, hgroups, _⟩ := exists_findCycles g
  rw [cycles, hgroups]
  rfl

/-- The cycles are the components of files that lead to themselves, in strict order. -/
theorem mem_cycles : names ∈ g.cycles ↔ names.Pairwise (· < ·) ∧ g.IsCycle names := by
  obtain ⟨groups, hgroups, hsound, _, hcomplete⟩ := exists_findCycles g
  have hcycles := Except.ok.inj ((findCycles_eq g).symm.trans hgroups)
  rw [hcycles, List.mem_mergeSort, List.mem_map]
  constructor
  · rintro ⟨c, hc, rfl⟩
    have hcycle := hsound c hc
    exact ⟨pairwise_lt_sorted hcycle.1.nodup, hcycle.perm (perm_sorted c).symm⟩
  · rintro ⟨hlt, hcycle⟩
    obtain ⟨a, ha⟩ := List.exists_mem_of_ne_nil _ hcycle.1.ne_nil
    obtain ⟨c, hc, hac⟩ := hcomplete a ((hcycle.1.isCycle_iff ha).mp hcycle)
    refine ⟨c, hc, eq_of_pairwise_lt (pairwise_lt_sorted (hsound c hc).1.nodup) hlt fun x => ?_⟩
    have hperm := (hsound c hc).1.perm_of_mem hcycle.1 hac ha
    exact ((perm_sorted c).trans hperm).mem_iff

theorem exists_mem_cycles_of_transGen (ha : TransGen g.Edge a a) :
    ∃ cycle ∈ g.cycles, a ∈ cycle := by
  obtain ⟨groups, hgroups, _, _, hcomplete⟩ := exists_findCycles g
  obtain ⟨c, hc, hac⟩ := hcomplete a ha
  rw [Except.ok.inj ((findCycles_eq g).symm.trans hgroups)]
  exact ⟨_, List.mem_mergeSort.mpr (List.mem_map_of_mem hc), (perm_sorted c).mem_iff.mpr hac⟩

theorem perm_flatten_map_sorted (groups : List (List String)) :
    (groups.map NameSet.sorted).flatten.Perm groups.flatten := by
  induction groups with
  | nil => exact .refl _
  | cons c groups ih => exact (perm_sorted c).append ih

/-- No file is in two cycles. -/
theorem nodup_flatten_cycles (g : ImportGraph) : g.cycles.flatten.Nodup := by
  obtain ⟨groups, hgroups, _, hnodup, _⟩ := exists_findCycles g
  rw [Except.ok.inj ((findCycles_eq g).symm.trans hgroups)]
  have hperm := (List.mergeSort_perm (groups.map NameSet.sorted) fun c d => ¬ d < c).flatten
  exact (hperm.trans (perm_flatten_map_sorted groups)).nodup_iff.mpr hnodup

theorem pairwise_lt_cycles (g : ImportGraph) : g.cycles.Pairwise (· < ·) := by
  have hnodup : g.cycles.Nodup := by
    refine (List.nodup_flatten.mp (nodup_flatten_cycles g)).2.imp_of_mem ?_
    rintro c _ hc _ hdisjoint rfl
    obtain ⟨a, ha⟩ := List.exists_mem_of_ne_nil _ (mem_cycles.mp hc).2.1.ne_nil
    exact hdisjoint ha ha
  obtain ⟨groups, hgroups, _⟩ := exists_findCycles g
  rw [Except.ok.inj ((findCycles_eq g).symm.trans hgroups)] at hnodup ⊢
  refine pairwise_lt_mergeSort (fun _ _ => decide_eq_true_iff) ?_
  exact (List.mergeSort_perm _ _).nodup_iff.mp hnodup

/-- Graphs with the same imports have the same cycles. -/
theorem cycles_congr (hedge : ∀ a b, g.Edge a b ↔ h.Edge a b) : g.cycles = h.cycles := by
  have hsame : g.Edge = h.Edge := by
    funext a b
    exact propext (hedge a b)
  have hcomponent (names : List String) : g.IsComponent names ↔ h.IsComponent names := by
    have hleads : g.Leads = h.Leads := by rw [Leads, Leads, hsame]
    constructor <;> intro hc <;> exact ⟨hc.nodup, hc.ne_nil, by simpa [hleads] using hc.mem_iff⟩
  refine eq_of_pairwise_lt (pairwise_lt_cycles g) (pairwise_lt_cycles h) fun names => ?_
  rw [mem_cycles, mem_cycles, IsCycle, IsCycle, hcomponent, hsame]

theorem mutual_of_mem_isComponent (hc : g.IsComponent names) (ha : a ∈ names)
    (haa : TransGen g.Edge a a) : b ∈ names ↔ g.Mutual a b := by
  rw [hc.mem_iff a ha b]
  constructor
  · rintro ⟨hab, hba⟩
    exact ⟨haa.trans_left hab, .trans_right hba haa⟩
  · rintro ⟨hab, hba⟩
    exact ⟨hab.to_reflTransGen, hba.to_reflTransGen⟩

/-- Two files are in one cycle exactly if they lead to each other. -/
theorem exists_mem_cycles_iff : (∃ cycle ∈ g.cycles, a ∈ cycle ∧ b ∈ cycle) ↔ g.Mutual a b := by
  constructor
  · rintro ⟨cycle, hcycle, ha, hb⟩
    obtain ⟨_, hcycle⟩ := mem_cycles.mp hcycle
    exact (mutual_of_mem_isComponent hcycle.1 ha ((hcycle.1.isCycle_iff ha).mp hcycle)).mp hb
  · intro h
    obtain ⟨cycle, hcycle, ha⟩ := exists_mem_cycles_of_transGen (h.1.trans h.2)
    have hcomponent := (mem_cycles.mp hcycle).2.1
    exact ⟨cycle, hcycle, ha, (mutual_of_mem_isComponent hcomponent ha (h.1.trans h.2)).mpr h⟩

/-- A file makes a cycle of its own exactly if it imports itself and no other file leads to it and
back. -/
theorem singleton_mem_cycles_iff : [a] ∈ g.cycles ↔ g.Edge a a ∧ ∀ b, g.Mutual a b → b = a := by
  constructor
  · intro h
    obtain ⟨_, hcomponent, hlength | ⟨n, hn, hedge⟩⟩ := mem_cycles.mp h
    · exact absurd hlength (by simp)
    · obtain rfl := List.singleton_inj.mp hn
      refine ⟨hedge, fun b hb => List.mem_singleton.mp ?_⟩
      have hself := List.mem_singleton_self a
      exact (mutual_of_mem_isComponent hcomponent hself (.single hedge)).mpr hb
  · rintro ⟨hedge, hunique⟩
    obtain ⟨cycle, hcycle, ha⟩ := exists_mem_cycles_of_transGen (.single hedge)
    have hcomponent := (mem_cycles.mp hcycle).2.1
    have hself : g.Mutual a a := ⟨.single hedge, .single hedge⟩
    have honly (b : String) : b ∈ cycle ↔ b ∈ [a] := by
      rw [mutual_of_mem_isComponent hcomponent ha (.single hedge), List.mem_singleton]
      exact ⟨hunique b, fun h => h ▸ hself⟩
    have hperm := (List.perm_ext_iff_of_nodup hcomponent.nodup (List.nodup_singleton a)).mpr honly
    exact List.perm_singleton.mp hperm ▸ hcycle

/-- The search ends for every graph. It gives the sorted list of the sorted components that have
two files or are a file that imports itself. A file is in one of them at most, and the order in
which the graph keeps its files and their imports does not matter. -/
theorem findCycles_eq_sorted_components (g : ImportGraph) : ∃ cycles,
    g.findCycles = .ok cycles ∧ cycles.Pairwise (· < ·) ∧
      (∀ names, names ∈ cycles ↔ names.Pairwise (· < ·) ∧ g.IsComponent names ∧
        (2 ≤ names.length ∨ ∃ a, names = [a] ∧ g.Edge a a)) ∧
      cycles.flatten.Nodup ∧
      ∀ h : ImportGraph, (∀ a b, h.Edge a b ↔ g.Edge a b) → h.findCycles = .ok cycles := by
  refine ⟨g.cycles, findCycles_eq g, pairwise_lt_cycles g, fun _ => mem_cycles,
    nodup_flatten_cycles g, fun h hedge => ?_⟩
  rw [findCycles_eq h, cycles_congr hedge]

/-- Two files that import each other, one of them a third file too. -/
def importPair : ImportGraph := [("a.sol", ["b.sol", "c.sol"]), ("b.sol", ["a.sol"])]

theorem findCycles_importPair : ∃ cycles,
    findCycles importPair = .ok cycles ∧
      findCycles [("b.sol", ["a.sol"]), ("a.sol", ["c.sol", "b.sol"])] = .ok cycles ∧
      cycles = [["a.sol", "b.sol"]] := by
  obtain ⟨cycles, hcycles, _, _, _, hsame⟩ := findCycles_eq_sorted_components importPair
  refine ⟨cycles, hcycles, hsame _ fun a b => ?_, ?_⟩
  · rw [edge_iff_of_nodup (by decide), edge_iff_of_nodup (by decide)]
    simp [importPair, or_comm]
  · have hvalue : findCycles importPair = .ok [["a.sol", "b.sol"]] := by cbv
    exact Except.ok.inj (hcycles.symm.trans hvalue)

end Cycles

end SolidityCalls.ImportGraph
