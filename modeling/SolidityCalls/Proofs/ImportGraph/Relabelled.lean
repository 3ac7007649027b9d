import SolidityCalls.Proofs.ImportGraph.Cycles

/-! Graphs that show a relation under labels. As long as labels tell the nodes apart, the graph
leads from label to label as the relation leads from node to node. So a relabelled graph has the
relabelled cycles, though the search goes through it in another order. -/
namespace SolidityCalls.ImportGraph

open Relation (TransGen)
open NameSet

section Shows

variable {α : Type} {graph : ImportGraph} {nodes : Set α} {r : α → α → Prop} {label : α → String}
  {x y : α} {b : String}

/-- The edges of a graph are those of a relation on some nodes, which labels tell apart. -/
structure Shows (graph : ImportGraph) (nodes : Set α) (r : α → α → Prop) (label : α → String) :
    Prop where
  edge_iff : ∀ {a b}, graph.Edge a b ↔ ∃ x ∈ nodes, ∃ y, r x y ∧ label x = a ∧ label y = b
  closed : ∀ {x y}, x ∈ nodes → r x y → y ∈ nodes
  injOn : Set.InjOn label nodes

namespace Shows

/-- The edges of a label are those of its node. -/
theorem edge_label_iff (h : Shows graph nodes r label) (hx : x ∈ nodes) :
    graph.Edge (label x) b ↔ ∃ y, r x y ∧ label y = b := by
  rw [h.edge_iff]
  constructor
  · rintro ⟨x', hx', y, hedge, hlabel, hb⟩
    obtain rfl := h.injOn hx' hx hlabel
    exact ⟨y, hedge, hb⟩
  · rintro ⟨y, hedge, hb⟩
    exact ⟨x, hx, y, hedge, rfl, hb⟩

theorem transGen_iff (h : Shows graph nodes r label) (hx : x ∈ nodes) :
    TransGen graph.Edge (label x) b ↔ ∃ y ∈ nodes, TransGen r x y ∧ label y = b := by
  constructor
  · intro hway
    induction hway with
    | single hedge =>
      obtain ⟨y, hxy, rfl⟩ := (h.edge_label_iff hx).mp hedge
      exact ⟨y, h.closed hx hxy, .single hxy, rfl⟩
    | tail _ hedge ih =>
      obtain ⟨y, hy, hway, rfl⟩ := ih
      obtain ⟨z, hyz, rfl⟩ := (h.edge_label_iff hy).mp hedge
      exact ⟨z, h.closed hy hyz, hway.tail hyz, rfl⟩
  · rintro ⟨y, _, hway, rfl⟩
    induction hway using TransGen.head_induction_on with
    | single hedge => exact .single ((h.edge_label_iff hx).mpr ⟨_, hedge, rfl⟩)
    | head hedge _ ih =>
      exact .head ((h.edge_label_iff hx).mpr ⟨_, hedge, rfl⟩) (ih (h.closed hx hedge))

theorem transGen_label_iff (h : Shows graph nodes r label) (hx : x ∈ nodes) (hy : y ∈ nodes) :
    TransGen graph.Edge (label x) (label y) ↔ TransGen r x y := by
  rw [h.transGen_iff hx]
  constructor
  · rintro ⟨y', hy', hway, hlabel⟩
    exact h.injOn hy' hy hlabel ▸ hway
  · exact fun hway => ⟨y, hy, hway, rfl⟩

theorem mutual_label_iff (h : Shows graph nodes r label) (hx : x ∈ nodes) (hy : y ∈ nodes) :
    graph.Mutual (label x) (label y) ↔ TransGen r x y ∧ TransGen r y x :=
  and_congr (h.transGen_label_iff hx hy) (h.transGen_label_iff hy hx)

/-- What a label leads to, and what leads back, is the label of such a node. -/
theorem mutual_iff (h : Shows graph nodes r label) (hx : x ∈ nodes) :
    graph.Mutual (label x) b ↔ ∃ y ∈ nodes, (TransGen r x y ∧ TransGen r y x) ∧ label y = b := by
  constructor
  · intro hmutual
    obtain ⟨y, hy, _, rfl⟩ := (h.transGen_iff hx).mp hmutual.1
    exact ⟨y, hy, (h.mutual_label_iff hx hy).mp hmutual, rfl⟩
  · rintro ⟨y, hy, hways, rfl⟩
    exact (h.mutual_label_iff hx hy).mpr hways

end Shows

end Shows

/-- A cycle is a group of files each of which leads to those of the group and back, and to no
others. -/
theorem isCycle_iff {g : ImportGraph} {names : List String} : g.IsCycle names ↔
    names.Nodup ∧ names ≠ [] ∧ ∀ a ∈ names, ∀ b, b ∈ names ↔ g.Mutual a b := by
  constructor
  · intro h
    refine ⟨h.1.nodup, h.1.ne_nil, fun a ha b => ?_⟩
    exact mutual_of_mem_isComponent h.1 ha ((h.1.isCycle_iff ha).mp h)
  · rintro ⟨hnodup, hne, hmem⟩
    have hcomponent : g.IsComponent names := by
      refine ⟨hnodup, hne, fun a ha b => ?_⟩
      have haa := ((hmem a ha a).mp ha).1
      rw [hmem a ha b]
      constructor
      · exact fun h => ⟨h.1.to_reflTransGen, h.2.to_reflTransGen⟩
      · exact fun h => ⟨haa.trans_left h.1, .trans_right h.2 haa⟩
    obtain ⟨a, ha⟩ := List.exists_mem_of_ne_nil _ hne
    exact (hcomponent.isCycle_iff ha).mpr ((hmem a ha a).mp ha).1

section Relabelled

variable {g h : ImportGraph} {nodes : Set String} {label : String → String} {c : List String}

/-- The files of a cycle import something. -/
theorem IsCycle.subset (hc : g.IsCycle c) (hsource : ∀ {a b}, g.Edge a b → a ∈ nodes) :
    ∀ a ∈ c, a ∈ nodes := by
  intro a ha
  obtain ⟨_, hedge, _⟩ := TransGen.head'_iff.mp ((hc.1.isCycle_iff ha).mp hc)
  exact hsource hedge

/-- The labels of a cycle are a cycle. -/
theorem Shows.isCycle_map (hshows : Shows h nodes g.Edge label)
    (hsource : ∀ {a b}, g.Edge a b → a ∈ nodes) (hc : g.IsCycle c) : h.IsCycle (c.map label) := by
  have hnodes := hc.subset hsource
  obtain ⟨hnodup, hne, hmem⟩ := isCycle_iff.mp hc
  refine isCycle_iff.mpr ⟨?_, by simpa using hne, ?_⟩
  · exact hnodup.map_on fun a ha b hb hab => hshows.injOn (hnodes a ha) (hnodes b hb) hab
  · refine List.forall_mem_map.mpr fun a ha b => ?_
    rw [hshows.mutual_iff (hnodes a ha), List.mem_map]
    constructor
    · rintro ⟨x, hx, rfl⟩
      exact ⟨x, hnodes x hx, (hmem a ha x).mp hx, rfl⟩
    · rintro ⟨x, _, hways, rfl⟩
      exact ⟨x, (hmem a ha x).mpr hways, rfl⟩

/-- Cycles with the same labels are the same. -/
theorem Shows.eq_of_sorted_map (hshows : Shows h nodes g.Edge label)
    (hsource : ∀ {a b}, g.Edge a b → a ∈ nodes) {d : List String} (hc : c ∈ g.cycles)
    (hd : d ∈ g.cycles) (heq : sorted (c.map label) = sorted (d.map label)) : c = d := by
  obtain ⟨hclt, hc⟩ := mem_cycles.mp hc
  obtain ⟨hdlt, hd⟩ := mem_cycles.mp hd
  have hperm : (c.map label).Perm (d.map label) :=
    (perm_sorted _).symm.trans (heq ▸ perm_sorted _)
  have hsub {c d : List String} (hc : g.IsCycle c) (hd : g.IsCycle d)
      (hperm : (c.map label).Perm (d.map label)) {a : String} (ha : a ∈ c) : a ∈ d := by
    obtain ⟨b, hb, hab⟩ := List.mem_map.mp (hperm.subset (List.mem_map_of_mem ha))
    exact hshows.injOn (hd.subset hsource b hb) (hc.subset hsource a ha) hab ▸ hb
  exact eq_of_pairwise_lt hclt hdlt fun a => ⟨hsub hc hd hperm, hsub hd hc hperm.symm⟩

/-- The cycles of the relabelled graph are the relabelled cycles. -/
theorem Shows.cycles_eq (hshows : Shows h nodes g.Edge label)
    (hsource : ∀ {a b}, g.Edge a b → a ∈ nodes) :
    h.cycles = (g.cycles.map fun c => sorted (c.map label)).mergeSort fun c d => ¬ d < c := by
  have hnodup : (g.cycles.map fun c => sorted (c.map label)).Nodup := by
    have hcycles := nodup_of_pairwise_lt (pairwise_lt_cycles g)
    exact hcycles.map_on fun c hc d hd heq => hshows.eq_of_sorted_map hsource hc hd heq
  apply eq_of_pairwise_lt (pairwise_lt_cycles h)
    (pairwise_lt_mergeSort (fun _ _ => decide_eq_true_iff) hnodup)
  intro names
  rw [List.mem_mergeSort, List.mem_map, mem_cycles]
  constructor
  · rintro ⟨hlt, hcycle⟩
    -- The group has the label of some node, which is on a cycle that has all labels of the group.
    obtain ⟨a, ha⟩ := List.exists_mem_of_ne_nil _ hcycle.1.ne_nil
    have haa := (hcycle.1.isCycle_iff ha).mp hcycle
    obtain ⟨_, hedge, _⟩ := TransGen.head'_iff.mp haa
    obtain ⟨x, hx, _, _, rfl, _⟩ := hshows.edge_iff.mp hedge
    obtain ⟨c, hc, hxc⟩ := exists_mem_cycles_of_transGen ((hshows.transGen_label_iff hx hx).mp haa)
    have hmap := hshows.isCycle_map hsource (mem_cycles.mp hc).2
    have hperm := hmap.1.perm_of_mem hcycle.1 (List.mem_map_of_mem hxc) ha
    refine ⟨c, hc, eq_of_pairwise_lt (pairwise_lt_sorted hmap.1.nodup) hlt fun b => ?_⟩
    exact ((perm_sorted _).trans hperm).mem_iff
  · rintro ⟨c, hc, rfl⟩
    have hmap := hshows.isCycle_map hsource (mem_cycles.mp hc).2
    exact ⟨pairwise_lt_sorted hmap.1.nodup, hmap.perm (perm_sorted _).symm⟩

/-- Labels that tell the files of contracts apart give a graph that shows the imports. -/
theorem shows_ofContracts {contracts : List Contract} (hinj : Set.InjOn label nodes)
    (hnodes : ∀ c ∈ contracts, c.sourcePath ∈ nodes ∧ ∀ path ∈ c.importPaths, path ∈ nodes) :
    Shows (ofContracts label contracts) nodes (ofContracts id contracts).Edge label where
  edge_iff {a b} := by
    simp only [edge_ofContracts, id]
    constructor
    · rintro ⟨c, hc, rfl, path, hpath, rfl⟩
      exact ⟨c.sourcePath, (hnodes c hc).1, path, ⟨c, hc, rfl, path, hpath, rfl⟩, rfl, rfl⟩
    · rintro ⟨_, _, _, ⟨c, hc, rfl, path, hpath, rfl⟩, rfl, rfl⟩
      exact ⟨c, hc, rfl, path, hpath, rfl⟩
  closed _ hedge := by
    obtain ⟨c, hc, _, path, hpath, rfl⟩ := edge_ofContracts.mp hedge
    exact (hnodes c hc).2 path hpath
  injOn := hinj

theorem cycles_ofContracts {contracts : List Contract} (hinj : Set.InjOn label nodes)
    (hnodes : ∀ c ∈ contracts, c.sourcePath ∈ nodes ∧ ∀ path ∈ c.importPaths, path ∈ nodes) :
    (ofContracts label contracts).cycles =
      ((ofContracts id contracts).cycles.map fun c => sorted (c.map label)).mergeSort
        fun c d => ¬ d < c := by
  refine (shows_ofContracts hinj hnodes).cycles_eq fun {a b} hedge => ?_
  obtain ⟨c, hc, rfl, _⟩ := edge_ofContracts.mp hedge
  exact (hnodes c hc).1

end Relabelled

end SolidityCalls.ImportGraph
