import SolidityCalls.Proofs.Artifact.ImportCycles

/-! Paths as artifacts show them. The root and what is shown give the path back, so a graph of shown
paths has the cycles of the graph of the paths themselves, shown. -/
namespace SolidityCalls

/-- The text of an absolute path, written as paths are written. -/
structure Path.IsAbsoluteText (s : String) : Prop where
  absolute : (parse s).isAbsolute
  render_parse : (parse s).render = s

instance (s : String) : Decidable (Path.IsAbsoluteText s) :=
  decidable_of_iff ((Path.parse s).isAbsolute ∧ (Path.parse s).render = s)
    ⟨fun h => ⟨h.1, h.2⟩, fun h => ⟨h.absolute, h.render_parse⟩⟩

namespace Artifact

open ImportGraph

theorem child_displayed (root : Path) {s : String} (h : (Path.parse s).isAbsolute) :
    root.child (displayed root s) = Path.parse s :=
  Path.IsResolved.child_display ⟨h, Path.parse_isPlain s⟩ root

theorem parse_eq_of_displayed {root : Path} {s t : String} (hs : (Path.parse s).isAbsolute)
    (ht : (Path.parse t).isAbsolute) (h : displayed root s = displayed root t) :
    Path.parse s = Path.parse t := by
  rw [← child_displayed root hs, h, child_displayed root ht]

theorem injOn_displayed (root : Path) : Set.InjOn (displayed root) {s | Path.IsAbsoluteText s} := by
  intro s hs t ht h
  have hparse := parse_eq_of_displayed hs.absolute ht.absolute h
  rw [← hs.render_parse, hparse, ht.render_parse]

/-- All paths that the contract names are absolute texts. -/
def HasAbsolutePaths (c : Contract) : Prop :=
  Path.IsAbsoluteText c.sourcePath ∧ ∀ path ∈ c.importPaths, Path.IsAbsoluteText path

/-- Joined to the root, the shown path is the path, whether it is inside the root, the root itself
or outside. So paths are told apart by how they are shown, and the cycles of shown paths are the
cycles of paths, shown and sorted again. -/
theorem displayed_told_apart (root : Path) :
    (∀ s, (Path.parse s).isAbsolute → root.child (displayed root s) = Path.parse s) ∧
    (∀ s t, (Path.parse s).isAbsolute → (Path.parse t).isAbsolute →
      displayed root s = displayed root t → Path.parse s = Path.parse t) ∧
    ∀ contracts : List Contract, (∀ c ∈ contracts, HasAbsolutePaths c) →
      ∃ cycles, (ofContracts id contracts).findCycles = .ok cycles ∧
        (ofContracts (displayed root) contracts).findCycles =
          .ok ((cycles.map fun c => NameSet.sorted (c.map (displayed root))).mergeSort
            fun c d => ¬ d < c) := by
  refine ⟨fun s => child_displayed root, fun s t => parse_eq_of_displayed, ?_⟩
  intro contracts hcontracts
  refine ⟨_, findCycles_eq _, ?_⟩
  rw [findCycles_eq, cycles_ofContracts (injOn_displayed root) hcontracts]

/-- Two contracts that import each other. One has a path with a component `..` below the root, the
other a path that starts with the letters of the root. -/
def siblingContracts : List Contract :=
  [⟨"A", .contract, "/repo/lib/../A.sol", [], ["/repository/B.sol"], []⟩,
    ⟨"B", .contract, "/repository/B.sol", [], ["/repo/lib/../A.sol", "/repo"], []⟩]

theorem displayed_told_apart_siblings :
    (Path.absolute ["repo"]).child (displayed (Path.absolute ["repo"]) "/repo") =
      Path.parse "/repo" ∧
    displayed (Path.absolute ["repo"]) "/repo" ≠ displayed (Path.absolute ["repo"]) "/repository" ∧
    ∃ cycles, (ofContracts id siblingContracts).findCycles = .ok cycles ∧
      (∃ c ∈ cycles, "/repo/lib/../A.sol" ∈ c ∧ "/repository/B.sol" ∈ c) ∧
      (ofContracts (displayed (Path.absolute ["repo"])) siblingContracts).findCycles =
        .ok ((cycles.map fun c =>
          NameSet.sorted (c.map (displayed (Path.absolute ["repo"])))).mergeSort
            fun c d => ¬ d < c) := by
  obtain ⟨hchild, hinjective, hcycles⟩ := displayed_told_apart (Path.absolute ["repo"])
  refine ⟨hchild _ (by decide), fun h => ?_, ?_⟩
  · exact absurd (hinjective _ _ (by decide) (by decide) h) (by decide)
  · have habsolute : ∀ c ∈ siblingContracts, HasAbsolutePaths c := by
      simp only [siblingContracts, HasAbsolutePaths]
      decide
    obtain ⟨cycles, hpaths, hshown⟩ := hcycles siblingContracts habsolute
    refine ⟨cycles, hpaths, ?_, hshown⟩
    obtain rfl := Except.ok.inj ((findCycles_eq _).symm.trans hpaths)
    rw [exists_mem_cycles_iff]
    constructor
    · exact .single (edge_ofContracts.mpr (by simp [siblingContracts]))
    · exact .single (edge_ofContracts.mpr (by simp [siblingContracts]))

/-- The cycles of a summary are those of the paths in its contracts, shown and sorted again. -/
theorem importCycles_summary_displayed {root : Path} {universes : List Universe}
    (h : ∀ u ∈ universes, ∀ c ∈ u.contracts, HasAbsolutePaths c) :
    (summary root universes).importCycles =
      ((ofContracts id (universes.flatMap (·.contracts))).cycles.map fun c =>
        NameSet.sorted (c.map (displayed root))).mergeSort fun c d => ¬ d < c := by
  have hedge (a b : String) : (importGraph root universes).Edge a b ↔
      (ofContracts (displayed root) (universes.flatMap (·.contracts))).Edge a b := by
    simp only [edge_importGraph, edge_ofContracts, List.mem_flatMap]
    grind
  rw [importCycles_summary, cycles_congr hedge]
  refine cycles_ofContracts (injOn_displayed root) fun c hc => ?_
  obtain ⟨u, hu, hc⟩ := List.mem_flatMap.mp hc
  exact h u hu c hc

end Artifact
end SolidityCalls
