import SolidityCalls.Proofs.Artifact.Target
import SolidityCalls.Proofs.ImportGraph.Relabelled
import SolidityCalls.Proofs.Link.SharedRegistry

/-! The import cycles of a summary. The graph is made of contracts, so it has the imports of those
files that declare one; among these files its cycles are the cycles of imports. -/
namespace SolidityCalls

open Relation (TransGen)

namespace Sources

def DeclaresContract (s : Sources) (file : Path) : Prop :=
  ∃ source, s.load file = .ok source ∧ source.tree.contractDeclarations ≠ []

/-- An import in a file that declares a contract. -/
def RecordsImport (s : Sources) (file target : Path) : Prop :=
  s.DeclaresContract file ∧ s.Imports file target

/-- A file that some entry leads to. -/
def IsLinked (s : Sources) (entries : List Path) (file : Path) : Prop :=
  ∃ entry ∈ entries, ∃ entryFile, s.host.resolve entry = .ok entryFile ∧ s.Reaches entryFile file

theorem IsLinked.imports {s : Sources} {entries : List Path} {f g : Path}
    (hf : s.IsLinked entries f) (h : s.Imports f g) : s.IsLinked entries g := by
  obtain ⟨entry, hentry, entryFile, hfile, hreach⟩ := hf
  exact ⟨entry, hentry, entryFile, hfile, hreach.tail h⟩

theorem IsLinked.transGen {s : Sources} {entries : List Path} {f g : Path}
    (hf : s.IsLinked entries f) (h : TransGen s.RecordsImport f g) : s.IsLinked entries g := by
  induction h with
  | single himport => exact hf.imports himport.2
  | tail _ himport ih => exact ih.imports himport.2

end Sources

open Sources

/-- The contracts of a walk record exactly the imports of the files with contracts. -/
theorem Extract.exists_mem_ofWalk_iff {s : Sources} {entry : Path} {w : Walk}
    (h : s.Covers entry w) {known : KnownNames} {file target : String} :
    (∃ c ∈ ofWalk known w, c.sourcePath = file ∧ target ∈ c.importPaths) ↔
      ∃ f g, s.Reaches entry f ∧ s.RecordsImport f g ∧ f.render = file ∧ g.render = target := by
  constructor
  · rintro ⟨c, hc, rfl, htarget⟩
    obtain ⟨d, hd, hmem⟩ := List.mem_flatMap.mp hc
    obtain ⟨hreach, hload, himports⟩ := h.mem_closed.mp hd
    obtain ⟨declaration, hdeclaration, rfl⟩ := List.mem_map.mp hmem
    obtain ⟨g, hg, rfl⟩ := List.mem_map.mp htarget
    exact ⟨d.1.path, g, hreach,
      ⟨⟨d.1, hload, List.ne_nil_of_mem hdeclaration⟩, d.1, d.2, hload, himports, hg⟩, rfl, rfl⟩
  · rintro ⟨f, g, hreach, ⟨⟨source, hload, hne⟩, source', imports, hload', himports, hg⟩, rfl, rfl⟩
    obtain rfl := Except.ok.inj (hload.symm.trans hload')
    obtain rfl := path_of_load hload
    have hd : (source, imports) ∈ w.closed := h.mem_closed.mpr ⟨hreach, hload, himports⟩
    obtain ⟨declaration, hdeclaration⟩ := List.exists_mem_of_ne_nil _ hne
    exact ⟨_, List.mem_flatMap.mpr ⟨_, hd, List.mem_map_of_mem hdeclaration⟩, rfl,
      List.mem_map_of_mem hg⟩

namespace Universe

/-- The contracts of an entry are those of a walk over the files it leads to. -/
theorem exists_covers_of_ofEntry {s : Sources} {entry : Path} {u : Universe}
    (h : ofEntry s entry = .ok u) (hfile : u.entryFile.IsResolved)
    (hdeps : s.dependencies.IsResolved) :
    ∃ known w, s.Covers u.entryFile w ∧ u.contracts = Extract.ofWalk known w := by
  obtain ⟨_, _, w, known, _, hw, hcontracts⟩ := exists_walks_of_ofEntry h
  exact ⟨known, w, walk_covers Extract.order_isCovering hfile hdeps hw, hcontracts⟩

theorem exists_mem_ofEntry_iff {s : Sources} {entry : Path} {u : Universe}
    (h : ofEntry s entry = .ok u) (hfile : u.entryFile.IsResolved)
    (hdeps : s.dependencies.IsResolved) {file target : String} :
    (∃ c ∈ u.contracts, c.sourcePath = file ∧ target ∈ c.importPaths) ↔
      ∃ f g, s.Reaches u.entryFile f ∧ s.RecordsImport f g ∧ f.render = file ∧
        g.render = target := by
  obtain ⟨_, w, hcovers, hcontracts⟩ := exists_covers_of_ofEntry h hfile hdeps
  rw [hcontracts]
  exact Extract.exists_mem_ofWalk_iff hcovers

/-- Resolution leaves the imports of contracts as they are. -/
theorem exists_mem_resolve_iff (u : Universe) (registry : Registry) {file target : String} :
    (∃ c ∈ (u.resolve registry).contracts, c.sourcePath = file ∧ target ∈ c.importPaths) ↔
      ∃ c ∈ u.contracts, c.sourcePath = file ∧ target ∈ c.importPaths := by
  simp [resolve, Resolution.resolveAll]

end Universe

namespace Artifact

open ImportGraph

/-- The graph that the cycles of a summary are found in. -/
def importGraph (root : Path) (universes : List Universe) : ImportGraph :=
  universes.foldl (fun g u => g.merge (ofContracts (displayed root) u.contracts)) []

theorem importCycles_summary (root : Path) (universes : List Universe) :
    (summary root universes).importCycles = (importGraph root universes).cycles := by
  have hgraph (s : Summary × ImportGraph) : (universes.foldl (Summary.add root) s).2 =
      universes.foldl (fun g u => g.merge (ofContracts (displayed root) u.contracts)) s.2 := by
    induction universes generalizing s with
    | nil => rfl
    | cons u universes ih => exact ih (Summary.add root s u)
  exact congrArg cycles (hgraph _)

theorem edge_importGraph {root : Path} {universes : List Universe} {a b : String} :
    (importGraph root universes).Edge a b ↔ ∃ u ∈ universes, ∃ c ∈ u.contracts,
      displayed root c.sourcePath = a ∧ ∃ path ∈ c.importPaths, displayed root path = b := by
  rw [importGraph, edge_foldl_merge fun _ _ => nodup_keys_ofContracts _ _]
  simp only [not_edge_nil, false_or, edge_ofContracts]

theorem displayed_render {f : Path} (hf : f.IsResolved) (root : Path) :
    displayed root f.render = f.display root := by
  rw [displayed, Path.parse_render hf.plain]

section Shown

variable {s : Sources} {entries : List Path} {root : Path}

/-- The edges of a graph are the imports of files with contracts, each file shown. -/
def ShowsImports (s : Sources) (entries : List Path) (root : Path) (graph : ImportGraph) : Prop :=
  ∀ a b, graph.Edge a b ↔
    ∃ f g, s.IsLinked entries f ∧ s.RecordsImport f g ∧ f.display root = a ∧ g.display root = b

theorem showsImports_importGraph {us : List Universe}
    (hall : List.Forall₂ (fun entry u => Universe.ofEntry s entry = .ok u) entries us)
    (hresolved : ∀ f, s.IsLinked entries f → f.IsResolved) (hdeps : s.dependencies.IsResolved)
    (registry : Registry) :
    ShowsImports s entries root (importGraph root (us.map (Universe.resolve registry))) := by
  have hlinked {entry : Path} {u : Universe} (hentry : entry ∈ entries)
      (hone : Universe.ofEntry s entry = .ok u) {f : Path} (hreach : s.Reaches u.entryFile f) :
      s.IsLinked entries f :=
    ⟨entry, hentry, u.entryFile, Universe.entryFile_of_ofEntry hone, hreach⟩
  intro a b
  rw [edge_importGraph]
  constructor
  · rintro ⟨u, hu, c, hc, rfl, path, hpath, rfl⟩
    obtain ⟨u, hmem, rfl⟩ := List.mem_map.mp hu
    obtain ⟨entry, hentry, hone⟩ := Universe.exists_of_forall₂_right hall hmem
    obtain ⟨f, g, hreach, himport, hsource, rfl⟩ :=
      (Universe.exists_mem_ofEntry_iff hone (hresolved _ (hlinked hentry hone .refl)) hdeps).mp
        ((u.exists_mem_resolve_iff registry).mp ⟨c, hc, rfl, hpath⟩)
    have hf := hlinked hentry hone hreach
    refine ⟨f, g, hf, himport, ?_, ?_⟩
    · rw [← hsource, displayed_render (hresolved f hf)]
    · rw [displayed_render (hresolved g (hf.imports himport.2))]
  · rintro ⟨f, g, ⟨entry, hentry, entryFile, hfile, hreach⟩, himport, rfl, rfl⟩
    have hflip : List.Forall₂ (fun u entry => Universe.ofEntry s entry = .ok u) us entries :=
      hall.flip
    obtain ⟨u, hu, hone⟩ := Universe.exists_of_forall₂_right hflip hentry
    obtain rfl := Except.ok.inj (hfile.symm.trans (Universe.entryFile_of_ofEntry hone))
    have hf := hlinked hentry hone hreach
    obtain ⟨c, hc, hsource, htarget⟩ := (u.exists_mem_resolve_iff registry).mpr
      ((Universe.exists_mem_ofEntry_iff hone (hresolved _ (hlinked hentry hone .refl)) hdeps).mpr
        ⟨f, g, hreach, himport, rfl, rfl⟩)
    refine ⟨_, List.mem_map_of_mem hu, c, hc, ?_, g.render, htarget, ?_⟩
    · rw [hsource, displayed_render (hresolved f hf)]
    · rw [displayed_render (hresolved g (hf.imports himport.2))]

variable {graph : ImportGraph} {f g : Path}

namespace ShowsImports

/-- Files are told apart by how they are shown. -/
theorem shows (h : ShowsImports s entries root graph)
    (hresolved : ∀ f, s.IsLinked entries f → f.IsResolved) :
    graph.Shows {f | s.IsLinked entries f} s.RecordsImport (·.display root) where
  edge_iff {a b} := by
    rw [h a b]
    constructor
    · rintro ⟨f, g, hf, himport, hshown⟩
      exact ⟨f, hf, g, himport, hshown⟩
    · rintro ⟨f, hf, g, himport, hshown⟩
      exact ⟨f, g, hf, himport, hshown⟩
  closed hf himport := hf.imports himport.2
  injOn f hf g hg hshown := (hresolved f hf).display_injective (hresolved g hg) hshown

/-- Only files with contracts are on cycles. -/
theorem exists_of_mem_cycle (h : ShowsImports s entries root graph) {cycle : List String}
    (hcycle : cycle ∈ graph.cycles) {name : String} (hname : name ∈ cycle) :
    ∃ f, s.IsLinked entries f ∧ s.DeclaresContract f ∧ f.display root = name := by
  have hmutual : graph.Mutual name name := exists_mem_cycles_iff.mp ⟨cycle, hcycle, hname, hname⟩
  obtain ⟨_, hedge, _⟩ := TransGen.head'_iff.mp hmutual.1
  obtain ⟨f, _, hf, himport, hshown, _⟩ := (h _ _).mp hedge
  exact ⟨f, hf, himport.1, hshown⟩

/-- A file shown alone imports itself and no other file leads to it and back. -/
theorem singleton_mem_cycles_iff (h : ShowsImports s entries root graph)
    (hresolved : ∀ f, s.IsLinked entries f → f.IsResolved)
    (hf : s.IsLinked entries f) :
    [f.display root] ∈ graph.cycles ↔ s.RecordsImport f f ∧
      ∀ g, TransGen s.RecordsImport f g → TransGen s.RecordsImport g f → g = f := by
  have hshows := h.shows hresolved
  rw [ImportGraph.singleton_mem_cycles_iff, hshows.edge_label_iff hf]
  constructor
  · rintro ⟨⟨g, himport, hshown⟩, hunique⟩
    refine ⟨hshows.injOn (hf.imports himport.2) hf hshown ▸ himport, fun g hfg hgf => ?_⟩
    have hg := hf.transGen hfg
    exact hshows.injOn hg hf (hunique _ ((hshows.mutual_label_iff hf hg).mpr ⟨hfg, hgf⟩))
  · rintro ⟨himport, hunique⟩
    refine ⟨⟨f, himport, rfl⟩, fun b hmutual => ?_⟩
    obtain ⟨g, _, ⟨hfg, hgf⟩, rfl⟩ := (hshows.mutual_iff hf).mp hmutual
    rw [hunique g hfg hgf]

end ShowsImports

end Shown

theorem exists_showsImports_of_build {host : Host} {dependencies : Path} {tolerant : Bool}
    {entries : List Path} {universes : List Universe}
    (h : (Universe.build host dependencies tolerant entries).result = .ok universes)
    (hentries : ∀ entry ∈ entries, entry.IsPlain) (hdeps : dependencies.IsPlain)
    (hdirectory : ∀ c ∈ host.workingDirectory, IsComponent c) (root : Path) :
    ∃ dependencyRoot, host.resolve dependencies = .ok dependencyRoot ∧
      (∀ f, IsLinked ⟨host, dependencyRoot, tolerant⟩ entries f → f.IsResolved) ∧
      ShowsImports ⟨host, dependencyRoot, tolerant⟩ entries root (importGraph root universes) := by
  obtain ⟨dependencyRoot, registry, us, hroot, rfl, hall⟩ := Universe.forall₂_of_build h
  have hdeps' : dependencyRoot.IsResolved := host.resolve_isResolved hdeps (.inr hdirectory) hroot
  have hresolved : ∀ f, IsLinked ⟨host, dependencyRoot, tolerant⟩ entries f → f.IsResolved := by
    rintro f ⟨entry, hentry, entryFile, hfile, hreach⟩
    exact hreach.isResolved hdeps'
      (host.resolve_isResolved (hentries entry hentry) (.inr hdirectory) hfile)
  exact ⟨dependencyRoot, hroot, hresolved, showsImports_importGraph hall hresolved hdeps' registry⟩

/-- The cycles in the summary of a run are those of the imports in files that declare contracts,
among the files that the entries lead to. Two of these files are in one cycle exactly if each leads
to the other along such imports. A file is alone in a cycle exactly if it declares a contract,
imports itself and is in no larger cycle. -/
theorem importCycles_of_build {host : Host} {dependencies root : Path} {tolerant : Bool}
    {entries : List Path} {universes : List Universe}
    (h : (Universe.build host dependencies tolerant entries).result = .ok universes)
    (hentries : ∀ entry ∈ entries, entry.IsPlain) (hdeps : dependencies.IsPlain)
    (hdirectory : ∀ c ∈ host.workingDirectory, IsComponent c) :
    ∃ dependencyRoot, host.resolve dependencies = .ok dependencyRoot ∧
      let s : Sources := ⟨host, dependencyRoot, tolerant⟩
      let cycles := (summary root universes).importCycles
      (∀ f g, s.IsLinked entries f → s.IsLinked entries g →
        ((∃ cycle ∈ cycles, f.display root ∈ cycle ∧ g.display root ∈ cycle) ↔
          TransGen s.RecordsImport f g ∧ TransGen s.RecordsImport g f)) ∧
      (∀ f, s.IsLinked entries f → ([f.display root] ∈ cycles ↔
        s.RecordsImport f f ∧
          ∀ g, TransGen s.RecordsImport f g → TransGen s.RecordsImport g f → g = f)) ∧
      ∀ cycle ∈ cycles, ∀ name ∈ cycle,
        ∃ f, s.IsLinked entries f ∧ s.DeclaresContract f ∧ f.display root = name := by
  obtain ⟨dependencyRoot, hroot, hresolved, hgraph⟩ :=
    exists_showsImports_of_build h hentries hdeps hdirectory root
  refine ⟨dependencyRoot, hroot, ?_⟩
  simp only [importCycles_summary]
  refine ⟨fun f g hf hg => ?_, fun f hf => ?_, ?_⟩
  · rw [exists_mem_cycles_iff, (hgraph.shows hresolved).mutual_label_iff hf hg]
  · exact hgraph.singleton_mem_cycles_iff hresolved hf
  · exact fun cycle hcycle name => hgraph.exists_of_mem_cycle hcycle

/-- A sample file that imports another file. -/
def importingTree (target : String) (declarations : List Node) : Node :=
  sampleNode "source_file" none "" (sampleNode "import_directive" none ""
    [sampleNode "string" (some .source) ("./" ++ target) []] :: declarations)

def emptyContract (name : String) : Node :=
  sampleNode "contract_declaration" none "" [sampleNode "identifier" (some .name) name [],
    sampleNode "contract_body" (some .body) "" []]

/-- Two pairs of files that import each other, with their declarations. One file of the first pair
declares no contract. -/
def importPairs : List (String × String × List Node) :=
  [("a.sol", "b.sol", [emptyContract "A"]), ("b.sol", "a.sol", []),
    ("c.sol", "d.sol", [emptyContract "C"]), ("d.sol", "c.sol", [emptyContract "D"])]

def pairSources : Sources where
  host :=
    { files :=
        { entries := importPairs.map fun (name, target, declarations) =>
            ([name], .file ⟨[], importingTree target declarations⟩)
          distinct := by decide }
      workingDirectory := []
      home := Path.absolute []
      accounts := [] }
  dependencies := Path.absolute ["lib"]
  tolerant := false

theorem load_pairSources {name target : String} {declarations : List Node}
    (h : (name, target, declarations) ∈ importPairs) :
    let source : Source := ⟨Path.absolute [name], importingTree target declarations, none⟩
    pairSources.load (Path.absolute [name]) = .ok source ∧
      pairSources.imports source = .ok [Path.absolute [target]] ∧
      (source.tree.contractDeclarations = [] ↔ declarations = []) := by
  simp only [importPairs, List.mem_cons, List.not_mem_nil, or_false, Prod.mk.injEq] at h
  rcases h with ⟨rfl, rfl, rfl⟩ | ⟨rfl, rfl, rfl⟩ | ⟨rfl, rfl, rfl⟩ | ⟨rfl, rfl, rfl⟩
  · exact ⟨by cbv, by cbv, by decide⟩
  · exact ⟨by cbv, by cbv, by decide⟩
  · exact ⟨by cbv, by cbv, by decide⟩
  · exact ⟨by cbv, by cbv, by decide⟩

theorem imports_pairSources {name target : String} {declarations : List Node}
    (h : (name, target, declarations) ∈ importPairs) :
    pairSources.Imports (Path.absolute [name]) (Path.absolute [target]) := by
  obtain ⟨hload, himports, _⟩ := load_pairSources h
  exact ⟨_, _, hload, himports, List.mem_singleton_self _⟩

theorem declaresContract_pairSources {name target : String} {declarations : List Node}
    (h : (name, target, declarations) ∈ importPairs) :
    pairSources.DeclaresContract (Path.absolute [name]) ↔ declarations ≠ [] := by
  obtain ⟨hload, _, hdeclarations⟩ := load_pairSources h
  rw [Ne, ← hdeclarations]
  constructor
  · rintro ⟨source, hload', hne⟩
    exact Except.ok.inj (hload.symm.trans hload') ▸ hne
  · exact fun hne => ⟨_, hload, hne⟩

def pairEntries : List Path := [Path.absolute ["a.sol"], Path.absolute ["c.sol"]]

theorem resolve_pairSources {p : Path} (h : p ∈ Path.absolute ["lib"] :: pairEntries) :
    pairSources.host.resolve p = .ok p := by
  simp only [pairEntries, List.mem_cons, List.not_mem_nil, or_false] at h
  rcases h with rfl | rfl | rfl <;> cbv

theorem plain_pairSources :
    (∀ p ∈ Path.absolute ["lib"] :: pairEntries, p.IsPlain) ∧
      ∀ c ∈ pairSources.host.workingDirectory, IsComponent c := by
  decide

theorem exists_build_pairSources : ∃ universes,
    (Universe.build pairSources.host (Path.absolute ["lib"]) false pairEntries).result =
      .ok universes := by
  have hresolved {p : Path} (h : p ∈ Path.absolute ["lib"] :: pairEntries) : p.IsResolved :=
    Host.resolve_isResolved _ (plain_pairSources.1 p h) (.inr plain_pairSources.2)
      (resolve_pairSources h)
  have hbound : pairSources.bound = 26 := by cbv
  refine Universe.exists_build (resolve_pairSources List.mem_cons_self) fun entry h => ?_
  have hmem := List.mem_cons_of_mem (Path.absolute ["lib"]) h
  have hprofile : ∃ w, pairSources.walk Profile.order entry [] = .ok w := by
    rw [walk, hbound]
    apply Outcome.exists_of_isSome
    rcases List.mem_pair.mp h with rfl | rfl <;> cbv
  obtain ⟨we, he⟩ := (exists_profile_walk_iff (hresolved hmem)
    (hresolved List.mem_cons_self)).mp hprofile
  obtain ⟨wp, hp⟩ := hprofile
  exact ⟨_, Universe.ofEntry_of_walk (s := pairSources) (resolve_pairSources hmem) hp he⟩

theorem isLinked_pairSources {name target : String} {declarations : List Node}
    (h : (name, target, declarations) ∈ importPairs) (hentry : Path.absolute [name] ∈ pairEntries) :
    pairSources.IsLinked pairEntries (Path.absolute [name]) ∧
      pairSources.IsLinked pairEntries (Path.absolute [target]) := by
  have hlinked : pairSources.IsLinked pairEntries (Path.absolute [name]) :=
    ⟨_, hentry, _, resolve_pairSources (List.mem_cons_of_mem _ hentry), .refl⟩
  exact ⟨hlinked, hlinked.imports (imports_pairSources h)⟩

theorem importCycles_pairSources : ∃ universes,
    (Universe.build pairSources.host (Path.absolute ["lib"]) false pairEntries).result =
      .ok universes ∧
    ∃ cycle ∈ (summary (Path.absolute []) universes).importCycles,
      (Path.absolute ["c.sol"]).display (Path.absolute []) ∈ cycle ∧
        (Path.absolute ["d.sol"]).display (Path.absolute []) ∈ cycle := by
  obtain ⟨universes, hbuild⟩ := exists_build_pairSources
  obtain ⟨hplain, hdirectory⟩ := plain_pairSources
  obtain ⟨hdeps, hentries⟩ := List.forall_mem_cons.mp hplain
  obtain ⟨dependencyRoot, hroot, hcycles, _⟩ :=
    importCycles_of_build hbuild hentries hdeps hdirectory
  obtain rfl := Except.ok.inj ((resolve_pairSources List.mem_cons_self).symm.trans hroot)
  have hc : ("c.sol", "d.sol", [emptyContract "C"]) ∈ importPairs := by simp [importPairs]
  have hd : ("d.sol", "c.sol", [emptyContract "D"]) ∈ importPairs := by simp [importPairs]
  obtain ⟨hlinked, hlinked'⟩ := isLinked_pairSources hc (by simp [pairEntries])
  refine ⟨universes, hbuild, (hcycles _ _ hlinked hlinked').mpr ⟨.single ?_, .single ?_⟩⟩
  · exact ⟨(declaresContract_pairSources hc).mpr (by simp), imports_pairSources hc⟩
  · exact ⟨(declaresContract_pairSources hd).mpr (by simp), imports_pairSources hd⟩

/-- Two files import each other and are in no cycle of the summary, as one of them declares no
contract. -/
theorem unreported_importCycle : ∃ universes,
    (Universe.build pairSources.host (Path.absolute ["lib"]) false pairEntries).result =
      .ok universes ∧
    pairSources.host.resolve (Path.absolute ["lib"]) = .ok pairSources.dependencies ∧
    pairSources.IsLinked pairEntries (Path.absolute ["a.sol"]) ∧
    pairSources.IsLinked pairEntries (Path.absolute ["b.sol"]) ∧
    Path.absolute ["a.sol"] ≠ Path.absolute ["b.sol"] ∧
    pairSources.Imports (Path.absolute ["a.sol"]) (Path.absolute ["b.sol"]) ∧
    pairSources.Imports (Path.absolute ["b.sol"]) (Path.absolute ["a.sol"]) ∧
    ¬ ∃ cycle ∈ (summary (Path.absolute []) universes).importCycles,
      (Path.absolute ["a.sol"]).display (Path.absolute []) ∈ cycle ∧
        (Path.absolute ["b.sol"]).display (Path.absolute []) ∈ cycle := by
  obtain ⟨universes, hbuild⟩ := exists_build_pairSources
  obtain ⟨hplain, hdirectory⟩ := plain_pairSources
  obtain ⟨hdeps, hentries⟩ := List.forall_mem_cons.mp hplain
  have hlib := resolve_pairSources (p := Path.absolute ["lib"]) List.mem_cons_self
  have ha : ("a.sol", "b.sol", [emptyContract "A"]) ∈ importPairs := by simp [importPairs]
  have hb : ("b.sol", "a.sol", []) ∈ importPairs := by simp [importPairs]
  obtain ⟨hlinked, hlinked'⟩ := isLinked_pairSources ha (by simp [pairEntries])
  refine ⟨universes, hbuild, hlib, hlinked, hlinked', by decide,
    imports_pairSources ha, imports_pairSources hb, ?_⟩
  rintro ⟨cycle, hcycle, _, hmem⟩
  obtain ⟨dependencyRoot, hroot, hresolved, hgraph⟩ :=
    exists_showsImports_of_build hbuild hentries hdeps hdirectory (Path.absolute [])
  obtain rfl := Except.ok.inj (hlib.symm.trans hroot)
  rw [importCycles_summary] at hcycle
  obtain ⟨f, hf, hdeclares, hshown⟩ := hgraph.exists_of_mem_cycle hcycle hmem
  obtain rfl := (hresolved f hf).display_injective (hresolved _ hlinked') hshown
  exact (declaresContract_pairSources hb).mp hdeclares rfl

end Artifact
end SolidityCalls
