import SolidityCalls.Proofs.Artifact.ImportCycles
import SolidityCalls.Proofs.Resolution.InPlace

/-! What a call without a target says about imported files. The search goes from contract to
contract, the walk from file to file; the search keeps up with the walk as long as every file that
imports another declares a contract to go through. A file that only imports cuts the search off. -/
namespace SolidityCalls

open Relation (TransGen ReflTransGen)

namespace Sources

/-- The entry leads to what the files with contracts among its imports lead to. -/
theorem Reaches.recordsImports {s : Sources} {entry f g : Path} (hf : s.Reaches entry f)
    (h : TransGen s.RecordsImport f g) : s.Reaches entry g := by
  induction h with
  | single himport => exact hf.tail himport.2
  | tail _ himport ih => exact ih.tail himport.2

end Sources

open Sources

namespace Extract

section Search

variable {s : Sources} {entry : Path} {w : Walk} {known : KnownNames}

/-- Every contract of a file records every import of the file. -/
theorem mem_importPaths (h : s.Covers entry w) (hresolved : ∀ f, s.Reaches entry f → f.IsResolved)
    {f g : Path} (hf : s.Reaches entry f) (himport : s.Imports f g) {c : Contract}
    (hc : c ∈ ofWalk known w) (hsource : c.sourcePath = f.render) : g.render ∈ c.importPaths := by
  obtain ⟨d, hd, hmem⟩ := List.mem_flatMap.mp hc
  obtain ⟨hreach, hload, himports⟩ := h.mem_closed.mp hd
  have hpath : d.1.path.render = f.render := by
    rw [← sourcePath_of_mem_contractsOf hmem, hsource]
  obtain rfl := Path.render_injective (hresolved _ hreach).plain (hresolved f hf).plain hpath
  obtain ⟨source, imports, hload', himports', hg⟩ := himport
  obtain rfl := Except.ok.inj (hload.symm.trans hload')
  obtain rfl := Except.ok.inj (himports.symm.trans himports')
  obtain ⟨declaration, _, rfl⟩ := List.mem_map.mp hmem
  exact List.mem_map_of_mem hg

/-- A file with contracts has a contract in the list. -/
theorem exists_contract_of_file (h : s.Covers entry w) {f : Path} (hf : s.Reaches entry f)
    (hdeclares : s.DeclaresContract f) : ∃ c ∈ ofWalk known w, c.sourcePath = f.render := by
  obtain ⟨source, hload, hne⟩ := hdeclares
  obtain ⟨c, hc⟩ : ∃ c, c ∈ (ofWalk known w).filter fun c => c.sourcePath = f.render := by
    apply List.exists_mem_of_ne_nil
    intro hnil
    refine hne (List.map_eq_nil_iff (f := fun d => (d.1, d.2.declaredName)).mp ?_)
    rw [← filter_ofWalk h hf hload, hnil, List.map_nil]
  exact ⟨c, (List.mem_filter.mp hc).1, by simpa using (List.mem_filter.mp hc).2⟩

/-- The search follows the imports of files with contracts. -/
theorem step_of_recordsImports (h : s.Covers entry w)
    (hresolved : ∀ f, s.Reaches entry f → f.IsResolved) {f g : Path} (hf : s.Reaches entry f)
    (hway : TransGen s.RecordsImport f g) {c d : Contract} (hc : c ∈ ofWalk known w)
    (hsource : c.sourcePath = f.render) (hd : d ∈ ofWalk known w)
    (hfile : d.sourcePath = g.render) :
    ReflTransGen (Resolution.Step (ofWalk known w)) c d := by
  induction hway using TransGen.head_induction_on generalizing c with
  | single himport =>
    have hpath := mem_importPaths h hresolved hf himport.2 hc hsource
    exact .single ⟨hd, .inr (hfile ▸ hpath)⟩
  | @head f b himport hrest ih =>
    -- The file in between imports another, so it has a contract to go through.
    obtain ⟨_, hnext, _⟩ := TransGen.head'_iff.mp hrest
    have hb := hf.tail himport.2
    obtain ⟨e, he, hthrough⟩ := exists_contract_of_file h hb hnext.1
    have hpath := mem_importPaths h hresolved hf himport.2 hc hsource
    exact .head ⟨he, .inr (hthrough ▸ hpath)⟩ (ih hb he hthrough)

end Search

end Extract

namespace Resolution

/-- A call that is left without a target has a callee that no contract within reach defines. -/
theorem not_defines_of_unresolved {u : List Contract} (hu : (u.map (·.name)).Nodup)
    {registry : Registry} {c : Contract} (hc : c ∈ u) {k : Call}
    (h : (resolveCall u registry c k).resolvedId = some unresolvedMark) {d : Contract}
    (hreach : ReflTransGen (Step u) c d) : ¬ d.defines k.calleeName := by
  intro hdefines
  have hsome := (definer?_isSome_iff hu hc k.calleeName).mpr ⟨d, hreach, hdefines⟩
  obtain ⟨e, he⟩ := Option.isSome_iff_exists.mp hsome
  have hid : resolve? u registry c k = some (k.identifier registry e.name) := by
    rw [resolve?, he, Option.map_some]
  rw [resolveCall, hid, Option.getD_some] at h
  exact ne_unresolvedMark_of_resolve? hid (Option.some.inj h)

/-- The contracts before and after resolution have the same functions. -/
theorem defines_resolveFunctions (u : List Contract) (registry : Registry) (c : Contract)
    (name : String) :
    { c with functions := c.functions.map (resolveFunction u registry c) }.defines name =
      c.defines name := by
  simp only [Contract.defines, List.any_map]
  rfl

theorem map_declaration_resolveAll (u : List Contract) (registry : Registry) (path : String) :
    ((resolveAll u registry).filter fun c => c.sourcePath = path).map (fun c => (c.kind, c.name)) =
      (u.filter fun c => c.sourcePath = path).map fun c => (c.kind, c.name) := by
  simp [resolveAll, List.filter_map, Function.comp_def]

end Resolution

namespace Universe

/-- A call of a contract is left without a target only if no contract of any file that the
contract's file imports, directly or through other files, defines its callee; each of the files in
between has to declare a contract. All contracts of these files are in the universe. -/
theorem build_unresolved_undefined {host : Host} {dependencies : Path} {tolerant : Bool}
    {entries : List Path} {universes : List Universe}
    (h : (build host dependencies tolerant entries).result = .ok universes)
    (hentries : ∀ entry ∈ entries, entry.IsPlain) (hdeps : dependencies.IsPlain)
    (hdirectory : ∀ c ∈ host.workingDirectory, IsComponent c) {u : Universe} (hu : u ∈ universes)
    (hnames : (u.contracts.map (·.name)).Nodup) :
    ∃ dependencyRoot, host.resolve dependencies = .ok dependencyRoot ∧
      let s : Sources := ⟨host, dependencyRoot, tolerant⟩
      ∀ c ∈ u.contracts, ∃ f, s.Reaches u.entryFile f ∧ c.sourcePath = f.render ∧
        ∀ fn ∈ c.functions, ∀ k ∈ fn.calls, k.resolvedId = some unresolvedMark →
          ∀ g, TransGen s.RecordsImport f g → ∃ source, s.load g = .ok source ∧
            (u.contracts.filter fun d => d.sourcePath = g.render).map (fun d => (d.kind, d.name)) =
              source.tree.contractDeclarations.map (fun d => (d.1, d.2.declaredName)) ∧
            ∀ d ∈ u.contracts, d.sourcePath = g.render → ¬ d.defines k.calleeName := by
  obtain ⟨dependencyRoot, registry, us, hroot, rfl, hall⟩ := forall₂_of_build h
  obtain ⟨u, hmem, rfl⟩ := List.mem_map.mp hu
  obtain ⟨entry, hentry, hone⟩ := exists_of_forall₂_right hall hmem
  have hdeps' : dependencyRoot.IsResolved := host.resolve_isResolved hdeps (.inr hdirectory) hroot
  have hfile : u.entryFile.IsResolved :=
    host.resolve_isResolved (hentries entry hentry) (.inr hdirectory) (entryFile_of_ofEntry hone)
  obtain ⟨known, w, hcovers, hcontracts⟩ := exists_covers_of_ofEntry hone hfile hdeps'
  refine ⟨dependencyRoot, hroot, ?_⟩
  intro s caller hcaller
  have hresolved (f : Path) (hf : s.Reaches u.entryFile f) : f.IsResolved :=
    hf.isResolved hdeps' hfile
  rw [resolve, Resolution.map_name_resolveAll, hcontracts] at hnames
  obtain ⟨c, hc, rfl⟩ := List.mem_map.mp hcaller
  rw [hcontracts] at hc
  obtain ⟨f, hf, hsource⟩ := Extract.exists_reaches_of_mem_ofWalk hcovers hc
  refine ⟨f, hf, hsource, fun fn hfn k hk hmark g hway => ?_⟩
  obtain ⟨fn, hfn, rfl⟩ := List.mem_map.mp hfn
  obtain ⟨k, hk, rfl⟩ := List.mem_map.mp hk
  have hg := hf.recordsImports hway
  obtain ⟨e, he, rfl⟩ := hcovers.exists_mem_closed hg
  have hload := hcovers.load_closed e he
  refine ⟨e.1, hload, ?_, fun d hd htarget => ?_⟩
  · rw [resolve, Resolution.map_declaration_resolveAll, hcontracts]
    exact Extract.filter_ofWalk hcovers hg hload
  · obtain ⟨d, hdefiner, rfl⟩ := List.mem_map.mp hd
    rw [hcontracts] at hdefiner hmark
    rw [Resolution.defines_resolveFunctions]
    have hreach :=
      Extract.step_of_recordsImports hcovers hresolved hf hway hc hsource hdefiner htarget
    exact Resolution.not_defines_of_unresolved hnames hc hmark hreach

/-- A file of the sample: its name, the files it imports, and its contracts with one function each,
which calls the functions named. -/
structure ForwardedFile where
  name : String
  imported : List String
  contracts : List (String × String × List String)

/-- A contract with one function. -/
def forwardedContract (name function : String) (callees : List String) : Node :=
  sampleNode "contract_declaration" none ""
    [sampleNode "identifier" (some .name) name [],
      sampleNode "contract_body" (some .body) ""
        [sampleNode "function_definition" none ""
          [sampleNode "identifier" (some .name) function [],
            sampleNode "function_body" (some .body) "" (callees.map fun callee =>
              sampleNode "call_expression" none ""
                [sampleNode "identifier" (some .function) callee []])]]]

namespace ForwardedFile

def path (x : ForwardedFile) : Path := Path.absolute [x.name]

def imports (x : ForwardedFile) : List Path := x.imported.map fun name => Path.absolute [name]

def tree (x : ForwardedFile) : Node :=
  sampleNode "source_file" none "" ((x.imported.map fun name =>
    sampleNode "import_directive" none "" [sampleNode "string" (some .source) ("./" ++ name) []]) ++
      x.contracts.map fun c => forwardedContract c.1 c.2.1 c.2.2)

def source (x : ForwardedFile) : Source := ⟨x.path, x.tree, none⟩

def caller : ForwardedFile := ⟨"a.sol", ["b.sol", "d.sol"], [("A", "f", ["g"])]⟩

/-- The file imports another and declares nothing. -/
def barrel : ForwardedFile := ⟨"b.sol", ["c.sol"], []⟩

def definer : ForwardedFile := ⟨"c.sol", [], [("C", "g", [])]⟩

def other : ForwardedFile := ⟨"d.sol", [], [("D", "h", [])]⟩

/-- A call of a function that its file imports through a file without contracts. -/
def all : List ForwardedFile := [caller, barrel, definer, other]

end ForwardedFile

def forwarding : Sources where
  host :=
    { files :=
        { entries := ForwardedFile.all.map fun x => ([x.name], .file ⟨[], x.tree⟩)
          distinct := by decide }
      workingDirectory := []
      home := Path.absolute []
      accounts := [] }
  dependencies := Path.absolute ["lib"]
  tolerant := false

theorem load_forwarding {x : ForwardedFile} (hx : x ∈ ForwardedFile.all) :
    forwarding.load x.path = .ok x.source ∧ forwarding.imports x.source = .ok x.imports ∧
      Extract.order x.source x.imports = x.imports.map (.plainImport, ·) := by
  simp only [ForwardedFile.all, List.mem_cons, List.not_mem_nil, or_false] at hx
  rcases hx with rfl | rfl | rfl | rfl
  · exact ⟨by cbv, by cbv, by rfl⟩
  · exact ⟨by cbv, by cbv, by rfl⟩
  · exact ⟨by cbv, by cbv, by rfl⟩
  · exact ⟨by cbv, by cbv, by rfl⟩

/-- Both passes close the files in one order. -/
theorem walk_forwarding (order : Order)
    (h : ∀ x ∈ ForwardedFile.all, order x.source x.imports = x.imports.map (.plainImport, ·)) :
    (forwarding.walk order (Path.absolute ["a.sol"]) []).toOption.map Walk.closed =
      some ([ForwardedFile.definer, .barrel, .other, .caller].map fun x =>
        (x.source, x.imports)) := by
  have hvisit {x : ForwardedFile} (hx : x ∈ ForwardedFile.all) (fuel : Nat) (w : Walk) :
      forwarding.visit order (fuel + 1) x.path w =
        (x.imports.map (Reason.plainImport, ·)).foldlM (forwarding.followOne order fuel x.path)
          ((w.enter x.path).note (.opened x.source)) >>= fun w' =>
            .ok (w'.note (.closed x.source x.imports)) := by
    obtain ⟨hload, himports, _⟩ := load_forwarding hx
    rw [visit_of_load hload himports, h x hx]
  have hbound : forwarding.bound = 20 := by cbv
  have hrender (name : String) : (Path.absolute [name]).render = "/" ++ name := rfl
  have hcaller := @hvisit .caller (by simp [ForwardedFile.all])
  have hbarrel := @hvisit .barrel (by simp [ForwardedFile.all])
  have hdefiner := @hvisit .definer (by simp [ForwardedFile.all])
  have hother := @hvisit .other (by simp [ForwardedFile.all])
  rw [walk, hbound]
  simp only [ForwardedFile.path, ForwardedFile.imports, ForwardedFile.caller, ForwardedFile.barrel,
    ForwardedFile.definer, ForwardedFile.other, List.map_cons, List.map_nil]
    at hcaller hbarrel hdefiner hother ⊢
  simp [hcaller, hbarrel, hdefiner, hother, followOne, Walk.hasEntered, Walk.enter, Walk.note,
    Walk.start, NameSet.add, hrender, Except.toOption, Walk.closed]

/-- The contracts of the sample, the call with a given target. -/
def forwardedContracts (target : Option String) : List Contract :=
  [⟨"C", .contract, "/c.sol", [], [], [⟨"g", "C:g", []⟩]⟩,
    ⟨"D", .contract, "/d.sol", [], [], [⟨"h", "D:h", []⟩]⟩,
    ⟨"A", .contract, "/a.sol", [], ["/b.sol", "/d.sol"], [⟨"f", "A:f", [⟨"g", [], target⟩]⟩]⟩]

theorem ofEntry_forwarding :
    ofEntry forwarding (Path.absolute ["a.sol"]) =
      .ok ⟨Path.absolute ["a.sol"], forwardedContracts none⟩ := by
  have hfile : forwarding.host.resolve (Path.absolute ["a.sol"]) =
      .ok (Path.absolute ["a.sol"]) := by cbv
  obtain ⟨wp, hwp, hclosed⟩ := Option.map_eq_some_iff.mp
    (walk_forwarding Profile.order fun _ _ => rfl)
  obtain ⟨we, hwe, hclosed'⟩ := Option.map_eq_some_iff.mp
    (walk_forwarding Extract.order fun _ hx => (load_forwarding hx).2.2)
  have hknown : KnownNames.mk (Profile.empty.ofWalk wp).ignored
      (Profile.empty.ofWalk wp).contractNames = ⟨[], ["C", "D", "A"]⟩ := by
    rw [Profile.ofWalk, hclosed]
    rfl
  have hfunctions : Extract.functionsOf ⟨[], ["C", "D", "A"]⟩ (forwardedContract "A" "f" ["g"]) =
      [⟨"f", "A:f", [⟨"g", [], none⟩]⟩] := by cbv
  rw [ofEntry_of_walk hfile (Outcome.eq_ok_of_toOption hwp) (Outcome.eq_ok_of_toOption hwe), hknown,
    Extract.ofWalk, hclosed', forwardedContracts, ← hfunctions]
  rfl

theorem resolveAll_forwarding (registry : Registry) :
    Resolution.resolveAll (forwardedContracts none) registry =
      forwardedContracts (some unresolvedMark) := by
  have hnone : Resolution.definer? (forwardedContracts none) "g" [] ⟨"A", .contract, "/a.sol", [],
      ["/b.sol", "/d.sol"], [⟨"f", "A:f", [⟨"g", [], none⟩]⟩]⟩ = none := by cbv
  rw [forwardedContracts] at hnone
  simp [Resolution.resolveAll, forwardedContracts, Resolution.resolveFunction,
    Resolution.resolveCall, Resolution.resolve?, hnone]

/-- The run over the sample leaves the call without a target. -/
theorem build_forwarding :
    (build forwarding.host (Path.absolute ["lib"]) false [Path.absolute ["a.sol"]]).result =
      .ok [⟨Path.absolute ["a.sol"], forwardedContracts (some unresolvedMark)⟩] := by
  have hroot : forwarding.host.resolve (Path.absolute ["lib"]) = .ok (Path.absolute ["lib"]) := by
    cbv
  have hentry := foldlM_gather_of_forall₂ (.cons ofEntry_forwarding .nil) ⟨[], []⟩
  rw [build, Logged.result_bind, Logged.result_ofExcept, hroot, Outcome.ok_bind,
    Logged.result_bind]
  show (List.foldlM (gather forwarding) ⟨[], []⟩ [Path.absolute ["a.sol"]]).result >>= _ = _
  rw [hentry, Outcome.ok_bind]
  simp only [List.nil_append, List.map_singleton, resolve, resolveAll_forwarding]

theorem imports_forwarding {x : ForwardedFile} (hx : x ∈ ForwardedFile.all) {target : Path}
    (h : target ∈ x.imports) : forwarding.Imports x.path target := by
  obtain ⟨hload, himports, _⟩ := load_forwarding hx
  exact ⟨_, _, hload, himports, h⟩

theorem plain_forwarding :
    (∀ entry ∈ [Path.absolute ["a.sol"]], entry.IsPlain) ∧ (Path.absolute ["lib"]).IsPlain ∧
      ∀ c ∈ forwarding.host.workingDirectory, IsComponent c := by
  decide

/-- The callee of the call without a target is not defined in a file that is imported directly. -/
theorem undefined_forwarding : ∃ u : Universe,
    (build forwarding.host (Path.absolute ["lib"]) false [Path.absolute ["a.sol"]]).result =
      .ok [u] ∧
    ∃ c ∈ u.contracts, ∃ fn ∈ c.functions, ∃ k ∈ fn.calls, k.resolvedId = some unresolvedMark ∧
      ∃ d ∈ u.contracts, d.sourcePath = ForwardedFile.other.path.render ∧
        ¬ d.defines k.calleeName := by
  obtain ⟨hentries, hdeps, hdirectory⟩ := plain_forwarding
  have hroot : forwarding.host.resolve (Path.absolute ["lib"]) = .ok (Path.absolute ["lib"]) := by
    cbv
  obtain ⟨dependencyRoot, hroot', hundefined⟩ := build_unresolved_undefined build_forwarding
    hentries hdeps hdirectory (List.mem_singleton_self _) (by decide)
  obtain rfl := Except.ok.inj (hroot.symm.trans hroot')
  have hdeps' := forwarding.host.resolve_isResolved hdeps (.inr hdirectory) hroot
  have hcaller : ForwardedFile.caller.path.IsResolved :=
    forwarding.host.resolve_isResolved (hentries _ List.mem_cons_self) (.inr hdirectory) (by cbv)
  have hmem : (forwardedContracts (some unresolvedMark))[2] ∈
      forwardedContracts (some unresolvedMark) := List.getElem_mem _
  obtain ⟨f, hf, hsource, hcalls⟩ := hundefined _ hmem
  -- The file of the caller is told by its path.
  obtain rfl : ForwardedFile.caller.path = f :=
    Path.render_injective hcaller.plain (Reaches.isResolved hf hdeps' hcaller).plain hsource
  have himport : forwarding.RecordsImport ForwardedFile.caller.path ForwardedFile.other.path :=
    ⟨⟨_, (load_forwarding (by simp [ForwardedFile.all])).1, by decide⟩,
      imports_forwarding (by simp [ForwardedFile.all]) (List.mem_cons_of_mem _ List.mem_cons_self)⟩
  obtain ⟨_, _, _, hother⟩ := hcalls _ (List.mem_singleton_self _) _ (List.mem_singleton_self _) rfl
    _ (.single himport)
  exact ⟨_, build_forwarding, _, hmem, _, List.mem_singleton_self _, _, List.mem_singleton_self _,
    rfl, _, List.mem_cons_of_mem _ List.mem_cons_self, rfl,
    hother _ (List.mem_cons_of_mem _ List.mem_cons_self) rfl⟩

/-- A call is left without a target though a file that its file imports through another defines
its callee. -/
theorem unresolved_though_imported : ∃ u : Universe,
    (build forwarding.host (Path.absolute ["lib"]) false [Path.absolute ["a.sol"]]).result =
      .ok [u] ∧
    forwarding.host.resolve (Path.absolute ["lib"]) = .ok forwarding.dependencies ∧
    (u.contracts.map (·.name)).Nodup ∧
    ∃ c ∈ u.contracts, ∃ fn ∈ c.functions, ∃ k ∈ fn.calls, k.resolvedId = some unresolvedMark ∧
      ∃ f g, f.render = c.sourcePath ∧ TransGen forwarding.Imports f g ∧
        ∃ d ∈ u.contracts, d.sourcePath = g.render ∧ d.defines k.calleeName := by
  have hcaller : forwarding.Imports ForwardedFile.caller.path ForwardedFile.barrel.path :=
    imports_forwarding (by simp [ForwardedFile.all]) List.mem_cons_self
  have hbarrel : forwarding.Imports ForwardedFile.barrel.path ForwardedFile.definer.path :=
    imports_forwarding (by simp [ForwardedFile.all]) List.mem_cons_self
  exact ⟨_, build_forwarding, by cbv, by decide, _, List.mem_of_getElem? (i := 2) rfl, _,
    List.mem_singleton_self _, _, List.mem_singleton_self _, rfl, ForwardedFile.caller.path,
    ForwardedFile.definer.path, rfl, .head hcaller (.single hbarrel), _, List.mem_cons_self, rfl,
    by decide⟩

end Universe
end SolidityCalls
