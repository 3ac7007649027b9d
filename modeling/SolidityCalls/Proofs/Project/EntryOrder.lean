import Mathlib.Data.List.Perm.Basic
import SolidityCalls.Proofs.Artifact.Agreement
import SolidityCalls.Proofs.Artifact.ImportCycles
import SolidityCalls.Proofs.FileSystem.Outline
import SolidityCalls.Proofs.Project.Regenerate

/-! The order of the entry files. It decides which types the shared registry holds, so the targets
of calls may depend on it, but whether a call has a target does not. The summary holds nothing else
that the order could change. -/
namespace SolidityCalls

namespace Artifact

open ImportGraph

/-- The summary, count by count. -/
theorem summary_eq (root : Path) (universes : List Universe) : summary root universes =
    ⟨schemaVersion, universes.length, (universes.flatMap (·.contracts)).length,
      ((universes.flatMap (·.contracts)).flatMap (·.functions)).length,
      (allCalls universes).length,
      ((allCalls universes).filter fun c => target c = unresolvedMark).length,
      (importGraph root universes).cycles⟩ := by
  have hentries (s : Summary × ImportGraph) :
      (universes.foldl (Summary.add root) s).1.entryFileCount =
        s.1.entryFileCount + universes.length := by
    induction universes generalizing s with
    | nil => exact (Int.add_zero _).symm
    | cons u universes ih =>
      rw [List.foldl_cons, ih, List.length_cons]
      simp only [Summary.add]
      omega
  obtain ⟨hcontracts, hfunctions, hcalls, hunresolved⟩ :=
    counts_foldl root universes (⟨schemaVersion, 0, 0, 0, 0, 0, []⟩, [])
  have hversion := schemaVersion_summary root universes
  have hcycles := importCycles_summary root universes
  simp only [summary] at hversion hcycles ⊢
  rw [Summary.mk.injEq]
  refine ⟨hversion, ?_, ?_, ?_, ?_, ?_, hcycles⟩
  · rw [hentries, zero_add]
  · rw [hcontracts, zero_add]
  · rw [hfunctions, zero_add]
  · rw [hcalls, zero_add]
  · rw [hunresolved, zero_add]

theorem summary_perm {universes universes' : List Universe} (h : universes.Perm universes')
    (root : Path) : summary root universes = summary root universes' := by
  have hcontracts := h.flatMap_right (·.contracts)
  have hfunctions := hcontracts.flatMap_right (·.functions)
  have hcalls : (allCalls universes).Perm (allCalls universes') := hcontracts.flatMap_right _
  have hcycles : (importGraph root universes).cycles = (importGraph root universes').cycles := by
    apply cycles_congr
    intro a b
    rw [edge_importGraph, edge_importGraph]
    simp only [h.mem_iff]
  rw [summary_eq, summary_eq, h.length_eq, hcontracts.length_eq, hfunctions.length_eq,
    hcalls.length_eq, (hcalls.filter _).length_eq, hcycles]

/-- Whether a resolved call has a target is told by the contracts alone. -/
theorem target_resolveCall (u : List Contract) (registry : Registry) (c : Contract) (call : Call) :
    target (Resolution.resolveCall u registry c call) = unresolvedMark ↔
      Resolution.definer? u call.calleeName [] c = none := by
  cases h : Resolution.definer? u call.calleeName [] c with
  | none => simp [target, Resolution.resolveCall, Resolution.resolve?, h]
  | some d =>
    have hid : call.identifier registry d.name ≠ "" := by
      intro hempty
      have hcolon := call.colon_mem_identifier registry d.name
      rw [hempty] at hcolon
      cases hcolon
    have htarget : target (Resolution.resolveCall u registry c call) =
        call.identifier registry d.name :=
      target_of_resolvedId (by simp [Resolution.resolveCall, Resolution.resolve?, h]) hid
    rw [htarget]
    simp [Call.identifier_ne_unresolvedMark]

/-- For each call in order, whether it has no target. -/
theorem map_target_allCalls (universes : List Universe) (registry : Registry) :
    (allCalls (universes.map (Universe.resolve registry))).map
      (fun c => decide (target c = unresolvedMark)) =
        universes.flatMap fun u => u.contracts.flatMap fun c => c.functions.flatMap fun f =>
          f.calls.map fun k => (Resolution.definer? u.contracts k.calleeName [] c).isNone := by
  have hcall (u : List Contract) (c : Contract) (k : Call) :
      decide (target (Resolution.resolveCall u registry c k) = unresolvedMark) =
        (Resolution.definer? u k.calleeName [] c).isNone := by
    rw [Bool.eq_iff_iff, decide_eq_true_iff, target_resolveCall, Option.isNone_iff_eq_none]
  simp only [allCalls, Universe.resolve, Resolution.resolveAll, Resolution.resolveFunction,
    List.flatMap_map, List.flatMap_assoc, List.map_flatMap, List.map_map, Function.comp_def, hcall]

/-- The edges of the graph are recorded before calls are resolved. -/
theorem edge_importGraph_resolve {universes : List Universe} {registry : Registry} {root : Path}
    {a b : String} :
    (importGraph root (universes.map (Universe.resolve registry))).Edge a b ↔
      (importGraph root universes).Edge a b := by
  rw [edge_importGraph, edge_importGraph]
  simp [Universe.resolve, Resolution.resolveAll]

/-- Another registry may give calls other targets, but the summary does not show them. -/
theorem summary_resolve (universes : List Universe) (registry registry' : Registry) (root : Path) :
    summary root (universes.map (Universe.resolve registry)) =
      summary root (universes.map (Universe.resolve registry')) := by
  have hstatus := (map_target_allCalls universes registry).trans
    (map_target_allCalls universes registry').symm
  have hcalls : (allCalls (universes.map (Universe.resolve registry))).length =
      (allCalls (universes.map (Universe.resolve registry'))).length := by
    simpa using congrArg List.length hstatus
  have hunresolved := congrArg (List.countP id) hstatus
  rw [List.countP_map, List.countP_map, List.countP_eq_length_filter,
    List.countP_eq_length_filter] at hunresolved
  have hcycles : (importGraph root (universes.map (Universe.resolve registry))).cycles =
      (importGraph root (universes.map (Universe.resolve registry'))).cycles := by
    apply cycles_congr
    intro a b
    rw [edge_importGraph_resolve, edge_importGraph_resolve]
  rw [summary_eq, summary_eq, Summary.mk.injEq]
  refine ⟨rfl, ?_, ?_, ?_, ?_, ?_, hcycles⟩
  · rw [List.length_map, List.length_map]
  · simp [Universe.resolve, Resolution.resolveAll, List.length_flatMap, Function.comp_def]
  · simp [Universe.resolve, Resolution.resolveAll, List.length_flatMap, List.flatMap_assoc,
      Function.comp_def]
  · rw [hcalls]
  · exact congrArg _ hunresolved

end Artifact

namespace Universe

/-- Entries in another order have the same universes in another order. -/
theorem perm_of_forall₂ {s : Sources} {entries entries' : List Path} {us us' : List Universe}
    (hperm : entries.Perm entries')
    (h : List.Forall₂ (fun entry u => ofEntry s entry = .ok u) entries us)
    (h' : List.Forall₂ (fun entry u => ofEntry s entry = .ok u) entries' us') : us.Perm us' := by
  have hmap {es : List Path} {us : List Universe}
      (h : List.Forall₂ (fun entry u => ofEntry s entry = .ok u) es us) :
      es.map (ofEntry s) = us.map Except.ok := by
    rw [← List.forall₂_eq_eq_eq, List.forall₂_map_left_iff, List.forall₂_map_right_iff]
    exact h
  have hresults := hperm.map (ofEntry s)
  rw [hmap h, hmap h'] at hresults
  exact (List.map_perm_map_iff fun _ _ => Except.ok.inj).mp hresults

/-- Entries in another order are linked too, with the same summary. -/
theorem exists_build_of_perm {host : Host} {dependencies : Path} {tolerant : Bool}
    {entries entries' : List Path} (hperm : entries.Perm entries') {universes : List Universe}
    (h : (build host dependencies tolerant entries).result = .ok universes) (root : Path) :
    ∃ universes', (build host dependencies tolerant entries').result = .ok universes' ∧
      Artifact.summary root universes' = Artifact.summary root universes := by
  obtain ⟨base, registry, us, hbase, rfl, hall⟩ := forall₂_of_build h
  have heach : ∀ entry ∈ entries', ∃ u, ofEntry ⟨host, base, tolerant⟩ entry = .ok u := by
    intro entry hentry
    obtain ⟨u, _, hu⟩ := exists_of_forall₂_right hall.flip (hperm.mem_iff.mpr hentry)
    exact ⟨u, hu⟩
  obtain ⟨universes', h'⟩ := exists_build hbase heach
  obtain ⟨base', registry', us', hbase', rfl, hall'⟩ := forall₂_of_build h'
  obtain rfl := Except.ok.inj (hbase.symm.trans hbase')
  refine ⟨_, h', ?_⟩
  calc Artifact.summary root (us'.map (resolve registry'))
    _ = Artifact.summary root (us.map (resolve registry')) :=
      Artifact.summary_perm ((perm_of_forall₂ hperm.symm hall' hall).map _) root
    _ = Artifact.summary root (us.map (resolve registry)) :=
      Artifact.summary_resolve us registry' registry root

end Universe

namespace Host

variable (host : Host)

theorem makeDirectories_outline (p : Path) :
    (host.after host.files.outline).makeDirectories p =
      (host.makeDirectories p).map FileSystem.outline id := by
  unfold makeDirectories
  cases fault? p with
  | some e => rfl
  | none =>
    dsimp only
    rw [FileSystem.ensureDirectories_outline]
    rcases host.files.ensureDirectories _ p.parts.reverse with ⟨_, _ | _⟩ <;> rfl

theorem write_outline (p : Path) (bytes : Bytes) :
    (host.after host.files.outline).write p [] = (host.write p bytes).map FileSystem.outline := by
  have hwrite := host.files.writeFile_outline (host.parts p) ⟨bytes, default⟩
  have hparts : (host.after host.files.outline).parts p = host.parts p := rfl
  unfold write
  rw [hparts, hwrite]
  cases fault? p with
  | some e => rfl
  | none => cases host.files.writeFile (host.parts p) ⟨bytes, default⟩ <;> rfl

end Host

namespace Project

open Artifact

/-- Files are stored in the outline as in the file system, with the same failure. -/
theorem store_outline (host : Host) (directory : Path) (contents : List (String × Bytes)) :
    store (host.after host.files.outline) directory (contents.map fun f => (f.1, [])) =
      (store host directory contents).map FileSystem.outline id := by
  induction contents generalizing host with
  | nil => rfl
  | cons f contents ih =>
    rw [List.map_cons, store, store, Host.makeDirectories_outline]
    rcases host.makeDirectories directory with ⟨made, _ | _⟩
    · have hwrite := (host.after made).write_outline (directory.child f.1) f.2
      dsimp only [Prod.map, id]
      rw [hwrite]
      cases (host.after made).write (directory.child f.1) f.2 with
      | error e => rfl
      | ok written => exact ih (host.after written)
    · rfl

/-- Whether files can be stored is told by their names. -/
theorem store_congr {contents contents' : List (String × Bytes)}
    (h : contents.map (·.1) = contents'.map (·.1)) (host : Host) (directory : Path) :
    (store host directory contents).2 = (store host directory contents').2 := by
  have hblank : contents.map (fun f => (f.1, ([] : Bytes))) =
      contents'.map fun f => (f.1, ([] : Bytes)) := by
    simpa [Function.comp_def] using congrArg (List.map fun name => (name, ([] : Bytes))) h
  have hsame := store_outline host directory contents
  rw [hblank, store_outline] at hsame
  exact (congrArg Prod.snd hsame).symm

/-- The file that is stored last is there with its content, whatever its name leads to. -/
theorem read_last_of_store {host : Host} {directory : Path} {contents : List (String × Bytes)}
    {name : String} {bytes : Bytes} {files : FileSystem}
    (h : store host directory (contents ++ [(name, bytes)]) = (files, none)) :
    (host.after files).read (directory.child name) = .ok ⟨bytes, default⟩ := by
  induction contents generalizing host with
  | nil =>
    obtain ⟨made, written, _, hwrite, hrest⟩ := store_cons h
    obtain ⟨rfl, _⟩ := Prod.mk.inj hrest
    obtain ⟨_, _, _, hfind⟩ := Host.write_spec hwrite
    exact Host.read_of_find hfind
  | cons f contents ih =>
    obtain ⟨made, written, _, _, hrest⟩ := store_cons h
    have hread := ih hrest
    exact hread

/-- A run that succeeds leaves the summary under its name. -/
theorem read_summary_of_generate {host : Host} {r : Request} {report : Report} {p : Plan}
    (hplan : (plan host r).result = .ok p) (h : (generate host r).result = .ok report) :
    (host.after (generate host r).files).read (p.directory.child Kind.summary.fileName) =
      .ok ⟨Utf8.encode (p.bundle.text .summary), default⟩ := by
  obtain ⟨hstore, hcheck, _⟩ := store_of_generate hplan h
  rw [Bundle.files_of_check hcheck, show Kind.all = [.contracts, .calls] ++ [.summary] from rfl,
    List.map_append, List.map_singleton] at hstore
  exact read_last_of_store hstore

/-- A run plans for what its parts give. -/
theorem plan_of_build {host : Host} {r : Request} {project : Project}
    {directory dependencies : Path} {entries : List Path} {universes : List Universe}
    (hload : load host r.root r.config = .ok project)
    (hdirectory : project.outputDir host r.outDir = .ok directory)
    (hentries : project.entries host r.entries = .ok entries)
    (hdependencies : Config.resolveDependencyRoot host project.root project.config.dependencyRoot =
      .ok dependencies)
    (hbuild : (Universe.build host dependencies project.config.allowParseErrors entries).result =
      .ok universes) :
    (plan host r).result =
      .ok ⟨directory, entries.length, .ofUniverses project.root universes⟩ := by
  simp only [plan, link, Logged.result_bind, Logged.result_ofExcept, hload, hdirectory, hentries,
    hdependencies, hbuild, Outcome.ok_bind, Logged.result_pure]
  rfl

/-- Two plans that differ at most in the records of contracts and calls. -/
structure Plan.SameSummary (p p' : Plan) : Prop where
  directory : p.directory = p'.directory
  entryCount : p.entryCount = p'.entryCount
  summary : p.bundle.summary = p'.bundle.summary
  agrees : p.bundle.Agrees
  agrees' : p'.bundle.Agrees

/-- The counts that a run reports are those of the summary. -/
theorem Plan.SameSummary.report {p p' : Plan} (h : p.SameSummary p') : p.report = p'.report := by
  have hcontracts : p.bundle.contracts.length = p'.bundle.contracts.length := by
    have hsame := h.agrees.contractCount.symm.trans (h.summary ▸ h.agrees'.contractCount)
    omega
  have hcalls : p.bundle.calls.length = p'.bundle.calls.length := by
    have hsame := h.agrees.callCount.symm.trans (h.summary ▸ h.agrees'.callCount)
    omega
  have hunresolved : p.bundle.unresolvedCount = p'.bundle.unresolvedCount := by
    have hsame := h.agrees.unresolvedCount.symm.trans (h.summary ▸ h.agrees'.unresolvedCount)
    exact Int.ofNat.inj hsame
  simp only [Plan.report, h.directory, h.entryCount, h.summary, hcontracts, hcalls, hunresolved]

/-- Entries in another order are planned for too. -/
theorem exists_plan_of_perm {host : Host} {root : Path} {config : Option Config}
    {outDir : Option Path} {entries entries' : List Path} {p : Plan}
    (hperm : entries.Perm entries')
    (h : (plan host ⟨root, config, some entries, outDir⟩).result = .ok p) :
    ∃ p', (plan host ⟨root, config, some entries', outDir⟩).result = .ok p' ∧
      p.SameSummary p' := by
  obtain ⟨project, _, dependencies, universes, hload, hdirectory, hentries, hdependencies, hbuild,
    hbundle⟩ := exists_of_plan h
  obtain rfl := Except.ok.inj hentries
  obtain ⟨universes', hbuild', hsummary⟩ :=
    Universe.exists_build_of_perm hperm hbuild project.root
  have hplanned := Except.ok.inj (h.symm.trans
    (plan_of_build hload hdirectory hentries hdependencies hbuild))
  refine ⟨_, plan_of_build hload hdirectory rfl hdependencies hbuild', rfl, ?_, ?_, ?_, ?_⟩
  · exact (congrArg Plan.entryCount hplanned).trans hperm.length_eq
  · rw [hbundle]
    exact hsummary.symm
  · exact hbundle ▸ Bundle.agrees_ofUniverses project.root universes
  · exact Bundle.agrees_ofUniverses project.root universes'

/-- Bundles with one summary are stored alike: under the same names, or neither of them. -/
theorem exists_store_of_summary {host : Host} {directory : Path} {b b' : Bundle}
    {files : FileSystem} (hsummary : b.summary = b'.summary) (hcheck : b.check = .ok ())
    (h : store host directory b.files = (files, none)) :
    b'.check = .ok () ∧ ∃ files', store host directory b'.files = (files', none) := by
  have hwritable : b'.isWritable .summary := by
    have hfits := Bundle.isWritable_of_check hcheck .summary
    rw [Bundle.isWritable, hsummary] at hfits
    exact hfits
  have hcheck' := Bundle.check_of_summary hwritable
  have hnames : b.files.map (·.1) = b'.files.map (·.1) := by
    rw [Bundle.files_of_check hcheck, Bundle.files_of_check hcheck', List.map_map, List.map_map]
    rfl
  have hnone := store_congr hnames host directory
  rw [h] at hnone
  exact ⟨hcheck', _, Prod.ext rfl hnone.symm⟩

/-- Where a run on some entry files succeeds, so does the run on the same files in any other order.
It reports the same counts, and the summary it writes is the same byte for byte. -/
theorem generate_summary_of_perm {host : Host} {root : Path} {config : Option Config}
    {outDir : Option Path} {entries entries' : List Path} {report : Report}
    (hperm : entries.Perm entries')
    (h : (generate host ⟨root, config, some entries, outDir⟩).result = .ok report) :
    (generate host ⟨root, config, some entries', outDir⟩).result = .ok report ∧
      ∃ (directory : Path) (bytes : Bytes),
        report.artifacts = Kind.all.map (fun k => directory.child k.fileName) ∧
        (host.after (generate host ⟨root, config, some entries, outDir⟩).files).read
          (directory.child "callgraph_summary.json") = .ok ⟨bytes, default⟩ ∧
        (host.after (generate host ⟨root, config, some entries', outDir⟩).files).read
          (directory.child "callgraph_summary.json") = .ok ⟨bytes, default⟩ := by
  obtain ⟨p, hplan⟩ := exists_plan_of_generate h
  obtain ⟨hstore, hcheck, rfl⟩ := store_of_generate hplan h
  obtain ⟨p', hplan', hsame⟩ := exists_plan_of_perm hperm hplan
  obtain ⟨hcheck', files', hstore'⟩ := exists_store_of_summary hsame.summary hcheck hstore
  have h' : (generate host ⟨root, config, some entries', outDir⟩).result = .ok p.report := by
    rw [hsame.report]
    simp only [generate, hplan', ← hsame.directory, hstore', hcheck']
    rfl
  have htext : p'.bundle.text .summary = p.bundle.text .summary := by
    rw [Bundle.text, Bundle.text, hsame.summary]
  have hread' := read_summary_of_generate hplan' h'
  rw [htext, ← hsame.directory] at hread'
  exact ⟨h', p.directory, _, rfl, read_summary_of_generate hplan h, hread'⟩

/-- Two files with one contract each. -/
def twoContracts : Host where
  files :=
    { entries :=
        [(["a.sol"], Sources.sampleFile [] "A" []), (["b.sol"], Sources.sampleFile [] "B" [])]
      distinct := by decide }
  workingDirectory := []
  home := Path.absolute []
  accounts := []

theorem isSound_twoContracts : twoContracts.IsSound where
  tree := .of_entries (by decide) (List.forall_mem_cons.mpr
    ⟨List.forall_mem_singleton.mpr ⟨by decide, by decide, by decide⟩,
      List.forall_mem_singleton.mpr (List.forall_mem_singleton.mpr
        ⟨by decide, by decide, by decide⟩)⟩)
  workingDirectory := rfl
  home := by decide
  accounts := by decide

/-- A run into a directory that is missing. -/
def linkingRequest (entries : List Path) : Request :=
  ⟨Path.absolute [], some Config.standard, some entries, some (Path.absolute [".solgraph"])⟩

theorem plan_twoContracts :
    ((plan twoContracts (linkingRequest
        [Path.absolute ["a.sol"], Path.absolute ["b.sol"]])).result.toOption.map fun p =>
      (p.directory, p.bundle.isWritable .summary)) = some (Path.absolute [".solgraph"], true) := by
  cbv

theorem generate_twoContracts : ∃ report,
    (generate twoContracts
      (linkingRequest [Path.absolute ["a.sol"], Path.absolute ["b.sol"]])).result = .ok report ∧
    (generate twoContracts
      (linkingRequest [Path.absolute ["b.sol"], Path.absolute ["a.sol"]])).result = .ok report := by
  obtain ⟨p, hp, hfacts⟩ := Option.map_eq_some_iff.mp plan_twoContracts
  obtain ⟨hdirectory, hwritable⟩ := Prod.mk.inj hfacts
  have hd : p.directory = Path.absolute ([] ++ [".solgraph"]) := hdirectory
  have hfaults (k : Kind) :
      Host.fault? (Path.absolute ([] ++ [".solgraph"] ++ [k.fileName])) = none := by
    cases k <;> cbv
  have hgenerate := generate_of_missing isSound_twoContracts (Outcome.eq_ok_of_toOption hp)
    (Bundle.check_of_summary hwritable) hd rfl ⟨by decide, by decide, by decide⟩ rfl hfaults
  exact ⟨_, hgenerate, (generate_summary_of_perm (.swap _ _ _) hgenerate).1⟩

end Project
end SolidityCalls
