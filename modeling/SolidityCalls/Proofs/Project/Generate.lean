import SolidityCalls.Proofs.Artifact.Validity

/-! Runs that write artifacts. After a run that succeeds the artifacts stand in its directory, and
they are valid if no two of their names lead to one file. -/
namespace SolidityCalls.Project
open Artifact

/-- How a plan comes about. -/
theorem exists_of_plan {host : Host} {r : Request} {p : Plan} (h : (plan host r).result = .ok p) :
    ∃ project entries dependencies universes, load host r.root r.config = .ok project ∧
      project.outputDir host r.outDir = .ok p.directory ∧
      project.entries host r.entries = .ok entries ∧
      Config.resolveDependencyRoot host project.root project.config.dependencyRoot =
        .ok dependencies ∧
      (Universe.build host dependencies project.config.allowParseErrors entries).result =
        .ok universes ∧
      p.bundle = .ofUniverses project.root universes := by
  simp only [plan, link, Logged.result_bind, Logged.result_ofExcept] at h
  obtain ⟨project, hload, h⟩ := Outcome.exists_of_bind_ok h
  obtain ⟨directory, hdirectory, h⟩ := Outcome.exists_of_bind_ok h
  obtain ⟨entries, hentries, h⟩ := Outcome.exists_of_bind_ok h
  obtain ⟨bundle, hbundle, h⟩ := Outcome.exists_of_bind_ok h
  obtain ⟨_, _, hbundle⟩ := Outcome.exists_of_bind_ok hbundle
  obtain ⟨dependencies, hdependencies, hbundle⟩ := Outcome.exists_of_bind_ok hbundle
  obtain ⟨universes, hbuild, hbundle⟩ := Outcome.exists_of_bind_ok hbundle
  obtain rfl := Except.ok.inj h
  exact ⟨project, entries, dependencies, universes, hload, hdirectory, hentries, hdependencies,
    hbuild, (Except.ok.inj hbundle).symm⟩

theorem exists_plan_of_generate {host : Host} {r : Request} {report : Report}
    (h : (generate host r).result = .ok report) : ∃ p, (plan host r).result = .ok p := by
  cases hplan : (plan host r).result with
  | ok p => exact ⟨p, rfl⟩
  | error e =>
    simp only [generate, hplan] at h
    cases h

/-- A run that succeeds has stored the artifacts it planned, and all of them could be written. -/
theorem store_of_generate {host : Host} {r : Request} {report : Report} {p : Plan}
    (hplan : (plan host r).result = .ok p) (h : (generate host r).result = .ok report) :
    store host p.directory p.bundle.files = ((generate host r).files, none) ∧
      p.bundle.check = .ok () ∧ report = p.report := by
  simp only [generate, hplan] at h ⊢
  split at h
  next => cases h
  next files hstore =>
    obtain ⟨_, hcheck, hreport⟩ := Outcome.exists_of_map_ok h
    simp only [hstore]
    exact ⟨trivial, hcheck, hreport.symm⟩

theorem resolve_of_load {host : Host} {root : Path} {config : Option Config} {project : Project}
    (h : load host root config = .ok project) : host.resolve root = .ok project.root := by
  obtain ⟨resolved, hresolve, h⟩ := Outcome.exists_of_bind_ok h
  cases config with
  | some config =>
    obtain rfl := Except.ok.inj h
    exact hresolve
  | none =>
    obtain ⟨_, _, h⟩ := Outcome.exists_of_bind_ok h
    obtain rfl := Except.ok.inj h
    exact hresolve

theorem load_isResolved {host : Host} {root : Path} {config : Option Config} {project : Project}
    (hw : ∀ c ∈ host.workingDirectory, IsComponent c) (hroot : root.IsPlain)
    (h : load host root config = .ok project) : project.root.IsResolved :=
  host.resolve_isResolved hroot (.inr hw) (resolve_of_load h)

/-- The output directory is resolved from the resolved root, and lies in it. -/
theorem resolveOutputDir_spec {host : Host} {root directory : Path} {text : String}
    (h : Config.resolveOutputDir host root text = .ok directory) :
    ∃ base rest, host.resolve root = .ok base ∧
      host.resolve (base.join (Path.parse text)) = .ok directory ∧
      directory.relativeTo? base = some rest := by
  unfold Config.resolveOutputDir at h
  split at h
  next => cases h
  next =>
    split at h
    next => cases h
    next =>
      obtain ⟨base, hbase, h⟩ := Outcome.exists_of_bind_ok h
      obtain ⟨found, hfound, h⟩ := Outcome.exists_of_bind_ok h
      split at h
      next rest hrest =>
        obtain rfl := Except.ok.inj h
        exact ⟨base, rest, hbase, hfound, hrest⟩
      next => cases h

theorem resolveOutputDir_isResolved {host : Host} {root directory : Path} {text : String}
    (hroot : root.IsResolved) (h : Config.resolveOutputDir host root text = .ok directory) :
    directory.IsResolved := by
  obtain ⟨base, _, hbase, hfound, _⟩ := resolveOutputDir_spec h
  have hbase' := host.resolve_isResolved hroot.plain (.inl hroot.absolute) hbase
  have hjoin : (base.child text).IsResolved := hbase'.child text
  exact host.resolve_isResolved hjoin.plain (.inl hjoin.absolute) hfound

theorem directory_isPlain {host : Host} {r : Request} {p : Plan}
    (hw : ∀ c ∈ host.workingDirectory, IsComponent c) (hroot : r.root.IsPlain)
    (hout : ∀ d ∈ r.outDir, d.IsPlain) (h : (plan host r).result = .ok p) :
    p.directory.IsPlain := by
  obtain ⟨project, _, _, _, hload, hdirectory, _⟩ := exists_of_plan h
  cases hgiven : r.outDir with
  | some d =>
    rw [hgiven] at hdirectory
    obtain rfl := Except.ok.inj hdirectory
    exact hout _ hgiven
  | none =>
    rw [hgiven] at hdirectory
    exact (resolveOutputDir_isResolved (load_isResolved hw hroot hload) hdirectory).plain

end SolidityCalls.Project

namespace SolidityCalls.Artifact

namespace Bundle

theorem isWritable_of_check {b : Bundle} (h : b.check = .ok ()) (k : Kind) : b.isWritable k := by
  unfold check at h
  split at h
  next hall => exact List.all_eq_true.mp hall k k.mem_all
  next => cases h

/-- Only the summary can be too large to be written. -/
theorem check_of_summary {b : Bundle} (h : b.isWritable .summary) : b.check = .ok () := by
  have hall : ∀ k ∈ Kind.all, b.isWritable k := by
    rintro (_ | _ | _) _
    · rfl
    · rfl
    · exact h
  rw [check, if_pos (List.all_eq_true.mpr hall)]

theorem files_of_check {b : Bundle} (h : b.check = .ok ()) :
    b.files = Kind.all.map fun k => (k.fileName, Utf8.encode (b.text k)) := by
  rw [files, List.filter_eq_self.mpr fun k _ => isWritable_of_check h k]

end Bundle
end SolidityCalls.Artifact

namespace SolidityCalls.Project
open Artifact

/-- No two artifacts of a directory share a file. -/
def ArtifactsApart (host : Host) (directory : Path) : Prop :=
  ∀ k k' : Kind, k ≠ k' → ∀ loc e e', host.find (directory.child k.fileName) = .ok (loc, e) →
    host.find (directory.child k'.fileName) ≠ .ok (loc, e')

theorem isFileName_fileName (k : Kind) : FileSystem.IsFileName k.fileName := by
  cases k <;> exact ⟨by decide, by decide, by decide⟩

theorem fileName_injective {k k' : Kind} (h : k.fileName = k'.fileName) : k = k' := by
  revert h
  cases k <;> cases k' <;> decide

/-- Two artifacts share a file only if a link stands for one of them. -/
theorem artifactsApart_of_not_link {host : Host} {directory : Path} {loc : Location}
    (hdir : host.find directory = .ok (loc, .directory))
    (hlink : ∀ (k : Kind) target, host.files.entryAt? (loc ++ [k.fileName]) ≠ some (.link target)) :
    ArtifactsApart host directory := by
  have hplace : ∀ (k : Kind) loc' e, host.find (directory.child k.fileName) = .ok (loc', e) →
      loc' = loc ++ [k.fileName] := by
    intro k loc' e h
    have hname := isFileName_fileName k
    obtain ⟨_, hfind⟩ := Host.find_eq_ok_iff.mp h
    rw [Host.parts_child _ _ hname.component, FileSystem.find_eq_ok_iff,
      FileSystem.walk_child false (Host.find_eq_ok_iff.mp hdir).2 hname (hlink k)] at hfind
    exact (Prod.mk.inj (Except.ok.inj hfind)).1.symm
  intro k k' hne loc' e e' h h'
  have hsame := (hplace k loc' e h).symm.trans (hplace k' loc' e' h')
  exact hne (fileName_injective (List.append_singleton_inj.mp hsame).2)

/-- Artifacts that were stored are there with their texts. -/
theorem read_of_store {host : Host} {directory : Path} {b : Bundle} {files : FileSystem}
    (hcheck : b.check = .ok ()) (hstore : store host directory b.files = (files, none))
    (hapart : ArtifactsApart (host.after files) directory) (k : Kind) :
    (host.after files).read (directory.child k.fileName) =
      .ok ⟨Utf8.encode (b.text k), default⟩ := by
  rw [Bundle.files_of_check hcheck] at hstore
  have hmem : (k.fileName, Utf8.encode (b.text k)) ∈
      Kind.all.map fun k => (k.fileName, Utf8.encode (b.text k)) :=
    List.mem_map.mpr ⟨k, k.mem_all, rfl⟩
  have hpairs : (Kind.all.map fun k => (k.fileName, Utf8.encode (b.text k))).Pairwise
      fun f g => ∀ loc e e', (host.after files).find (directory.child f.1) = .ok (loc, e) →
        (host.after files).find (directory.child g.1) ≠ .ok (loc, e') := by
    rw [List.pairwise_map]
    have hne : Kind.all.Pairwise (· ≠ ·) := by decide
    exact hne.imp fun hk => hapart _ _ hk
  have hread := store_read hstore hpairs hmem
  exact hread

/-- Where a run succeeds, and the names of contracts and callees leave the colons of a target
alone, validation of its directory finds no error and no warning, unless two of the artifact names
lead to one file. Every line is read back as the record it was written from; every flag agrees
with its callee, and every target is accepted. -/
theorem validate_of_generate {host : Host} {r : Request} {report : Report} {p : Plan}
    (hw : ∀ c ∈ host.workingDirectory, IsComponent c) (hroot : r.root.IsPlain)
    (hout : ∀ d ∈ r.outDir, d.IsPlain) (hplan : (plan host r).result = .ok p)
    (h : (generate host r).result = .ok report)
    (hnames : ∀ e ∈ p.bundle.contracts, IsTargetName e.name)
    (hcallees : ∀ e ∈ p.bundle.calls, e.calleeName.toList.head? ≠ some ':')
    (hapart : ArtifactsApart (host.after (generate host r).files) p.directory) :
    validate (host.after (generate host r).files) p.directory true = .ok ⟨[], []⟩ ∧
      (∀ k : Kind, (host.after (generate host r).files).read (p.directory.child k.fileName) =
        .ok ⟨Utf8.encode (p.bundle.text k), default⟩) ∧
      p.bundle.IsReadBack ∧ ∀ e ∈ p.bundle.calls, e.IsSound := by
  obtain ⟨project, entries, dependencies, universes, _, _, _, _, hbuild, hbundle⟩ :=
    exists_of_plan hplan
  obtain ⟨hstore, hcheck, _⟩ := store_of_generate hplan h
  have hread := read_of_store hcheck hstore hapart
  have hdirectory := directory_isPlain hw hroot hout hplan
  have hfits := Bundle.isWritable_of_check hcheck .summary
  obtain ⟨loc, hloc⟩ := store_directory (by simp [Bundle.files_of_check hcheck, Kind.all])
    hdirectory hw hstore
  rw [hbundle] at hnames hcallees hread hfits ⊢
  have hsound : ∀ e ∈ callEdges project.root universes, e.IsSound := fun e =>
    isSound_of_mem_callEdges
      (fun u hu c hc f hf k hk => Universe.isResolvedOver_of_build hbuild hu hc hf hk)
      hnames hcallees
  have hflawless := Bundle.isFlawless_ofUniverses hsound hfits
  refine ⟨?_, hread, hflawless.isReadBack, hsound⟩
  rw [validate, findings_of_flawless hflawless hloc hread]
  rfl

/-- A file whose function calls another one, and the root as the directory of the artifacts. -/
def sampleRequest : Request :=
  ⟨Path.absolute [], some Config.standard, some [Path.absolute ["a.sol"]], some (Path.absolute [])⟩

theorem plan_sampleRequest :
    ((plan Universe.twoEntries sampleRequest).result.toOption.map fun p =>
      (p.directory, p.bundle.contracts.map (·.name), p.bundle.calls.map (·.calleeName),
        p.bundle.isWritable .summary)) =
      some (Path.absolute [], ["A"], ["g"], true) := by
  cbv

theorem store_sampleRequest {b : Bundle} (h : b.check = .ok ()) :
    ∃ files, store Universe.twoEntries (Path.absolute []) b.files = (files, none) ∧
      ArtifactsApart (Universe.twoEntries.after files) (Path.absolute []) := by
  have hnone : ∀ k : Kind, Universe.twoEntries.files.entryAt? ([] ++ [k.fileName]) = none := by
    intro k
    cases k <;> cbv
  have hfault : ∀ k : Kind, Host.fault? ((Path.absolute []).child k.fileName) = none := by
    intro k
    cases k <;> cbv
  have hdir : Universe.twoEntries.find (Path.absolute []) = .ok ([], .directory) := by
    cbv
  have hfree : ∀ k : Kind, Universe.twoEntries.files.IsFree ([] ++ [k.fileName]) := by
    intro k e he
    rw [hnone k] at he
    cases he
  have hfiles := Bundle.files_of_check h
  have hstore : store Universe.twoEntries (Path.absolute []) b.files =
      (putAll Universe.twoEntries.files [] b.files, none) := by
    rw [hfiles]
    exact store_eq_putAll (by decide) (by decide) hdir
      (List.forall_mem_map.mpr fun k _ => isFileName_fileName k)
      (List.forall_mem_map.mpr fun k _ => hfault k) (List.forall_mem_map.mpr fun k _ => hfree k)
  have hdir' := Host.find_directory_keeps (store_keeps hstore) hdir
  refine ⟨_, hstore, artifactsApart_of_not_link hdir' fun k target htarget => ?_⟩
  rcases entryAt?_putAll Universe.twoEntries.files [] b.files ([] ++ [k.fileName]) with he | ⟨_, he⟩
  · rw [he, hnone k] at htarget
    cases htarget
  · rw [he] at htarget
    cases htarget

theorem generate_sampleRequest :
    ∃ p, (plan Universe.twoEntries sampleRequest).result = .ok p ∧
      (generate Universe.twoEntries sampleRequest).result = .ok p.report ∧
      p.bundle.contracts.map (·.name) = ["A"] ∧ p.bundle.calls.map (·.calleeName) = ["g"] ∧
      ArtifactsApart (Universe.twoEntries.after (generate Universe.twoEntries sampleRequest).files)
        p.directory := by
  obtain ⟨p, hp, hfacts⟩ := Option.map_eq_some_iff.mp plan_sampleRequest
  have hplan := Outcome.eq_ok_of_toOption hp
  obtain ⟨hdirectory, hnames, hcallees, hwritable⟩ := by
    simpa only [Prod.mk.injEq] using hfacts
  have hcheck := Bundle.check_of_summary hwritable
  obtain ⟨files, hstore, hapart⟩ := store_sampleRequest hcheck
  have hgenerate : generate Universe.twoEntries sampleRequest =
      ⟨files, (plan Universe.twoEntries sampleRequest).log, .ok p.report⟩ := by
    simp only [generate, hplan, hdirectory, hstore, hcheck]
    rfl
  rw [hgenerate]
  exact ⟨p, hplan, rfl, hnames, hcallees, hdirectory ▸ hapart⟩

/-- The call is resolved, and its artifacts are valid. -/
theorem validate_sampleRequest :
    ∃ p report, (plan Universe.twoEntries sampleRequest).result = .ok p ∧
      (generate Universe.twoEntries sampleRequest).result = .ok report ∧
      p.bundle.calls.map (·.calleeName) = ["g"] ∧
      validate (Universe.twoEntries.after (generate Universe.twoEntries sampleRequest).files)
        p.directory true = .ok ⟨[], []⟩ := by
  obtain ⟨p, hplan, hresult, hnames, hcallees, hapart⟩ := generate_sampleRequest
  have hvalid := validate_of_generate (by decide) (by decide) (by decide) hplan hresult ?_ ?_ hapart
  · exact ⟨p, p.report, hplan, hresult, hcallees, hvalid.1⟩
  · intro e he
    have hname : e.name ∈ ["A"] := hnames ▸ List.mem_map_of_mem he
    rw [List.mem_singleton.mp hname]
    exact ⟨by decide, by decide⟩
  · intro e he
    have hname : e.calleeName ∈ ["g"] := hcallees ▸ List.mem_map_of_mem he
    rw [List.mem_singleton.mp hname]
    decide

/-- A machine where a link makes the name of the summary lead to the contracts. -/
def sharedFile : Host where
  files :=
    { entries := [([".solgraph"], .directory),
        ([".solgraph", "callgraph_summary.json"], .link "contracts.jsonl")]
      distinct := by decide }
  workingDirectory := []
  home := Path.absolute []
  accounts := []

/-- Artifacts for a root without sources, in the standard directory. -/
def sharedRequest : Request := ⟨Path.absolute [], none, none, none⟩

theorem plan_sharedRequest :
    ((plan sharedFile sharedRequest).result.toOption.map fun p =>
      (p.directory, p.bundle.contracts, p.bundle.calls, p.bundle.isWritable .summary)) =
      some (Path.absolute [".solgraph"], [], [], true) := by
  cbv

open FileSystem in
/-- A summary that is written goes to the file that the link leads to. -/
theorem write_sharedFile {files : FileSystem} (hkeeps : Keeps sharedFile.files files)
    {content : Content}
    (hcontent : files.entryAt? [".solgraph", "contracts.jsonl"] = some (.file content))
    (bytes : Bytes) :
    (sharedFile.after files).write
        ((Path.absolute [".solgraph"]).child "callgraph_summary.json") bytes =
      .ok (files.put [".solgraph", "contracts.jsonl"] (.file ⟨bytes, default⟩)) := by
  have hdir : files.entryAt? [".solgraph"] = some .directory := hkeeps.directory rfl
  have hlink : files.entryAt? ([".solgraph"] ++ ["callgraph_summary.json"]) =
      some (.link "contracts.jsonl") := hkeeps.link rfl
  have hname : IsName true ".solgraph" ["callgraph_summary.json"] :=
    ⟨by decide, by decide, by decide, by decide⟩
  have hwalk : files.walk true maxLinks [] [".solgraph", "callgraph_summary.json"] =
      .ok ([".solgraph", "contracts.jsonl"], some (.file content)) := by
    calc files.walk true maxLinks [] [".solgraph", "callgraph_summary.json"]
      _ = files.walk true maxLinks [".solgraph"] ["callgraph_summary.json"] :=
        walk_down rfl hname hdir (by simp)
      _ = files.walk true 39 (linkBase "contracts.jsonl" [".solgraph"])
            (Path.pieces "contracts.jsonl" ++ []) :=
        walk_follow (isDirectoryAt_iff.mpr hdir) ((isFileName_fileName .summary).isName true) hlink
      _ = files.walk true 39 [".solgraph"] ["contracts.jsonl"] := by
        rw [show Path.pieces "contracts.jsonl" = ["contracts.jsonl"] by decide, List.append_nil,
          show linkBase "contracts.jsonl" [".solgraph"] = [".solgraph"] by cbv]
      _ = .ok ([".solgraph", "contracts.jsonl"], files.entryAt? [".solgraph", "contracts.jsonl"]) :=
        walk_name (isDirectoryAt_iff.mpr hdir) (isFileName_fileName .contracts)
          (by simp [hcontent])
      _ = .ok ([".solgraph", "contracts.jsonl"], some (.file content)) := by rw [hcontent]
  have hparts : (sharedFile.after files).parts
      ((Path.absolute [".solgraph"]).child "callgraph_summary.json") =
        [".solgraph", "callgraph_summary.json"] :=
    Host.parts_child _ _ (isFileName_fileName .summary).component
  have hfault : Host.fault? ((Path.absolute [".solgraph"]).child "callgraph_summary.json") =
      none := by cbv
  simp only [Host.write, hfault, hparts, writeFile, hwalk]

open FileSystem in
/-- Whatever the artifacts hold, the name of the first one leads to the content of the last. -/
theorem store_sharedFile (a b c : Bytes) :
    ∃ files, store sharedFile (Path.absolute [".solgraph"])
        [("contracts.jsonl", a), ("calls.jsonl", b), ("callgraph_summary.json", c)] =
          (files, none) ∧
      (sharedFile.after files).find (Path.absolute [".solgraph"]) =
        .ok ([".solgraph"], .directory) ∧
      (sharedFile.after files).read ((Path.absolute [".solgraph"]).child "contracts.jsonl") =
        .ok ⟨c, default⟩ := by
  have hw : ∀ c ∈ sharedFile.workingDirectory, IsComponent c := by decide
  have hdir : sharedFile.find (Path.absolute [".solgraph"]) = .ok ([".solgraph"], .directory) := by
    cbv
  obtain ⟨files, hfiles, hfirst⟩ : ∃ files, files = putAll sharedFile.files [".solgraph"]
      [("contracts.jsonl", a), ("calls.jsonl", b)] ∧ store sharedFile (Path.absolute [".solgraph"])
        [("contracts.jsonl", a), ("calls.jsonl", b)] = (files, none) := by
    refine ⟨_, rfl, store_eq_putAll (by decide) hw hdir ?_ ?_ ?_⟩
    · simpa using ⟨isFileName_fileName .contracts, isFileName_fileName .calls⟩
    · exact List.forall_mem_cons.mpr ⟨by cbv, List.forall_mem_singleton.mpr (by cbv)⟩
    · refine List.forall_mem_cons.mpr ⟨?_, List.forall_mem_singleton.mpr ?_⟩
      · rintro e ⟨⟩
      · rintro e ⟨⟩
  have hcontracts : files.entryAt? [".solgraph", "contracts.jsonl"] =
      some (.file ⟨a, default⟩) := by
    rw [hfiles, putAll, List.foldl_cons, List.foldl_cons, List.foldl_nil, entryAt?_put _ (by simp),
      if_neg (by simp), entryAt?_put _ (by simp)]
    exact if_pos rfl
  have hkeeps := store_keeps hfirst
  have hdir' := Host.find_directory_keeps hkeeps hdir
  have hmake : (sharedFile.after files).makeDirectories (Path.absolute [".solgraph"]) =
      (files, none) := Host.makeDirectories_of_find (by decide) hw hdir'
  have hrest : store (sharedFile.after files) (Path.absolute [".solgraph"])
      [("callgraph_summary.json", c)] =
        (files.put [".solgraph", "contracts.jsonl"] (.file ⟨c, default⟩), none) := by
    rw [store, hmake]
    dsimp only
    rw [write_sharedFile hkeeps hcontracts c]
    rfl
  have hfree : files.IsFree [".solgraph", "contracts.jsonl"] := by
    intro e he
    exact ⟨_, Option.some.inj (he.symm.trans hcontracts)⟩
  have hdirEnd := Host.find_directory_keeps (keeps_put_file hfree ⟨c, default⟩) hdir'
  refine ⟨_, (store_append hfirst _).trans hrest, hdirEnd, ?_⟩
  have hfind := find_child (Host.find_eq_ok_iff.mp hdirEnd).2 (isFileName_fileName .contracts)
    (entryAt?_put files (by simp) (.file ⟨c, default⟩) _) (by simp)
  rw [← Host.parts_child _ _ (isFileName_fileName .contracts).component] at hfind
  exact Host.read_of_find (Host.find_eq_ok_iff.mpr ⟨by cbv, hfind⟩)

/-- A run whose artifacts share a file succeeds, and what it leaves is not valid. -/
theorem invalid_of_sharedFile :
    ∃ p report verdict, (plan sharedFile sharedRequest).result = .ok p ∧
      (generate sharedFile sharedRequest).result = .ok report ∧
      p.bundle.contracts = [] ∧ p.bundle.calls = [] ∧
      validate (sharedFile.after (generate sharedFile sharedRequest).files) p.directory true =
        .ok verdict ∧ verdict.errors ≠ [] := by
  obtain ⟨p, hp, hfacts⟩ := Option.map_eq_some_iff.mp plan_sharedRequest
  have hplan := Outcome.eq_ok_of_toOption hp
  obtain ⟨hdirectory, hcontracts, hcalls, hwritable⟩ := by
    simpa only [Prod.mk.injEq] using hfacts
  have hcheck := Bundle.check_of_summary hwritable
  have hfiles := Bundle.files_of_check hcheck
  obtain ⟨files, hstore, hdir, hread⟩ := store_sharedFile (Utf8.encode (p.bundle.text .contracts))
    (Utf8.encode (p.bundle.text .calls)) (Utf8.encode (p.bundle.text .summary))
  have hstore' : store sharedFile (Path.absolute [".solgraph"]) p.bundle.files = (files, none) := by
    rw [hfiles]
    exact hstore
  have hgenerate : generate sharedFile sharedRequest =
      ⟨files, (plan sharedFile sharedRequest).log, .ok p.report⟩ := by
    simp only [generate, hplan, hdirectory, hstore', hcheck]
    rfl
  have hfound : ∀ k : Kind, ∃ found,
      (sharedFile.after files).find ((Path.absolute [".solgraph"]).child k.fileName) =
        .ok found := by
    intro k
    obtain ⟨loc, content, hk⟩ :=
      store_file (f := (k.fileName, Utf8.encode (p.bundle.text k))) hstore'
        (hfiles ▸ List.mem_map.mpr ⟨k, k.mem_all, rfl⟩)
    exact ⟨_, hk⟩
  have hcomplaints : Kind.contracts.complaints ((sharedFile.after files).read
      ((Path.absolute [".solgraph"]).child Kind.contracts.fileName)) ≠ [] := by
    rw [show Kind.contracts.fileName = "contracts.jsonl" from rfl, hread]
    exact complaints_page_summary p.bundle.summary default
  obtain ⟨verdict, hvalidate, herrors⟩ := exists_error_of_complaint hdir hfound hcomplaints
  rw [hgenerate]
  exact ⟨p, _, verdict, hplan, rfl, hcontracts, hcalls, hdirectory ▸ hvalidate, herrors⟩

end SolidityCalls.Project
