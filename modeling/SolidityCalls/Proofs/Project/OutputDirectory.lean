import SolidityCalls.Proofs.Project.Regenerate

/-! The output directory stays inside its project. A text is resolved from the resolved root, links
and all, and is accepted if the outcome is at or below the root. Where no links form a loop the
outcome has no link left on it, so the directories that are made for it are made where it says. -/
namespace SolidityCalls

namespace FileSystem

variable {fs fs' : FileSystem} {d : Location}

/-- Links are as they were, and new directories are on the way to a location. -/
structure OpensWay (fs fs' : FileSystem) (d : Location) : Prop where
  link_iff : ∀ {loc target},
    fs'.entryAt? loc = some (.link target) ↔ fs.entryAt? loc = some (.link target)
  onWay : ∀ {loc}, fs'.entryAt? loc = some .directory →
    fs.entryAt? loc = some .directory ∨ loc <+: d

namespace OpensWay

theorem refl (fs : FileSystem) (d : Location) : OpensWay fs fs d := ⟨Iff.rfl, .inl⟩

theorem trans {fs'' : FileSystem} (h : OpensWay fs fs' d) (h' : OpensWay fs' fs'' d) :
    OpensWay fs fs'' d where
  link_iff := h'.link_iff.trans h.link_iff
  onWay hdir := (h'.onWay hdir).elim h.onWay .inr

theorem isStraight (h : OpensWay fs fs' d) {loc : Location} (hs : IsStraight fs loc) :
    IsStraight fs' loc :=
  ⟨hs.component, hs.ne_up, fun hpre _ ht => hs.not_link hpre _ (h.link_iff.mp ht)⟩

theorem of_makesDirectories (h : MakesDirectories d fs fs') (hd : IsStraight fs d) :
    OpensWay fs fs' d := by
  obtain ⟨dirs, hgrows, hdirs⟩ := h.grows hd
  refine ⟨hgrows.link_iff, fun {loc} hdir => ?_⟩
  cases hloc : fs.entryAt? loc with
  | some e =>
    rw [hgrows.toExtends hloc] at hdir
    exact .inl hdir
  | none =>
    obtain ⟨x, hx, heq⟩ := List.mem_map.mp (hgrows.mem_added hdir hloc)
    exact .inr ((Prod.mk.inj heq).1 ▸ (hdirs x hx).1)

/-- A file takes the place of a file, or of nothing. -/
theorem put_file {loc : Location} (hfree : IsFree fs loc) (content : Content) :
    OpensWay fs (fs.put loc (.file content)) d := by
  have hother : ∀ {x : Location} {e : Entry}, (∀ c, e ≠ .file c) →
      ((fs.put loc (.file content)).entryAt? x = some e ↔ fs.entryAt? x = some e) := by
    intro x e he
    rw [entryAt?_put fs hfree.ne_nil]
    split
    next heq =>
      refine iff_of_false (fun h => he content (Option.some.inj h).symm) fun h => ?_
      obtain ⟨c, hc⟩ := hfree e (heq ▸ h)
      exact he c hc
    next => exact Iff.rfl
  exact ⟨hother (by simp), fun hdir => .inl ((hother (by simp)).mp hdir)⟩

end OpensWay

end FileSystem

namespace Project
open FileSystem

/-- Storing files opens the way to their directory, whether it succeeds or not. -/
theorem store_opensWay {host : Host} {d : Location} (hd : host.files.IsStraight d)
    (contents : List (String × Bytes)) :
    OpensWay host.files (store host (Path.absolute d) contents).1 d := by
  induction contents generalizing host with
  | nil => exact .refl _ _
  | cons f rest ih =>
    have hmake : OpensWay host.files (host.makeDirectories (Path.absolute d)).1 d :=
      .of_makesDirectories (host.makeDirectories_makes (Path.absolute d)) hd
    rw [store]
    split
    next made e hmade => simpa only [hmade] using hmake
    next made hmade =>
      rw [hmade] at hmake
      split
      next => exact hmake
      next written hwrite =>
        obtain ⟨loc, hfree, rfl, _⟩ := Host.write_spec hwrite
        have hput := hmake.trans (.put_file hfree ⟨f.2, default⟩)
        exact hput.trans (@ih (host.after _) (hput.isStraight hd))

/-- A path inside the project at a root: at or below the resolved root, with no `..` and no link
on it. -/
structure StaysInside (host : Host) (root p : Path) : Prop where
  absolute : p.isAbsolute
  no_up : ".." ∉ p.parts
  not_link : ∀ pre, pre <+: p.parts → ∀ target, host.files.entryAt? pre ≠ some (.link target)
  below : ∃ base, host.resolve root = .ok base ∧ p.anchor = base.anchor ∧ base.parts <+: p.parts

/-- What a text that may name an output directory comes to. -/
structure JudgesOutputDirs (host : Host) (root : Path) : Prop where
  accepted : ∀ text p, Config.resolveOutputDir host root text = .ok p → StaysInside host root p
  empty : Config.resolveOutputDir host root "" = .error .emptyOutputDir
  anchored : ∀ text, text ≠ "" → text.startsWith "~" ∨ (Path.parse text).isAbsolute →
    Config.resolveOutputDir host root text = .error .anchoredOutputDir
  /-- A text that is neither goes by where its components resolve to from the root. -/
  resolved : ∀ text base, text ≠ "" → ¬ (text.startsWith "~" ∨ (Path.parse text).isAbsolute) →
    host.resolve root = .ok base →
    (base.parts ++ (Path.parse text).parts).any Host.holdsNul = false →
    ∃ loc n, ResolvesTo host.files base.parts (Path.parse text).parts loc n ∧
      Config.resolveOutputDir host root text =
        if base.parts <+: loc then .ok (Path.absolute loc) else .error (.escapingOutputDir text)

/-- A run that is given no output directory makes directories on the way to the one inside the
project, and no others. -/
structure MakesInside (host : Host) (r : Request) (p : Plan) : Prop where
  inside : StaysInside host r.root p.directory
  onWay : ∀ loc, (generate host r).files.entryAt? loc = some .directory →
    host.files.entryAt? loc = some .directory ∨ loc <+: p.directory.parts
  made : ∀ report, (generate host r).result = .ok report →
    (generate host r).files.entryAt? p.directory.parts = some .directory

section Resolve

variable {host : Host} {root : Path}

theorem resolve_loopFree (hw : host.files.IsStraight host.workingDirectory)
    (hloops : host.files.IsLoopFree) {p q : Path} (hp : p.IsPlain) (hq : host.resolve p = .ok q) :
    ∃ loc, q = Path.absolute loc ∧ host.files.IsStraight loc :=
  Host.resolve_straight hw hp (hloops.resolveFrom _ _ _) hq

/-- What resolution gives is resolved to itself. -/
theorem resolve_again (hw : host.files.IsStraight host.workingDirectory)
    (hloops : host.files.IsLoopFree) {p q q' : Path} (hp : p.IsPlain)
    (hq : host.resolve p = .ok q) (hq' : host.resolve q = .ok q') : q' = q := by
  obtain ⟨loc, rfl, hloc⟩ := resolve_loopFree hw hloops hp hq
  have hsame := (Host.files_resolve hq').symm.trans (resolve_absolute hloc host.workingDirectory)
  exact Except.ok.inj hsame

/-- An output directory is a straight location at or below the resolved root. -/
theorem resolveOutputDir_straight (hw : host.files.IsStraight host.workingDirectory)
    (hloops : host.files.IsLoopFree) (hroot : root.IsPlain) {text : String} {p : Path}
    (h : Config.resolveOutputDir host root text = .ok p) :
    ∃ here loc, host.resolve root = .ok (Path.absolute here) ∧ p = Path.absolute loc ∧
      here <+: loc ∧ host.files.IsStraight loc := by
  obtain ⟨base, rest, hbase, hfound, hrest⟩ := resolveOutputDir_spec h
  obtain ⟨here, rfl, hhere⟩ := resolve_loopFree hw hloops hroot hbase
  have hplain : (Path.absolute here).IsPlain := hhere.component
  have hchild : ((Path.absolute here).child text).IsResolved :=
    Path.IsResolved.child ⟨rfl, hplain⟩ text
  obtain ⟨loc, rfl, hloc⟩ := resolve_loopFree hw hloops hchild.plain hfound
  exact ⟨here, loc, hbase, rfl,
    ⟨rest, (congrArg Path.parts (Path.eq_of_relativeTo? hrest)).symm⟩, hloc⟩

theorem staysInside_of_isStraight {here loc : Location}
    (hroot : host.resolve root = .ok (Path.absolute here)) (hbelow : here <+: loc)
    (hloc : host.files.IsStraight loc) : StaysInside host root (Path.absolute loc) where
  absolute := rfl
  no_up hup := hloc.ne_up ".." hup rfl
  not_link _ hpre := hloc.not_link hpre
  below := ⟨_, hroot, rfl, hbelow⟩

/-- A relative text is resolved from the resolved root, component by component. -/
theorem resolve_join (hloops : host.files.IsLoopFree) {here : Location}
    (hhere : host.files.IsStraight here) {q : Path} (hq : q.anchor = .relative)
    (hnul : (here ++ q.parts).any Host.holdsNul = false) :
    ∃ loc n, ResolvesTo host.files here q.parts loc n ∧
      host.resolve ((Path.absolute here).join q) = .ok (Path.absolute loc) := by
  obtain ⟨loc, n, hto⟩ := hloops.exists_resolvesTo here q.parts
  obtain ⟨r, hr, _⟩ := hto.resolveFrom [] false (by simp)
  have hjoin : (Path.absolute here).join q = Path.absolute (here ++ q.parts) := by
    rw [Path.join, hq]
    rfl
  have hbefore : host.files.resolveFrom [] false [] here = .ok (false, here) :=
    resolveFrom_of_isStraight hhere
  have hresolve : host.files.resolve host.workingDirectory (Path.absolute (here ++ q.parts)) =
      .ok (Path.absolute loc) :=
    congrArg host.files.settle ((resolveFrom_append q.parts hbefore).trans hr)
  refine ⟨loc, n, hto, ?_⟩
  have hnul' : ¬ (Path.absolute (here ++ q.parts)).parts.any Host.holdsNul :=
    Bool.eq_false_iff.mp hnul
  rw [hjoin, Host.resolve, if_neg hnul', hresolve]

theorem judgesOutputDirs (hw : host.files.IsStraight host.workingDirectory)
    (hloops : host.files.IsLoopFree) (hroot : root.IsPlain) : JudgesOutputDirs host root where
  accepted text p h := by
    obtain ⟨here, loc, hbase, rfl, hbelow, hloc⟩ := resolveOutputDir_straight hw hloops hroot h
    exact staysInside_of_isStraight hbase hbelow hloc
  empty := by rw [Config.resolveOutputDir, if_pos rfl]
  anchored text hne hanchored := by
    have hcond : (text.startsWith "~" || (Path.parse text).isAbsolute) = true := by
      simpa using hanchored
    rw [Config.resolveOutputDir, if_neg hne, if_pos hcond]
  resolved text base hne hanchored hbase hnul := by
    obtain ⟨here, rfl, hhere⟩ := resolve_loopFree hw hloops hroot hbase
    have hcond : ¬ (text.startsWith "~" || (Path.parse text).isAbsolute) = true := by
      simpa using hanchored
    have hrelative : (Path.parse text).anchor = .relative := by
      simpa [Path.isAbsolute] using fun h => hanchored (.inr h)
    obtain ⟨loc, n, hto, hresolve⟩ := resolve_join hloops hhere hrelative hnul
    refine ⟨loc, n, hto, ?_⟩
    rw [Config.resolveOutputDir, if_neg hne, if_neg hcond, hbase, Outcome.ok_bind, hresolve,
      Outcome.ok_bind, Path.relativeTo?]
    by_cases hbelow : here <+: loc
    · simp [Path.absolute, hbelow]
    · simp [Path.absolute, hbelow]

theorem generate_files {r : Request} {p : Plan} (hplan : (plan host r).result = .ok p) :
    (generate host r).files = (store host p.directory p.bundle.files).1 := by
  simp only [generate, hplan]
  split
  next hstore => rw [hstore]
  next hstore => rw [hstore]

theorem makesInside (hw : host.files.IsStraight host.workingDirectory)
    (hloops : host.files.IsLoopFree) {r : Request} (hroot : r.root.IsPlain) (hout : r.outDir = none)
    {p : Plan} (hplan : (plan host r).result = .ok p) : MakesInside host r p := by
  obtain ⟨directory, count, bundle⟩ := p
  obtain ⟨project, _, _, _, hload, hdirectory, _⟩ := exists_of_plan hplan
  rw [hout] at hdirectory
  have hbase := resolve_of_load hload
  -- The root of the project is resolved once more, and comes out as it was.
  obtain ⟨here, loc, hagain, rfl, hbelow, hloc⟩ := resolveOutputDir_straight hw hloops
    (load_isResolved hw.component hroot hload).plain hdirectory
  rw [← resolve_again hw hloops hroot hbase hagain] at hbase
  refine ⟨staysInside_of_isStraight hbase hbelow hloc, ?_, ?_⟩
  · rw [generate_files hplan]
    exact fun _ => (store_opensWay hloc bundle.files).onWay
  · intro report hreport
    obtain ⟨hstore, hcheck, _⟩ := store_of_generate hplan hreport
    have hway := store_opensWay hloc bundle.files
    rw [hstore] at hway
    have hplain : (Path.absolute loc).IsPlain := hloc.component
    have hne : bundle.files ≠ [] := by
      simp [Artifact.Bundle.files_of_check hcheck, Artifact.Kind.all]
    obtain ⟨found, hfind⟩ := store_directory hne hplain hw.component hstore
    obtain ⟨rfl, hentry⟩ :=
      find_of_isStraight (hway.isStraight hloc) (Host.find_eq_ok_iff.mp hfind).2
    exact hentry

end Resolve

/-- Where links form no loop, an output directory that is accepted is inside the project, whatever
links and `..` there are on the way to it, and a run that finds its directory there makes no other
ones. A text that is empty, starts at a home directory or at the root of the file system, or leads
outside the project is turned down. -/
theorem output_stays_inside {host : Host} {root : Path}
    (hw : host.files.IsStraight host.workingDirectory) (hloops : host.files.IsLoopFree)
    (hroot : root.IsPlain) :
    JudgesOutputDirs host root ∧ ∀ r p, r.root = root → r.outDir = none →
      (plan host r).result = .ok p → MakesInside host r p := by
  refine ⟨judgesOutputDirs hw hloops hroot, ?_⟩
  rintro r p rfl hout hplan
  exact makesInside hw hloops hroot hout hplan

/-- A project with links into it and out of it, one of them absolute, one that leads nowhere. -/
def linkedOutputs : Host where
  files :=
    { entries := [(["p"], .directory), (["p", "real"], .directory),
        (["p", "out"], .link "/p/real"), (["p", "away"], .link "../q/missing")]
      distinct := by decide }
  workingDirectory := ["p"]
  home := Path.absolute []
  accounts := []

theorem isLoopFree_linkedOutputs : linkedOutputs.files.IsLoopFree := by
  have hout : linkedOutputs.files.resolveFrom [] false (linkBase "/p/real" ["p"])
      (Path.pieces "/p/real") = .ok (false, ["p", "real"]) := by cbv
  have haway : linkedOutputs.files.resolveFrom [] false (linkBase "../q/missing" ["p"])
      (Path.pieces "../q/missing") = .ok (false, ["q", "missing"]) := by cbv
  refine .of_entries fun loc target hmem => ?_
  have hlinks : (loc = ["p", "out"] ∧ target = "/p/real") ∨
      (loc = ["p", "away"] ∧ target = "../q/missing") := by
    simpa [linkedOutputs] using hmem
  rcases hlinks with ⟨rfl, rfl⟩ | ⟨rfl, rfl⟩
  · exact ⟨_, hout⟩
  · exact ⟨_, haway⟩

theorem isStraight_linkedOutputs :
    linkedOutputs.files.IsStraight linkedOutputs.workingDirectory := by
  refine (IsStraight.root _).append (c := "p") ⟨by decide, by decide, by decide⟩ (by decide) ?_
  intro target htarget
  have hdir : linkedOutputs.files.entryAt? ["p"] = some .directory := rfl
  cases hdir.symm.trans htarget

/-- The project in the working directory, with an output directory behind a link. -/
def linkedRequest : Request :=
  ⟨⟨.relative, []⟩, some { Config.standard with outputDir := "out//x/" }, none, none⟩

theorem plan_linkedRequest :
    (plan linkedOutputs linkedRequest).result.toOption.map (·.directory) =
      some (Path.absolute ["p", "real", "x"]) := by
  cbv

/-- The link into the project is followed, and the one out of it is turned down. -/
theorem linkedOutputs_stays_inside :
    (∃ p, (plan linkedOutputs linkedRequest).result = .ok p ∧
      p.directory = Path.absolute ["p", "real", "x"] ∧ MakesInside linkedOutputs linkedRequest p) ∧
      JudgesOutputDirs linkedOutputs ⟨.relative, []⟩ ∧
      Config.resolveOutputDir linkedOutputs ⟨.relative, []⟩ "away/.." =
        .error (.escapingOutputDir "away/..") := by
  obtain ⟨p, hp, hdirectory⟩ := Option.map_eq_some_iff.mp plan_linkedRequest
  have hplan := Outcome.eq_ok_of_toOption hp
  obtain ⟨hjudges, hmakes⟩ := @output_stays_inside linkedOutputs ⟨.relative, []⟩
    isStraight_linkedOutputs isLoopFree_linkedOutputs (by decide)
  exact ⟨⟨p, hplan, hdirectory, hmakes linkedRequest p rfl rfl hplan⟩, hjudges, by cbv⟩

end Project

end SolidityCalls
