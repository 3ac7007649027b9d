import SolidityCalls.Proofs.CommandLine.Verify
import SolidityCalls.Proofs.Discover.Failures
import SolidityCalls.Proofs.Project.Pruning

/-! How the configuration of a project fails before any source is read. Texts that cannot be read
as a configuration, and output directories that are not accepted, are reported to the user. All
other failures stop the program: bytes that are no text, numbers and nestings that are too large,
paths without components, loops of links, unknown homes, faulty ignore files, and paths in the
project that are too long. -/
namespace SolidityCalls

theorem Path.firstPart?_eq_none_iff {p : Path} : p.firstPart? = none ↔ p = ⟨.relative, []⟩ := by
  obtain ⟨anchor, parts⟩ := p
  cases anchor <;> simp [Path.firstPart?]

namespace Config
open Outcome

variable {host : Host} {root : Path} {text : String} {e : Failure}

/-- Why a configuration is not even refused: its path is too long, its bytes are no text, or the
text has an integer or a nesting beyond what can be read. -/
inductive Unloadable (host : Host) (root : Path) : Failure → Prop where
  | longPath : host.find (root.child fileName) = .error .nameTooLong →
      Unloadable host root (.system .nameTooLong (root.child fileName))
  | undecodable {content : Content} : host.read (root.child fileName) = .ok content →
      Utf8.decode? content.bytes = none → Unloadable host root .undecodable
  | oversizedInteger {content : Content} {text : String} :
      host.read (root.child fileName) = .ok content → Utf8.decode? content.bytes = some text →
      Toml.read text = .error .oversizedInteger →
      Unloadable host root (.oversizedInteger (root.child fileName))
  | deepNesting {content : Content} {text : String} :
      host.read (root.child fileName) = .ok content → Utf8.decode? content.bytes = some text →
      Toml.read text = .error .tooDeep → Unloadable host root (.deepNesting (root.child fileName))

theorem Unloadable.isUserError (h : Unloadable host root e) : e.isUserError = false := by
  cases h <;> rfl

theorem load_of_unloadable (h : Unloadable host root e) : load host root = .error e := by
  unfold load
  rcases h with hlong | ⟨hcontent, htext⟩ | ⟨hcontent, htext, htoml⟩ | ⟨hcontent, htext, htoml⟩
  · simp only [hlong]
  · obtain ⟨loc, hfind⟩ := Host.exists_find_of_read hcontent
    simp only [hfind, htext]
  · obtain ⟨loc, hfind⟩ := Host.exists_find_of_read hcontent
    simp only [hfind, htext, htoml]
  · obtain ⟨loc, hfind⟩ := Host.exists_find_of_read hcontent
    simp only [hfind, htext, htoml]

theorem load_error (h : load host root = .error e) :
    e.isUserError = true ∨ Unloadable host root e := by
  unfold load at h
  dsimp only at h
  split at h
  next hlong =>
    obtain rfl := Except.error.inj h
    exact .inr (.longPath hlong)
  next loc content hfind =>
    have hread : host.read (root.child fileName) = .ok content := Host.read_of_find hfind
    split at h
    next hbytes =>
      obtain rfl := Except.error.inj h
      exact .inr (.undecodable hread hbytes)
    next text htext =>
      split at h
      next =>
        obtain rfl := Except.error.inj h
        exact .inl rfl
      next htoml =>
        obtain rfl := Except.error.inj h
        exact .inr (.oversizedInteger hread htext htoml)
      next htoml =>
        obtain rfl := Except.error.inj h
        exact .inr (.deepNesting hread htext htoml)
      next =>
        split at h
        next => cases h
        next =>
          obtain rfl := Except.error.inj h
          exact .inl rfl
  next => cases h

/-- Why an output directory that is accepted has no place: the project root or the path below it
is not resolved. -/
inductive Unplaceable (host : Host) (root : Path) (text : String) : Failure → Prop where
  | root {e : Failure} : text ≠ "" → text.startsWith "~" = false →
      (Path.parse text).isAbsolute = false → host.CannotResolve root e →
      Unplaceable host root text e
  | directory {base : Path} {e : Failure} : text ≠ "" → text.startsWith "~" = false →
      (Path.parse text).isAbsolute = false → host.resolve root = .ok base →
      host.CannotResolve (base.join (Path.parse text)) e → Unplaceable host root text e

theorem Unplaceable.isUserError (h : Unplaceable host root text e) : e.isUserError = false := by
  cases h with
  | root _ _ _ hresolve => exact hresolve.isUserError
  | directory _ _ _ _ hresolve => exact hresolve.isUserError

theorem resolveOutputDir_of_unplaceable (h : Unplaceable host root text e) :
    resolveOutputDir host root text = .error e := by
  cases h with
  | root hne hhome hanchor hresolve =>
    rw [resolveOutputDir, if_neg hne, hhome, hanchor, if_neg (by simp),
      Host.resolve_error_iff.mpr hresolve]
    rfl
  | directory hne hhome hanchor hbase hresolve =>
    rw [resolveOutputDir, if_neg hne, hhome, hanchor, if_neg (by simp), hbase, ok_bind,
      Host.resolve_error_iff.mpr hresolve]
    rfl

theorem resolveOutputDir_error (h : resolveOutputDir host root text = .error e) :
    e.isUserError = true ∨ Unplaceable host root text e := by
  unfold resolveOutputDir at h
  split at h
  next =>
    obtain rfl := Except.error.inj h
    exact .inl rfl
  next hne =>
    split at h
    next =>
      obtain rfl := Except.error.inj h
      exact .inl rfl
    next hbelow =>
      obtain ⟨hhome, hanchor⟩ := Bool.or_eq_false_iff.mp (Bool.eq_false_iff.mpr hbelow)
      rcases exists_of_bind_error h with hroot | ⟨base, hbase, h⟩
      · exact .inr (.root hne hhome hanchor (Host.resolve_error_iff.mp hroot))
      · rcases exists_of_bind_error h with hdirectory | ⟨found, _, h⟩
        · exact .inr (.directory hne hhome hanchor hbase (Host.resolve_error_iff.mp hdirectory))
        · split at h
          next => cases h
          next =>
            obtain rfl := Except.error.inj h
            exact .inl rfl

theorem resolve_of_resolveOutputDir {directory : Path}
    (h : resolveOutputDir host root text = .ok directory) :
    ∃ base, host.resolve root = .ok base := by
  unfold resolveOutputDir at h
  split_ifs at h
  obtain ⟨base, hbase, _⟩ := exists_of_bind_ok h
  exact ⟨base, hbase⟩

/-- Why the dependencies have no place: there is no such home, or their path is not resolved. -/
inductive Unlocatable (host : Host) (root : Path) (text : String) : Failure → Prop where
  | home {e : Failure} : host.HasNoHome (Path.parse text) e → Unlocatable host root text e
  | path {path : Path} {e : Failure} : host.expandUser (Path.parse text) = .ok path →
      host.CannotResolve (root.join path) e → Unlocatable host root text e

theorem Unlocatable.isUserError (h : Unlocatable host root text e) : e.isUserError = false := by
  cases h with
  | home hhome => exact hhome.isUserError
  | path _ hresolve => exact hresolve.isUserError

theorem resolveDependencyRoot_error_iff :
    resolveDependencyRoot host root text = .error e ↔ Unlocatable host root text e := by
  constructor
  · intro h
    rcases exists_of_bind_error h with hhome | ⟨path, hpath, hresolve⟩
    · exact .home (Host.expandUser_error_iff.mp hhome)
    · exact .path hpath (Host.resolve_error_iff.mp hresolve)
  · rintro (hhome | ⟨hpath, hresolve⟩)
    · rw [resolveDependencyRoot, Host.expandUser_error_iff.mpr hhome]
      rfl
    · rw [resolveDependencyRoot, hpath, ok_bind, Host.resolve_error_iff.mpr hresolve]

end Config

namespace Project

/-- What a run knows before it reads a source. -/
structure Setup where
  project : Project
  directory : Path
  entries : List Path
  dependencies : Path

/-- Everything that the configuration of a project decides. -/
def configure (host : Host) (root : Path) : Except Failure Setup := do
  let config ← Config.load host root
  let directory ← Config.resolveOutputDir host root config.outputDir
  let entries ← (Project.mk root config).discover host
  let dependencies ← Config.resolveDependencyRoot host root config.dependencyRoot
  return ⟨⟨root, config⟩, directory, entries, dependencies⟩

/-- A run without entries and directory of its own configures the project and links it. -/
theorem result_plan (host : Host) (r : Path) : (plan host ⟨r, none, none, none⟩).result = do
    let root ← host.resolve r
    let setup ← configure host root
    let universes ← (Universe.build host setup.dependencies
      setup.project.config.allowParseErrors setup.entries).result
    return ⟨setup.directory, setup.entries.length, .ofUniverses setup.project.root universes⟩ := by
  simp only [plan, load, outputDir, entries, configure, result_link, Logged.result_bind,
    Logged.result_ofExcept, Logged.result_pure, bind_assoc, pure_bind]
  rfl

section Escapes
open SolidityCalls.Outcome

variable {host : Host} {root : Path} {e : Failure}

/-- What is left out of the discovery of a project, given the names that are skipped. -/
def selection (p : Project) (skipped : List String) : Selection :=
  ⟨skipped, p.config.includes, p.config.excludes, p.config.nestedIgnores⟩

/-- Why the configuration of a project stops the program. A step fails only where the steps before
it succeed. -/
inductive Escapes (host : Host) (root : Path) : Failure → Prop where
  | load {e : Failure} : Config.Unloadable host root e → Escapes host root e
  | output {config : Config} {e : Failure} : Config.load host root = .ok config →
      Config.Unplaceable host root config.outputDir e → Escapes host root e
  | pathless {config : Config} {directory : Path} {text : String} :
      Config.load host root = .ok config →
      Config.resolveOutputDir host root config.outputDir = .ok directory →
      text ∈ [config.outputDir, config.dependencyRoot] → Path.parse text = ⟨.relative, []⟩ →
      Escapes host root .emptyPath
  | search {config : Config} {directory : Path} {skipped : List String} {base : Location}
      {e : Failure} : Config.load host root = .ok config →
      Config.resolveOutputDir host root config.outputDir = .ok directory →
      (Project.mk root config).skippedDirs = .ok skipped → host.find root = .ok (base, .directory) →
      Discover.SearchFault host root base ((Project.mk root config).selection skipped) e →
      Escapes host root e
  | dependencies {config : Config} {directory : Path} {entries : List Path} {e : Failure} :
      Config.load host root = .ok config →
      Config.resolveOutputDir host root config.outputDir = .ok directory →
      (Project.mk root config).discover host = .ok entries →
      Config.Unlocatable host root config.dependencyRoot e → Escapes host root e

theorem skippedDirs_error_iff {p : Project} : p.skippedDirs = .error e ↔ e = .emptyPath ∧
    ∃ text ∈ [p.config.outputDir, p.config.dependencyRoot], Path.parse text = ⟨.relative, []⟩ := by
  constructor
  · intro h
    obtain ⟨text, htext, h⟩ := exists_of_mapM_error h
    split at h
    next => cases h
    next hnone =>
      exact ⟨(Except.error.inj h).symm, text, htext, Path.firstPart?_eq_none_iff.mp hnone⟩
  · rintro ⟨rfl, text, htext, hempty⟩
    cases hskipped : p.skippedDirs with
    | ok skipped =>
      obtain ⟨_, _, hok⟩ := exists_ok_of_mapM hskipped htext
      rw [Path.firstPart?_eq_none_iff.mpr hempty] at hok
      cases hok
    | error e =>
      obtain ⟨_, _, herror⟩ := exists_of_mapM_error hskipped
      split at herror
      next => cases herror
      next => exact congrArg Except.error (Except.error.inj herror).symm

/-- A failure to find the entries is never reported to the user. -/
theorem discover_error {config : Config} {directory : Path}
    (hload : Config.load host root = .ok config)
    (houtput : Config.resolveOutputDir host root config.outputDir = .ok directory)
    (h : (Project.mk root config).discover host = .error e) : Escapes host root e := by
  rcases exists_of_bind_error h with hskipped | ⟨skipped, hskipped, h⟩
  · obtain ⟨rfl, text, htext, hempty⟩ := skippedDirs_error_iff.mp hskipped
    exact .pathless hload houtput htext hempty
  · obtain ⟨q, hresolve⟩ := Config.resolve_of_resolveOutputDir houtput
    rcases exists_of_bind_error h with h | ⟨_, _, h⟩
    · rcases Discover.sources_error hresolve h with hlong | ⟨base, hfind, hfault⟩
      · -- The path of the configuration is longer still, and it was looked up before.
        have hnul : Host.holdsNul Config.fileName = false := by
          simp [Host.holdsNul, Config.fileName]
        have hchild : host.find (root.child Config.fileName) = .error .nameTooLong :=
          Host.find_child_of_nameTooLong (by decide) hnul hlong
        cases hload.symm.trans (Config.load_of_unloadable (.longPath hchild))
      · exact .search hload houtput hskipped hfind hfault
    · cases h

theorem Escapes.isUserError (h : Escapes host root e) : e.isUserError = false := by
  cases h with
  | load hload => exact hload.isUserError
  | output _ houtput => exact houtput.isUserError
  | pathless => rfl
  | search _ _ _ _ hfault => exact hfault.isUserError
  | dependencies _ _ _ hdependencies => exact hdependencies.isUserError

/-- Only the first two steps refuse anything. -/
theorem configure_error_cases (h : configure host root = .error e) :
    Config.load host root = .error e ∨
      (∃ config, Config.load host root = .ok config ∧
        Config.resolveOutputDir host root config.outputDir = .error e) ∨
      Escapes host root e := by
  rcases exists_of_bind_error h with hload | ⟨config, hload, h⟩
  · exact .inl hload
  rcases exists_of_bind_error h with houtput | ⟨directory, houtput, h⟩
  · exact .inr (.inl ⟨config, hload, houtput⟩)
  rcases exists_of_bind_error h with hdiscover | ⟨entries, hdiscover, h⟩
  · exact .inr (.inr (discover_error hload houtput hdiscover))
  rcases exists_of_bind_error h with hdependencies | ⟨_, _, h⟩
  · have hplace := Config.resolveDependencyRoot_error_iff.mp hdependencies
    exact .inr (.inr (.dependencies hload houtput hdiscover hplace))
  · cases h

/-- A configuration is refused or stops the program. -/
theorem configure_error (h : configure host root = .error e) :
    e.isUserError = true ∨ Escapes host root e := by
  rcases configure_error_cases h with hload | ⟨config, hload, houtput⟩ | hescapes
  · exact (Config.load_error hload).imp_right .load
  · exact (Config.resolveOutputDir_error houtput).imp_right (.output hload)
  · exact .inr hescapes

/-- One fault is enough. -/
theorem configure_of_escapes (h : Escapes host root e) :
    ∃ e', configure host root = .error e' ∧ e'.isUserError = false := by
  cases h with
  | load hload =>
    refine ⟨e, ?_, hload.isUserError⟩
    rw [configure, Config.load_of_unloadable hload]
    rfl
  | output hload houtput =>
    refine ⟨e, ?_, houtput.isUserError⟩
    rw [configure, hload, ok_bind, Config.resolveOutputDir_of_unplaceable houtput]
    rfl
  | @pathless config directory text hload houtput htext hempty =>
    refine ⟨.emptyPath, ?_, rfl⟩
    have hskipped : (Project.mk root config).skippedDirs = .error .emptyPath :=
      skippedDirs_error_iff.mpr ⟨rfl, text, htext, hempty⟩
    rw [configure, hload, ok_bind, houtput, ok_bind, discover, hskipped]
    rfl
  | @search config directory skipped base _ hload houtput hskipped hfind hfault =>
    -- The search may meet another fault first.
    cases hdiscover : (Project.mk root config).discover host with
    | ok entries =>
      rw [discover, hskipped, ok_bind] at hdiscover
      obtain ⟨_, hsources, _⟩ := exists_of_bind_ok hdiscover
      exact absurd hfault (Discover.not_searchFault_of_sources hfind hsources)
    | error e' =>
      refine ⟨e', ?_, (discover_error hload houtput hdiscover).isUserError⟩
      rw [configure, hload, ok_bind, houtput, ok_bind, hdiscover]
      rfl
  | dependencies hload houtput hdiscover hdependencies =>
    refine ⟨e, ?_, hdependencies.isUserError⟩
    rw [configure, hload, ok_bind, houtput, ok_bind, hdiscover, ok_bind,
      Config.resolveDependencyRoot_error_iff.mpr hdependencies]
    rfl

/-- What a configuration is refused for is told before anything else. -/
theorem log_plan_of_refused {r : Path} (hroot : host.resolve r = .ok root)
    (h : configure host root = .error e) (hrefused : e.isUserError = true) :
    (plan host ⟨r, none, none, none⟩).log = [] := by
  rcases configure_error_cases h with hload | ⟨config, hload, houtput⟩ | hescapes
  · simp only [plan, load, hroot, hload, ok_bind]
    rfl
  · simp only [plan, load, hroot, hload, ok_bind]
    show (Logged.ofExcept (Config.resolveOutputDir host root config.outputDir) >>= _).log = []
    rw [houtput]
    rfl
  · rw [hescapes.isUserError] at hrefused
    cases hrefused

end Escapes

end Project

namespace CommandLine
open Project

variable {host : Host} {args : List String} {v : Nat} {text : String} {r root : Path} {e : Failure}

theorem run_of_plan_error (hargs : Invocation.parse args = .ok ⟨v, text, .generate none none⟩)
    (hr : located host text = .ok r)
    (h : (plan host ⟨r, none, none, none⟩).result = .error e) :
    (run host args).files = host.files ∧ (run host args).result =
      (recover (.error e)).map fun ending => { ending with
        stderr := eventText v (plan host ⟨r, none, none, none⟩).log ++ ending.stderr } := by
  have hrequest : request host r none none = .ok ⟨r, none, none, none⟩ := rfl
  simp only [run, hargs, Invocation.run, hr, act, generate, hrequest, Project.generate, h]
  exact ⟨trivial, rfl⟩

/-- A call that generates answers a configuration that is refused with the exit code 2 and a line
that tells why. Where the configuration has a fault that nobody refuses, the call itself fails. In
both cases the files stay as they are. -/
theorem run_of_configure_error
    (hargs : Invocation.parse args = .ok ⟨v, text, .generate none none⟩)
    (hr : located host text = .ok r) (hroot : host.resolve r = .ok root) :
    (∀ e, configure host root = .error e → (run host args).files = host.files ∧
      ((e.isUserError = true ∧ (run host args).result = .ok (.quiet 2 (errorText e))) ∨
        (Escapes host root e ∧ (run host args).result = .error e))) ∧
    ((∃ e, Escapes host root e) →
      ∃ e, configure host root = .error e ∧ (run host args).result = .error e) := by
  have hplan {e : Failure} (h : configure host root = .error e) :
      (plan host ⟨r, none, none, none⟩).result = .error e := by
    rw [result_plan, hroot, Outcome.ok_bind, h]
    rfl
  have hstops {e : Failure} (h : configure host root = .error e) (hnot : e.isUserError = false) :
      (run host args).result = .error e := by
    rw [(run_of_plan_error hargs hr (hplan h)).2, recover, if_neg (by simp [hnot])]
    rfl
  constructor
  · intro e h
    obtain ⟨hfiles, hresult⟩ := run_of_plan_error hargs hr (hplan h)
    refine ⟨hfiles, ?_⟩
    rcases configure_error h with hrefused | hescapes
    · left
      rw [recover, if_pos hrefused, log_plan_of_refused hroot h hrefused] at hresult
      refine ⟨hrefused, hresult.trans ?_⟩
      show Except.ok (Ending.quiet 2 ("" ++ errorText e)) = _
      rw [String.empty_append]
    · exact .inr ⟨hescapes, hstops h hescapes.isUserError⟩
  · rintro ⟨e, hescapes⟩
    obtain ⟨e', h, hnot⟩ := configure_of_escapes hescapes
    exact ⟨e', h, hstops h hnot⟩

/-- A project that is only a configuration. -/
def configured (bytes : Bytes) : Host where
  files := { entries := [(["solgraph.toml"], .file ⟨bytes, default⟩)], distinct := by simp }
  workingDirectory := []
  home := Path.absolute []
  accounts := []

theorem find_configured (bytes : Bytes) :
    (configured bytes).find (Path.absolute ["solgraph.toml"]) =
      .ok (["solgraph.toml"], .file ⟨bytes, default⟩) := by
  rw [Host.find_absolute fault?_configName]
  cbv

theorem resolve_configured (bytes : Bytes) :
    (configured bytes).resolve (Path.absolute []) = .ok (Path.absolute []) := by
  cbv

theorem unloadable_configured :
    Config.Unloadable (configured [0xff]) (Path.absolute []) .undecodable := by
  have hread : (configured [0xff]).read ((Path.absolute []).child Config.fileName) =
      .ok ⟨[0xff], default⟩ := by
    rw [child_configName, Host.read, find_configured]
  exact .undecodable hread (by cbv)

theorem configure_configured :
    configure (configured [0xff]) (Path.absolute []) = .error .undecodable := by
  rw [configure, Config.load_of_unloadable unloadable_configured]
  rfl

theorem run_configured :
    (run (configured (Utf8.encode "=")) ["generate"]).result =
        .ok (.quiet 2 "error: Invalid TOML in /solgraph.toml\n") ∧
      (run (configured [0xff]) ["generate"]).result = .error .undecodable := by
  have hmalformed : configure (configured (Utf8.encode "=")) (Path.absolute []) =
      .error (.invalidToml (Path.absolute ["solgraph.toml"])) := by
    have htoml : Toml.read "=" = .error .malformed := by cbv
    simp only [configure, Config.load, child_configName, find_configured, Utf8.decode?_encode,
      htoml]
    rfl
  obtain ⟨hrefused, -⟩ := run_of_configure_error parse_generate (located_here _)
    (resolve_configured (Utf8.encode "="))
  obtain ⟨-, hstops⟩ := run_of_configure_error parse_generate (located_here _)
    (resolve_configured [0xff])
  constructor
  · obtain ⟨-, ⟨-, hresult⟩ | ⟨hescapes, -⟩⟩ := hrefused _ hmalformed
    · exact hresult
    · cases hescapes.isUserError
  · obtain ⟨e, hconfigure, hresult⟩ := hstops ⟨_, .load unloadable_configured⟩
    obtain rfl := Except.error.inj (hconfigure.symm.trans configure_configured)
    exact hresult

/-- A configuration of one byte that is no text is answered with no exit code. -/
theorem undecodable_configuration_stops :
    configure (configured [0xff]) (Path.absolute []) = .error .undecodable ∧
      Failure.undecodable.isUserError = false ∧
      ∀ ending, (run (configured [0xff]) ["generate"]).result ≠ .ok ending := by
  have hplan : (plan (configured [0xff]) ⟨Path.absolute [], none, none, none⟩).result =
      .error .undecodable := by
    rw [result_plan, resolve_configured, Outcome.ok_bind, configure_configured]
    rfl
  refine ⟨configure_configured, rfl, ?_⟩
  intro ending hresult
  rw [(run_of_plan_error parse_generate (located_here _) hplan).2] at hresult
  cases hresult

end CommandLine
end SolidityCalls
