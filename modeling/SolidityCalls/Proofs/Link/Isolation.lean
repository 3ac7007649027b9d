import SolidityCalls.Link.Universe
import SolidityCalls.Proofs.Link.Passes
import SolidityCalls.Proofs.Resolution.TwoRegistries

/-! Entries do not disturb each other. The contracts of an entry are gathered from the entry alone;
the types of variables are all that it shares with the others, and they are asked only when the
segments of an identifier are written. -/
namespace SolidityCalls

namespace Profile

/-- Two profiles that know the same names. They may differ in the types of variables. -/
structure SameNames (p q : Profile) : Prop where
  ignored : p.ignored = q.ignored
  contractNames : p.contractNames = q.contractNames

theorem SameNames.addFile {p q : Profile} (h : SameNames p q) (root : Node) :
    SameNames (p.addFile root) (q.addFile root) :=
  ⟨by simp only [ignored_addFile, h.ignored], by simp only [contractNames_addFile, h.contractNames]⟩

theorem SameNames.ofWalk {p q : Profile} (h : SameNames p q) (w : Walk) :
    SameNames (p.ofWalk w) (q.ofWalk w) := by
  unfold Profile.ofWalk
  induction w.closed generalizing p q with
  | nil => exact h
  | cons d ds ih => exact ih (h.addFile d.1.tree)

/-- The names that a profile run collects do not depend on the types known before it. -/
theorem SameNames.profile {p q : Profile} (h : SameNames p q) (s : Sources) (file : Path)
    (visited : NameSet) :
    SameNames (s.profile file visited p).profile (s.profile file visited q).profile := by
  unfold Sources.profile
  split
  · exact h.ofWalk _
  · exact h.ofWalk _

end Profile

theorem Sources.failure_profile_eq (s : Sources) (file : Path) (visited : NameSet)
    (p q : Profile) : (s.profile file visited p).failure = (s.profile file visited q).failure := by
  unfold Sources.profile
  split <;> rfl

namespace Universe
open Sources

/-- The universe of one entry before its calls are resolved. -/
def ofEntry (s : Sources) (entry : Path) : Except Failure Universe := do
  let file ← s.host.resolve entry
  let run := s.profile file [] Profile.empty
  match run.failure with
  | some e => .error e
  | none =>
    let (contracts, _) ←
      (s.extract ⟨run.profile.ignored, run.profile.contractNames⟩ file []).result
    return ⟨file, contracts⟩

theorem ofEntry_of_walk {s : Sources} {entry file : Path} {wp we : Walk}
    (hfile : s.host.resolve entry = .ok file) (hp : s.walk Profile.order file [] = .ok wp)
    (he : s.walk Extract.order file [] = .ok we) :
    ofEntry s entry = .ok ⟨file, Extract.ofWalk
      ⟨(Profile.empty.ofWalk wp).ignored, (Profile.empty.ofWalk wp).contractNames⟩ we⟩ := by
  simp only [ofEntry, hfile, Outcome.ok_bind, profile_of_walk hp, extract_of_walk he]
  rfl

/-- What has been gathered, with the universe of one more entry. -/
def Gathered.add (g : Gathered) (s : Sources) (u : Universe) : Gathered :=
  ⟨g.universes ++ [u],
    (s.profile u.entryFile [] { Profile.empty with registry := g.registry }).profile.registry⟩

/-- Whatever has been gathered before, an entry adds its own universe or fails on its own. -/
theorem result_gather (s : Sources) (g : Gathered) (entry : Path) :
    (gather s g entry).result = (ofEntry s entry).map (g.add s) := by
  have hsame : Profile.SameNames { Profile.empty with registry := g.registry } Profile.empty :=
    ⟨rfl, rfl⟩
  simp only [gather, ofEntry, Logged.result_bind, Logged.result_ofExcept]
  cases s.host.resolve entry with
  | error e => rfl
  | ok file =>
    -- The profile starts from the types known so far, but fails and names things as it would alone.
    have hnames := hsame.profile s file []
    have hfailure := s.failure_profile_eq file []
      { Profile.empty with registry := g.registry } Profile.empty
    dsimp only at hnames hfailure
    simp only [Outcome.ok_bind, Logged.result_pure, hnames.ignored, hnames.contractNames, hfailure]
    cases (s.profile file [] Profile.empty).failure with
    | some e => rfl
    | none =>
      simp only [Outcome.ok_bind]
      cases (s.extract ⟨(s.profile file [] Profile.empty).profile.ignored,
        (s.profile file [] Profile.empty).profile.contractNames⟩ file []).result with
      | error e => rfl
      | ok r => rfl

theorem forall₂_of_foldlM {s : Sources} {entries : List Path} {g g' : Gathered}
    (h : (entries.foldlM (gather s) g).result = .ok g') :
    ∃ us, g'.universes = g.universes ++ us ∧
      List.Forall₂ (fun entry u => ofEntry s entry = .ok u) entries us := by
  rw [Logged.result_foldlM] at h
  induction entries generalizing g with
  | nil =>
    obtain rfl := Except.ok.inj h
    exact ⟨[], (List.append_nil _).symm, .nil⟩
  | cons entry entries ih =>
    rw [List.foldlM_cons] at h
    obtain ⟨g₁, hone, hrest⟩ := Outcome.exists_of_bind_ok h
    rw [result_gather] at hone
    obtain ⟨u, hu, rfl⟩ := Outcome.exists_of_map_ok hone
    obtain ⟨us, hus, hall⟩ := ih hrest
    refine ⟨u :: us, ?_, .cons hu hall⟩
    rw [hus, Gathered.add, List.append_assoc, List.singleton_append]

theorem exists_foldlM_gather {s : Sources} {entries : List Path}
    (h : ∀ entry ∈ entries, ∃ u, ofEntry s entry = .ok u) (g : Gathered) :
    ∃ g', (entries.foldlM (gather s) g).result = .ok g' := by
  rw [Logged.result_foldlM]
  induction entries generalizing g with
  | nil => exact ⟨g, rfl⟩
  | cons entry entries ih =>
    obtain ⟨⟨u, hu⟩, hentries⟩ := List.forall_mem_cons.mp h
    rw [List.foldlM_cons, result_gather, hu]
    exact ih hentries (g.add s u)

/-- The universes of a run are those of its entries, resolved with one registry. -/
theorem forall₂_of_build {host : Host} {dependencies : Path} {tolerant : Bool}
    {entries : List Path} {universes : List Universe}
    (h : (build host dependencies tolerant entries).result = .ok universes) :
    ∃ root registry us, host.resolve dependencies = .ok root ∧
      universes = us.map (resolve registry) ∧
      List.Forall₂ (fun entry u => ofEntry ⟨host, root, tolerant⟩ entry = .ok u) entries us := by
  simp only [build, Logged.result_bind, Logged.result_ofExcept] at h
  obtain ⟨root, hroot, h⟩ := Outcome.exists_of_bind_ok h
  obtain ⟨g, hfold, hend⟩ := Outcome.exists_of_bind_ok h
  obtain ⟨us, hus, hall⟩ := forall₂_of_foldlM hfold
  refine ⟨root, g.registry, us, hroot, ?_, hall⟩
  rw [← Except.ok.inj hend, hus, List.nil_append]

/-- A run succeeds when every entry succeeds alone. -/
theorem exists_build {host : Host} {dependencies root : Path} {tolerant : Bool}
    {entries : List Path} (hroot : host.resolve dependencies = .ok root)
    (h : ∀ entry ∈ entries, ∃ u, ofEntry ⟨host, root, tolerant⟩ entry = .ok u) :
    ∃ universes, (build host dependencies tolerant entries).result = .ok universes := by
  obtain ⟨g, hg⟩ := exists_foldlM_gather h ⟨[], []⟩
  refine ⟨g.universes.map (resolve g.registry), ?_⟩
  simp only [build, Logged.result_bind, Logged.result_ofExcept, hroot, Outcome.ok_bind, hg]

/-- The universe at the place of an entry is that of the entry, resolved. -/
theorem exists_ofEntry_of_build {host : Host} {dependencies : Path} {tolerant : Bool}
    {entries : List Path} {universes : List Universe}
    (h : (build host dependencies tolerant entries).result = .ok universes) {i : Nat}
    {entry : Path} (hi : entries[i]? = some entry) :
    ∃ root registry u, host.resolve dependencies = .ok root ∧
      ofEntry ⟨host, root, tolerant⟩ entry = .ok u ∧ universes[i]? = some (u.resolve registry) := by
  obtain ⟨root, registry, us, hroot, rfl, hall⟩ := forall₂_of_build h
  obtain ⟨hlt, rfl⟩ := List.getElem?_eq_some_iff.mp hi
  have hlt' : i < us.length := hall.length_eq ▸ hlt
  refine ⟨root, registry, us[i], hroot, hall.get hlt hlt', ?_⟩
  rw [List.getElem?_map, List.getElem?_eq_getElem hlt', Option.map_some]

/-- Both walks from an entry that succeeds end well, and its contracts are those of the second. -/
theorem exists_walks_of_ofEntry {s : Sources} {entry : Path} {u : Universe}
    (h : ofEntry s entry = .ok u) :
    s.host.resolve entry = .ok u.entryFile ∧
      ∃ wp we known, s.walk Profile.order u.entryFile [] = .ok wp ∧
        s.walk Extract.order u.entryFile [] = .ok we ∧ u.contracts = Extract.ofWalk known we := by
  obtain ⟨file, hfile, h⟩ := Outcome.exists_of_bind_ok h
  dsimp only at h
  split at h
  next => cases h
  next hnone =>
    obtain ⟨wp, hwp⟩ := failure_eq_none_iff.mp hnone
    obtain ⟨⟨contracts, entered⟩, hextract, h⟩ := Outcome.exists_of_bind_ok h
    obtain ⟨we, hwe, hcontracts⟩ := exists_walk_of_extract hextract
    obtain rfl := Except.ok.inj h
    exact ⟨hfile, wp, we, _, hwp, hwe, hcontracts⟩

theorem entryFile_of_ofEntry {s : Sources} {entry : Path} {u : Universe}
    (h : ofEntry s entry = .ok u) : s.host.resolve entry = .ok u.entryFile :=
  (exists_walks_of_ofEntry h).1

/-- Two runs with a common entry build universes for it that agree: they have the same contracts
with the same functions and calls, and a call is resolved in both or in neither. The identifiers
of a resolved call name the same contract and callee, and the other entries of the runs show only
in the segments of plain names. -/
theorem build_agree_of_common_entry {host : Host} {dependencies : Path} {tolerant : Bool}
    {entries₁ entries₂ : List Path} {universes₁ universes₂ : List Universe}
    (h₁ : (build host dependencies tolerant entries₁).result = .ok universes₁)
    (h₂ : (build host dependencies tolerant entries₂).result = .ok universes₂)
    {entry : Path} {i j : Nat} (hi : entries₁[i]? = some entry) (hj : entries₂[j]? = some entry) :
    ∃ u₁ u₂, universes₁[i]? = some u₁ ∧ universes₂[j]? = some u₂ ∧
      host.resolve entry = .ok u₁.entryFile ∧ u₁.entryFile = u₂.entryFile ∧
      List.Forall₂ (Contract.Agree (u₁.contracts.map (·.name))) u₁.contracts u₂.contracts := by
  obtain ⟨root, registry₁, u, hroot, hu, hu₁⟩ := exists_ofEntry_of_build h₁ hi
  obtain ⟨root', registry₂, u', hroot', hu', hu₂⟩ := exists_ofEntry_of_build h₂ hj
  obtain rfl := Except.ok.inj (hroot.symm.trans hroot')
  obtain rfl := Except.ok.inj (hu.symm.trans hu')
  refine ⟨u.resolve registry₁, u.resolve registry₂, hu₁, hu₂, entryFile_of_ofEntry hu, rfl, ?_⟩
  have hagree := Resolution.agree_resolveAll u.contracts registry₁ registry₂
  rwa [← Resolution.map_name_resolveAll u.contracts registry₁] at hagree

/-- The first file has a function that passes a name it does not declare to another function; the
second file declares that name. -/
def twoEntries : Host where
  files :=
    { entries :=
        [(["a.sol"], sampleFile [] "A"
            [sampleNode "function_definition" none ""
              [sampleNode "identifier" (some .name) "f" [],
                sampleNode "function_body" (some .body) ""
                  [sampleNode "call_expression" none ""
                    [sampleNode "identifier" (some .function) "g" [],
                      sampleNode "identifier" none "y" []]]],
              sampleNode "function_definition" none ""
                [sampleNode "identifier" (some .name) "g" []]]),
          (["b.sol"], sampleFile [] "B"
            [sampleNode "state_variable_declaration" none ""
              [sampleNode "type_name" (some .type) "uint256" [],
                sampleNode "identifier" (some .name) "y" []]])]
      distinct := by decide }
  workingDirectory := []
  home := Path.absolute []
  accounts := []

theorem exists_ofEntry_twoEntries {entry : Path}
    (h : entry ∈ [Path.absolute ["b.sol"], Path.absolute ["a.sol"]]) :
    ∃ u, ofEntry ⟨twoEntries, Path.absolute ["lib"], false⟩ entry = .ok u := by
  have hends : twoEntries.resolve entry = .ok entry ∧
      (walk ⟨twoEntries, Path.absolute ["lib"], false⟩ Profile.order entry []).toOption.isSome ∧
      (walk ⟨twoEntries, Path.absolute ["lib"], false⟩ Extract.order entry []).toOption.isSome := by
    rcases List.mem_pair.mp h with rfl | rfl
    · exact ⟨by cbv, by cbv, by cbv⟩
    · exact ⟨by cbv, by cbv, by cbv⟩
  obtain ⟨wp, hp⟩ := Outcome.exists_of_isSome hends.2.1
  obtain ⟨we, he⟩ := Outcome.exists_of_isSome hends.2.2
  exact ⟨_, ofEntry_of_walk hends.1 hp he⟩

theorem build_agree_twoEntries :
    ∃ universes₁ universes₂,
      (build twoEntries (Path.absolute ["lib"]) false [Path.absolute ["a.sol"]]).result =
        .ok universes₁ ∧
      (build twoEntries (Path.absolute ["lib"]) false
        [Path.absolute ["b.sol"], Path.absolute ["a.sol"]]).result = .ok universes₂ ∧
      ∃ u₁ u₂, universes₁[0]? = some u₁ ∧ universes₂[1]? = some u₂ ∧
        List.Forall₂ (Contract.Agree (u₁.contracts.map (·.name))) u₁.contracts u₂.contracts := by
  have hroot : twoEntries.resolve (Path.absolute ["lib"]) = .ok (Path.absolute ["lib"]) := by cbv
  have hfirst : ∃ universes, (build twoEntries (Path.absolute ["lib"]) false
      [Path.absolute ["a.sol"]]).result = .ok universes :=
    exists_build hroot fun _ h => exists_ofEntry_twoEntries (List.mem_cons_of_mem _ h)
  obtain ⟨universes₁, h₁⟩ := hfirst
  obtain ⟨universes₂, h₂⟩ := exists_build hroot fun _ h => exists_ofEntry_twoEntries h
  obtain ⟨u₁, u₂, hu₁, hu₂, _, _, hagree⟩ :=
    build_agree_of_common_entry h₁ h₂ (i := 0) (j := 1) rfl rfl
  exact ⟨universes₁, universes₂, h₁, h₂, u₁, u₂, hu₁, hu₂, hagree⟩

end Universe
end SolidityCalls
