import SolidityCalls.Link.Extract
import SolidityCalls.Link.Profile
import SolidityCalls.Proofs.Link.Closure
import Mathlib

/-! The two passes over the sources, which follow imports in different orders, see the same files:
those that the entry leads to. The contracts that one pass extracts are the declarations of these
files, and their names are those that the other pass collects. -/
namespace SolidityCalls

theorem Import.mem_of_provider? {name : String} {paths : List Path} {p : Path}
    (h : provider? name paths = some p) : p ∈ paths := by
  rcases Option.or_eq_some_iff.mp h with hstem | ⟨_, hname⟩
  · exact List.mem_of_find?_eq_some hstem
  · split at hname
    · cases hname
    · exact List.mem_of_find?_eq_some hname

namespace Profile

theorem order_isCovering : Sources.Order.IsCovering order := by
  intro source imports target
  simp [order]

theorem contractNames_foldl (ds : List (ContractKind × Node)) (p : Profile) :
    (ds.foldl (fun p c => p.addContract c.2) p).contractNames =
      p.contractNames.addAll (ds.map fun c => c.2.declaredName) := by
  induction ds generalizing p with
  | nil => rfl
  | cons d ds ih => exact ih (p.addContract d.2)

theorem ignored_foldl (ds : List (ContractKind × Node)) (p : Profile) :
    (ds.foldl (fun p c => p.addContract c.2) p).ignored = p.ignored := by
  induction ds generalizing p with
  | nil => rfl
  | cons d ds ih => exact ih (p.addContract d.2)

@[simp] theorem contractNames_addFile (p : Profile) (root : Node) :
    (p.addFile root).contractNames =
      p.contractNames.addAll (root.contractDeclarations.map fun c => c.2.declaredName) :=
  contractNames_foldl _ _

@[simp] theorem ignored_addFile (p : Profile) (root : Node) :
    (p.addFile root).ignored = p.ignored.addAll (root.namesDeclared ignoredKinds) :=
  ignored_foldl _ _

/-- A profile collects the names of the contracts of all files that were closed. -/
theorem mem_contractNames_ofWalk {p : Profile} {w : Walk} {name : String} :
    name ∈ (p.ofWalk w).contractNames ↔ name ∈ p.contractNames ∨
      ∃ d ∈ w.closed, ∃ c ∈ d.1.tree.contractDeclarations, c.2.declaredName = name := by
  unfold ofWalk
  induction w.closed generalizing p with
  | nil => simp
  | cons d ds ih =>
    rw [List.foldl_cons, ih, contractNames_addFile, NameSet.mem_addAll, List.mem_map,
      List.exists_mem_cons_iff, or_assoc]

end Profile

namespace Extract

theorem mem_of_mem_providers {imports : List Path} {reason : Reason} {names : List String}
    {t : Reason × Path} (h : t ∈ providers imports reason names) : t.2 ∈ imports := by
  obtain ⟨p, hp, rfl⟩ := List.mem_map.mp h
  obtain ⟨name, _, hname⟩ := List.mem_filterMap.mp hp
  exact Import.mem_of_provider? hname

/-- Whatever imports provide the names of bases and base calls, all imports are followed. -/
theorem order_isCovering : Sources.Order.IsCovering order := by
  intro source imports target
  constructor
  · intro hmem
    exact ⟨.plainImport, List.mem_append_right _ (List.mem_map_of_mem hmem)⟩
  · rintro ⟨reason, hmem⟩
    rcases List.mem_append.mp hmem with hmem | hmem
    · rcases List.mem_append.mp hmem with hmem | hmem
      · exact mem_of_mem_providers hmem
      · exact mem_of_mem_providers hmem
    · obtain ⟨p, hp, heq⟩ := List.mem_map.mp hmem
      obtain ⟨_, rfl⟩ := Prod.mk.inj heq
      exact hp

variable {known : KnownNames} {source : Source} {imports : List Path}

theorem sourcePath_of_mem_contractsOf {c : Contract} (h : c ∈ contractsOf known source imports) :
    c.sourcePath = source.path.render := by
  obtain ⟨d, _, rfl⟩ := List.mem_map.mp h
  rfl

/-- The contracts of a file are its declarations. -/
theorem contractsOf_map_declaration :
    (contractsOf known source imports).map (fun c => (c.kind, c.name)) =
      source.tree.contractDeclarations.map fun d => (d.1, d.2.declaredName) := by
  simp [contractsOf, Function.comp_def]

/-- A list put together of blocks with distinct keys holds each block once. -/
theorem filter_flatMap_of_nodup {α β : Type} {key : α → String} {tag : β → String}
    {block : α → List β} {xs : List α} (hkeys : (xs.map key).Nodup)
    (htag : ∀ x ∈ xs, ∀ b ∈ block x, tag b = key x) {x : α} (hx : x ∈ xs) :
    (xs.flatMap block).filter (fun b => tag b = key x) = block x := by
  induction xs with
  | nil => cases hx
  | cons y ys ih =>
    rw [List.map_cons, List.nodup_cons] at hkeys
    obtain ⟨hy, hys⟩ := List.forall_mem_cons.mp htag
    rw [List.flatMap_cons, List.filter_append]
    rcases List.mem_cons.mp hx with rfl | hx
    · have hrest : (ys.flatMap block).filter (fun b => tag b = key x) = [] := by
        refine List.filter_eq_nil_iff.mpr fun b hb => ?_
        obtain ⟨z, hz, hbz⟩ := List.mem_flatMap.mp hb
        have hne : key z ≠ key x := fun he => hkeys.1 (he ▸ List.mem_map_of_mem hz)
        simpa [hys z hz b hbz] using hne
      have hown : (block x).filter (fun b => tag b = key x) = block x :=
        List.filter_eq_self.mpr fun b hb => by simpa using hy b hb
      rw [hown, hrest, List.append_nil]
    · have hne : key y ≠ key x := fun he => hkeys.1 (he ▸ List.mem_map_of_mem hx)
      have hother : (block y).filter (fun b => tag b = key x) = [] :=
        List.filter_eq_nil_iff.mpr fun b hb => by simpa [hy b hb] using hne
      rw [hother, List.nil_append]
      exact ih hkeys.2 hys hx

variable {s : Sources} {entry : Path} {w : Walk}

/-- Every file that the entry leads to gives one contract for each of its declarations. -/
theorem filter_ofWalk (h : s.Covers entry w) {f : Path} {source : Source}
    (hf : s.Reaches entry f) (hload : s.load f = .ok source) :
    ((ofWalk known w).filter fun c => c.sourcePath = f.render).map (fun c => (c.kind, c.name)) =
      source.tree.contractDeclarations.map fun d => (d.1, d.2.declaredName) := by
  obtain ⟨d, hd, rfl⟩ := h.exists_mem_closed hf
  obtain rfl := Except.ok.inj ((h.load_closed d hd).symm.trans hload)
  have hblock : (ofWalk known w).filter (fun c => c.sourcePath = d.1.path.render) =
      contractsOf known d.1 d.2 :=
    filter_flatMap_of_nodup h.nodup_closed (fun _ _ _ hc => sourcePath_of_mem_contractsOf hc) hd
  rw [hblock, contractsOf_map_declaration]

theorem exists_reaches_of_mem_ofWalk (h : s.Covers entry w) {c : Contract}
    (hc : c ∈ ofWalk known w) : ∃ f, s.Reaches entry f ∧ c.sourcePath = f.render := by
  obtain ⟨d, hd, hmem⟩ := List.mem_flatMap.mp hc
  exact ⟨d.1.path, (h.mem_closed.mp hd).1, sourcePath_of_mem_contractsOf hmem⟩

/-- The names of extracted contracts are those declared in the closed files. -/
theorem mem_names_ofWalk {name : String} :
    name ∈ (ofWalk known w).map (·.name) ↔
      ∃ d ∈ w.closed, ∃ c ∈ d.1.tree.contractDeclarations, c.2.declaredName = name := by
  simp only [ofWalk, List.map_flatMap, List.mem_flatMap]
  refine exists_congr fun d => and_congr_right fun _ => ?_
  simp [contractsOf]

end Extract

namespace Sources

theorem profile_of_walk {s : Sources} {file : Path} {visited : NameSet} {w : Walk}
    (h : s.walk Profile.order file visited = .ok w) (p : Profile) :
    s.profile file visited p = ⟨w.visited, p.ofWalk w, Profile.log w, none⟩ := by
  simp only [profile, h]

theorem failure_of_halt {s : Sources} {file : Path} {visited : NameSet} {halt : Halt}
    (h : s.walk Profile.order file visited = .error halt) (p : Profile) :
    (s.profile file visited p).failure = some halt.cause := by
  simp only [profile, h]

theorem extract_of_walk {s : Sources} {file : Path} {visited : NameSet} {w : Walk}
    (h : s.walk Extract.order file visited = .ok w) (known : KnownNames) :
    s.extract known file visited =
      ⟨Extract.log w, .ok (Extract.ofWalk known w, w.visited)⟩ := by
  simp only [extract, h]

theorem extract_of_halt {s : Sources} {file : Path} {visited : NameSet} {halt : Halt}
    (h : s.walk Extract.order file visited = .error halt) (known : KnownNames) :
    s.extract known file visited = ⟨Extract.log halt.walk, .error halt.cause⟩ := by
  simp only [extract, h]

theorem failure_eq_none_iff {s : Sources} {file : Path} {visited : NameSet} {p : Profile} :
    (s.profile file visited p).failure = none ↔
      ∃ w, s.walk Profile.order file visited = .ok w := by
  cases h : s.walk Profile.order file visited with
  | ok w => simp [profile_of_walk h]
  | error halt => simp [failure_of_halt h]

theorem exists_extract_iff {s : Sources} {known : KnownNames} {file : Path} {visited : NameSet} :
    (∃ r, (s.extract known file visited).result = .ok r) ↔
      ∃ w, s.walk Extract.order file visited = .ok w := by
  cases h : s.walk Extract.order file visited with
  | ok w => simp [extract_of_walk h]
  | error halt => simp [extract_of_halt h]

theorem exists_walk_of_extract {s : Sources} {known : KnownNames} {file : Path}
    {visited entered : NameSet} {contracts : List Contract}
    (h : (s.extract known file visited).result = .ok (contracts, entered)) :
    ∃ w, s.walk Extract.order file visited = .ok w ∧ contracts = Extract.ofWalk known w := by
  obtain ⟨w, hw⟩ := exists_extract_iff.mp ⟨_, h⟩
  rw [extract_of_walk hw] at h
  obtain ⟨hcontracts, _⟩ := Prod.mk.inj (Except.ok.inj h)
  exact ⟨w, hw, hcontracts.symm⟩

theorem profile_ne_endless {s : Sources} {entry : Path} (hentry : entry.IsResolved)
    (hdeps : s.dependencies.IsResolved) (p : Profile) :
    (s.profile entry [] p).failure ≠ some .endlessImports := by
  intro hend
  cases hwalk : s.walk Profile.order entry [] with
  | ok w => simp [profile_of_walk hwalk] at hend
  | error halt =>
    rw [failure_of_halt hwalk] at hend
    exact walk_ne_endless Profile.order_isCovering hentry hdeps hwalk (Option.some.inj hend)

theorem extract_ne_endless {s : Sources} {entry : Path} (hentry : entry.IsResolved)
    (hdeps : s.dependencies.IsResolved) (known : KnownNames) :
    (s.extract known entry []).result ≠ .error .endlessImports := by
  intro hend
  cases hwalk : s.walk Extract.order entry [] with
  | ok w => simp [extract_of_walk hwalk] at hend
  | error halt =>
    rw [extract_of_halt hwalk] at hend
    exact walk_ne_endless Extract.order_isCovering hentry hdeps hwalk (Except.error.inj hend)

/-- Both passes end well, or neither does. -/
theorem exists_profile_walk_iff {s : Sources} {entry : Path} (hentry : entry.IsResolved)
    (hdeps : s.dependencies.IsResolved) :
    (∃ w, s.walk Profile.order entry [] = .ok w) ↔ ∃ w, s.walk Extract.order entry [] = .ok w :=
  (exists_walk_iff Profile.order_isCovering hentry hdeps).trans
    (exists_walk_iff Extract.order_isCovering hentry hdeps).symm

/-- Neither pass is stopped by the number of its steps, and one ends well if the other does. Then
both have entered the files that the entry leads to, and no others, and have parsed each of them
once. Each of these files gives one contract for each of its declarations, there are no other
contracts, and their names are those in the profile. -/
theorem passes_cover_closure (s : Sources) (ignored : NameSet) (registry : Registry)
    (known : KnownNames) {entry : Path} (hentry : entry.IsResolved)
    (hdeps : s.dependencies.IsResolved) :
    let run := s.profile entry [] ⟨ignored, [], registry⟩
    let extraction := (s.extract known entry []).result
    (run.failure ≠ some .endlessImports ∧ extraction ≠ .error .endlessImports) ∧
    (run.failure = none ↔ ∃ result, extraction = .ok result) ∧
    ∀ contracts visited, extraction = .ok (contracts, visited) →
      (∀ text, text ∈ run.visited ↔ ∃ f, s.Reaches entry f ∧ f.render = text) ∧
      (∀ text, text ∈ visited ↔ ∃ f, s.Reaches entry f ∧ f.render = text) ∧
      (∀ order ∈ [Profile.order, Extract.order], ∀ f,
        (s.Reaches entry f → (s.parsed order entry).count f = 1) ∧
        (f ∈ s.parsed order entry → s.Reaches entry f)) ∧
      (∀ f, s.Reaches entry f → ∃ source, s.load f = .ok source ∧
        (contracts.filter fun c => c.sourcePath = f.render).map (fun c => (c.kind, c.name)) =
          source.tree.contractDeclarations.map fun d => (d.1, d.2.declaredName)) ∧
      (∀ c ∈ contracts, ∃ f, s.Reaches entry f ∧ c.sourcePath = f.render) ∧
      (∀ name, name ∈ contracts.map (·.name) ↔ name ∈ run.profile.contractNames) := by
  intro run extraction
  refine ⟨⟨profile_ne_endless hentry hdeps _, extract_ne_endless hentry hdeps known⟩, ?_, ?_⟩
  · rw [failure_eq_none_iff, exists_profile_walk_iff hentry hdeps, exists_extract_iff]
  · intro contracts visited hextract
    obtain ⟨we, hwe⟩ := exists_extract_iff.mp ⟨_, hextract⟩
    obtain ⟨wp, hwp⟩ := (exists_profile_walk_iff hentry hdeps).mpr ⟨we, hwe⟩
    have hprofile := walk_covers Profile.order_isCovering hentry hdeps hwp
    have hcovers := walk_covers Extract.order_isCovering hentry hdeps hwe
    have hrun : run = ⟨wp.visited, Profile.ofWalk ⟨ignored, [], registry⟩ wp, _, none⟩ :=
      profile_of_walk hwp _
    simp only [extraction, extract_of_walk hwe] at hextract
    obtain ⟨rfl, rfl⟩ := Prod.mk.inj (Except.ok.inj hextract)
    rw [hrun]
    refine ⟨hprofile.mem_visited, hcovers.mem_visited, ?_, ?_, ?_, ?_⟩
    · intro order horder
      rcases List.mem_pair.mp horder with rfl | rfl
      · exact parsed_of_walk Profile.order_isCovering hentry hdeps hwp
      · exact parsed_of_walk Extract.order_isCovering hentry hdeps hwe
    · intro f hf
      obtain ⟨d, hd, rfl⟩ := hcovers.exists_mem_closed hf
      exact ⟨d.1, hcovers.load_closed d hd,
        Extract.filter_ofWalk hcovers hf (hcovers.load_closed d hd)⟩
    · exact fun c hc => Extract.exists_reaches_of_mem_ofWalk hcovers hc
    · intro name
      rw [Extract.mem_names_ofWalk, Profile.mem_contractNames_ofWalk]
      simp [hprofile.mem_closed, hcovers.mem_closed]

/-- A node of a sample tree. -/
def sampleNode (kind : String) (field : Option Field) (text : String) (children : List Node) :
    Node :=
  ⟨kind, true, false, false, field, 0, text, children⟩

/-- A sample file with one contract after its import directives. -/
def sampleFile (imported : List String) (name : String) (members : List Node) : Entry :=
  let directives := imported.map fun text =>
    sampleNode "import_directive" none "" [sampleNode "string" (some .source) text []]
  let contract := sampleNode "contract_declaration" none ""
    [sampleNode "identifier" (some .name) name [],
      sampleNode "contract_body" (some .body) "" members]
  .file ⟨[], sampleNode "source_file" none "" (directives ++ [contract])⟩

/-- Two files that import each other, one of them through a link. -/
def linkedCycle : Sources where
  host :=
    { files :=
        { entries :=
            [(["a.sol"], sampleFile ["./b.sol"] "A" []),
              (["b.sol"], sampleFile ["./alias.sol"] "B" []), (["alias.sol"], .link "a.sol")]
          distinct := by decide }
      workingDirectory := []
      home := Path.absolute []
      accounts := [] }
  dependencies := Path.absolute ["lib"]
  tolerant := false

theorem linkedCycle_profile_ends (p : Profile) :
    (linkedCycle.profile (Path.absolute ["a.sol"]) [] p).failure = none := by
  have hbound : linkedCycle.bound = 12 := by cbv
  rw [failure_eq_none_iff, walk, hbound]
  apply Outcome.exists_of_isSome
  cbv

theorem passes_cover_linkedCycle :
    (Path.absolute ["a.sol"]).IsResolved ∧ linkedCycle.dependencies.IsResolved ∧
      (linkedCycle.profile (Path.absolute ["a.sol"]) [] ⟨[], [], []⟩).failure = none ∧
      ∃ contracts visited,
        (linkedCycle.extract ⟨[], []⟩ (Path.absolute ["a.sol"]) []).result =
          .ok (contracts, visited) ∧
        (∀ text, text ∈ visited ↔
          ∃ f, linkedCycle.Reaches (Path.absolute ["a.sol"]) f ∧ f.render = text) ∧
        (linkedCycle.parsed Extract.order (Path.absolute ["a.sol"])).count
          (Path.absolute ["a.sol"]) = 1 := by
  have hentry : (Path.absolute ["a.sol"]).IsResolved :=
    ⟨rfl, List.forall_mem_singleton.mpr ⟨by decide, by decide, by decide⟩⟩
  have hdeps : linkedCycle.dependencies.IsResolved :=
    ⟨rfl, List.forall_mem_singleton.mpr ⟨by decide, by decide, by decide⟩⟩
  have hcover := passes_cover_closure linkedCycle [] [] ⟨[], []⟩ hentry hdeps
  have hends := linkedCycle_profile_ends ⟨[], [], []⟩
  obtain ⟨⟨contracts, visited⟩, hextract⟩ := hcover.2.1.mp hends
  obtain ⟨_, hvisited, hparsed, _⟩ := hcover.2.2 contracts visited hextract
  exact ⟨hentry, hdeps, hends, contracts, visited, hextract, hvisited,
    (hparsed Extract.order (by simp) (Path.absolute ["a.sol"])).1 .refl⟩

end Sources
end SolidityCalls
