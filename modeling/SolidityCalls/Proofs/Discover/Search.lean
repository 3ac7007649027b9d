import SolidityCalls.Proofs.Data.Outcome
import SolidityCalls.Proofs.Host.PathLength
import SolidityCalls.Proofs.Project.AfterStore

/-! What a search for sources asks for: the ignore files of the directories that are searched, the
paths of all directories, and the names of sources. If none of these paths is at fault, the sources
are the candidates that are selected. -/
namespace SolidityCalls

namespace Discover
open FileSystem Outcome

variable {host : Host} {fs : FileSystem} {directory : Path} {base rel : Location} {nested : Bool}
  {s : Selection} {ignores : List IgnoreFile} {e : Failure}

section IgnoreFiles

/-- The directories in which an ignore file is looked for. -/
def searched (fs : FileSystem) (base : Location) (nested : Bool) : List Location :=
  if nested then
    [] :: (fs.below base).filterMap fun
      | (rel, .directory) => some rel
      | _ => none
  else [[]]

theorem ignoreDirectories_eq_bind (host : Host) (directory : Path) (base : Location)
    (nested : Bool) : ignoreDirectories host directory base nested =
      (searched host.files base nested).filterM
          (fun rel => host.isFile (ignorePath directory rel)) >>=
        fun found => .ok ((sortedByPath (found.map (· ++ [ignoreName]))).map List.dropLast) := rfl

/-- The directories with an ignore file are those where one stands. -/
theorem ignoreDirectories_eq (h : ∀ rel ∈ searched host.files base nested,
      host.find (ignorePath directory rel) ≠ .error .nameTooLong) :
    ignoreDirectories host directory base nested =
      .ok ((sortedByPath (((searched host.files base nested).filter fun rel =>
        (host.fileAt? (ignorePath directory rel)).isSome).map (· ++ [ignoreName]))).map
          List.dropLast) := by
  rw [ignoreDirectories_eq_bind,
    filterM_of_forall_ok fun rel hrel => Host.isFile_eq (h rel hrel), ok_bind]

theorem find_ne_of_ignoreDirectories {found : List Location}
    (h : ignoreDirectories host directory base nested = .ok found) :
    ∀ rel ∈ searched host.files base nested,
      host.find (ignorePath directory rel) ≠ .error .nameTooLong := by
  intro rel hrel
  obtain ⟨_, hfilter, _⟩ := exists_of_bind_ok h
  obtain ⟨b, hb⟩ := forall_ok_of_filterM hfilter rel hrel
  exact Host.find_ne_of_isFile hb

theorem directory_of_mem_searched (hbase : fs.entryAt? base = some .directory)
    (h : rel ∈ searched fs base nested) :
    fs.entryAt? (base ++ rel) = some .directory ∧ (rel = [] ∨ nested) := by
  unfold searched at h
  split at h
  next hnested =>
    rcases List.mem_cons.mp h with rfl | h
    · rw [List.append_nil]
      exact ⟨hbase, .inl rfl⟩
    · obtain ⟨⟨rel', e⟩, hmem, heq⟩ := List.mem_filterMap.mp h
      cases e with
      | directory =>
        obtain rfl := Option.some.inj heq
        exact ⟨(entryAt?_of_mem_below hmem).2, .inr hnested⟩
      | file | link => cases heq
  next =>
    obtain rfl := List.mem_singleton.mp h
    rw [List.append_nil]
    exact ⟨hbase, .inl rfl⟩

end IgnoreFiles

section Candidates

/-- The source that an entry is, if it is a file with the name of one. -/
def source? : Location × Entry → Option Location
  | (rel, .file _) => if isSource (rel.getLast?.getD "") then some rel else none
  | _ => none

/-- The sources below a location. -/
def candidates (fs : FileSystem) (base : Location) : List Location :=
  (fs.below base).filterMap source?

theorem source?_eq_some_iff {x : Location × Entry} : source? x = some rel ↔
    ∃ content, x = (rel, .file content) ∧ isSource (rel.getLast?.getD "") := by
  obtain ⟨place, e⟩ := x
  cases e with
  | file content =>
    simp only [source?, Option.ite_none_right_eq_some, Option.some.injEq, Prod.mk.injEq,
      Entry.file.injEq]
    constructor
    · rintro ⟨hsource, rfl⟩
      exact ⟨content, ⟨rfl, rfl⟩, hsource⟩
    · rintro ⟨_, ⟨rfl, rfl⟩, hsource⟩
      exact ⟨hsource, rfl⟩
  | directory | link => simp [source?]

theorem mem_candidates : rel ∈ candidates fs base ↔
    (∃ content, (rel, .file content) ∈ fs.below base) ∧ isSource (rel.getLast?.getD "") := by
  simp only [candidates, List.mem_filterMap, source?_eq_some_iff]
  constructor
  · rintro ⟨_, hmem, content, rfl, hsource⟩
    exact ⟨⟨content, hmem⟩, hsource⟩
  · rintro ⟨⟨content, hmem⟩, hsource⟩
    exact ⟨_, hmem, content, rfl, hsource⟩

end Candidates

section Visits

/-- A search asks for the path of an entry that is a directory or has the name of a source. -/
def IsAsked (x : Location × Entry) : Prop :=
  x.2 = .directory ∨ isSource (x.1.getLast?.getD "")

/-- No path that a search asks for below a directory is at fault. -/
def IsSearchable (fs : FileSystem) (directory : Path) (base : Location) : Prop :=
  ∀ x ∈ fs.below base, IsAsked x → Host.fault? (directory.join ⟨.relative, x.1⟩) = none

variable {x : Location × Entry}

/-- A visit asks first and then selects. -/
theorem visit_of_isAsked (h : IsAsked x) : visit directory s ignores x = do
    Host.checkPath (directory.join ⟨.relative, x.1⟩)
    match source? x with
    | some rel => return if ← isSelected s ignores rel then some rel else none
    | none => return none := by
  obtain ⟨place, e⟩ := x
  cases e with
  | directory => rfl
  | file content =>
    have hsource : isSource (place.getLast?.getD "") = true := h.resolve_left nofun
    simp only [visit, source?, hsource, if_true]
  | link target =>
    have hsource : isSource (place.getLast?.getD "") = true := h.resolve_left nofun
    simp only [visit, source?, hsource]

theorem source?_of_not_isAsked (h : ¬ IsAsked x) : source? x = none := by
  refine Option.eq_none_iff_forall_ne_some.mpr fun rel hrel => h (.inr ?_)
  obtain ⟨_, rfl, hsource⟩ := source?_eq_some_iff.mp hrel
  exact hsource

theorem visit_of_not_isAsked (h : ¬ IsAsked x) : visit directory s ignores x = .ok none := by
  obtain ⟨place, e⟩ := x
  rw [IsAsked, not_or, Bool.not_eq_true] at h
  cases e with
  | directory => exact absurd rfl h.1
  | file content => simp only [visit, h.2]
  | link target => simp only [visit, h.2]

/-- Where nothing is at fault, a visit selects. -/
theorem visit_eq (h : IsAsked x → Host.fault? (directory.join ⟨.relative, x.1⟩) = none) :
    visit directory s ignores x = match source? x with
      | some rel => do return if ← isSelected s ignores rel then some rel else none
      | none => .ok none := by
  by_cases hasked : IsAsked x
  · rw [visit_of_isAsked hasked, Host.checkPath_eq_ok_iff.mpr (h hasked), ok_bind]
    rfl
  · rw [visit_of_not_isAsked hasked, source?_of_not_isAsked hasked]

theorem fault?_of_visit {found : Option Location} (h : visit directory s ignores x = .ok found)
    (hasked : IsAsked x) : Host.fault? (directory.join ⟨.relative, x.1⟩) = none := by
  rw [visit_of_isAsked hasked] at h
  obtain ⟨_, hcheck, _⟩ := exists_of_bind_ok h
  exact Host.checkPath_eq_ok_iff.mp hcheck

/-- A visit fails because of the path it asks for, or because of what is asked of a source. -/
theorem visit_error (h : visit directory s ignores x = .error e) :
    (IsAsked x ∧ ∃ cause, Host.fault? (directory.join ⟨.relative, x.1⟩) = some cause ∧
      e = .system cause (directory.join ⟨.relative, x.1⟩)) ∨
    ∃ rel, source? x = some rel ∧ isSelected s ignores rel = .error e := by
  by_cases hasked : IsAsked x
  · rw [visit_of_isAsked hasked] at h
    rcases exists_of_bind_error h with hcheck | ⟨_, _, h⟩
    · exact .inl ⟨hasked, Host.checkPath_error_iff.mp hcheck⟩
    · right
      cases hsource : source? x with
      | none =>
        rw [hsource] at h
        cases h
      | some rel =>
        rw [hsource] at h
        rcases exists_of_bind_error h with hselected | ⟨_, _, h⟩
        · exact ⟨rel, rfl, hselected⟩
        · cases h
  · rw [visit_of_not_isAsked hasked] at h
    cases h

theorem filterMapM_visit (h : IsSearchable fs directory base) :
    (fs.below base).filterMapM (visit directory s ignores) =
      (candidates fs base).filterM (isSelected s ignores) := by
  unfold IsSearchable at h
  rw [candidates, filterM_eq_filterMapM]
  generalize fs.below base = xs at h
  induction xs with
  | nil => rfl
  | cons x xs ih =>
    obtain ⟨hx, hxs⟩ := List.forall_mem_cons.mp h
    rw [List.filterMapM_cons, visit_eq hx, List.filterMap_cons, ih hxs]
    cases source? x with
    | none => rfl
    | some rel =>
      dsimp only
      rw [List.filterMapM_cons]

theorem isSearchable_of_filterMapM {rels : List Location}
    (h : (fs.below base).filterMapM (visit directory s ignores) = .ok rels) :
    IsSearchable fs directory base := by
  intro x hx
  obtain ⟨_, hvisit⟩ := forall_ok_of_filterMapM h x hx
  exact fault?_of_visit hvisit

end Visits

section Sources

/-- How the sources below a directory are found, if no path is at fault. -/
theorem sources_eq {resolved : Path} (hdirectory : host.resolve directory = .ok resolved)
    (hfind : host.find directory = .ok (base, .directory))
    (hsearchable : IsSearchable host.files directory base) :
    sources host directory s = do
      let ignores ← ignoreFiles host directory base s.nestedIgnores
      return sortedByPath (← (candidates host.files base).filterM (isSelected s ignores)) := by
  simp only [sources, hdirectory, hfind, ok_bind, filterMapM_visit hsearchable]

/-- Sources that are found are the candidates that are selected. -/
theorem exists_of_sources (hfind : host.find directory = .ok (base, .directory))
    {rels : List Location} (h : sources host directory s = .ok rels) :
    IsSearchable host.files directory base ∧ ∃ ignores selected,
      ignoreFiles host directory base s.nestedIgnores = .ok ignores ∧
        (candidates host.files base).filterM (isSelected s ignores) = .ok selected ∧
          rels = sortedByPath selected := by
  obtain ⟨_, _, h⟩ := exists_of_bind_ok h
  simp only [hfind] at h
  obtain ⟨ignores, hignores, h⟩ := exists_of_bind_ok h
  obtain ⟨selected, hselected, h⟩ := exists_of_bind_ok h
  have hsearchable := isSearchable_of_filterMapM hselected
  rw [filterMapM_visit hsearchable] at hselected
  exact ⟨hsearchable, ignores, selected, hignores, hselected, (Except.ok.inj h).symm⟩

/-- Where no directory is found, there are no sources. -/
theorem eq_nil_of_sources (hfind : ∀ base, host.find directory ≠ .ok (base, .directory))
    {rels : List Location} (h : sources host directory s = .ok rels) : rels = [] := by
  obtain ⟨_, _, h⟩ := exists_of_bind_ok h
  split at h
  next base hbase => exact absurd hbase (hfind base)
  next => cases h
  next => exact (Except.ok.inj h).symm

end Sources

end Discover
end SolidityCalls
