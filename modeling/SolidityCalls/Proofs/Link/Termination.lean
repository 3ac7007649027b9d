import SolidityCalls.Proofs.FileSystem.Walk
import SolidityCalls.Proofs.Link.Traversal
import SolidityCalls.Proofs.FileSystem.Resolved
import Mathlib.Algebra.Order.BigOperators.Group.List
import Mathlib.Algebra.Order.Ring.Nat

/-! Walks along imports end. A file that can be read stands in a directory of the file system, and
what it imports depends only on that directory and the text of the import, so there are only so
many files a walk can enter. A walk that fails is therefore stopped by a file, never by the number
of its steps. -/
namespace SolidityCalls

/-- A file that can be read at an absolute path: the way to it, and what stands there. -/
theorem Host.leads_of_read {host : Host} {file : Path} {content : Content}
    (habs : file.isAbsolute) (h : host.read file = .ok content) :
    ∃ loc n, host.files.Leads [] file.parts loc n ∧
      host.files.entryAt? loc = some (.file content) := by
  have hparts : host.parts file = file.parts := by
    unfold Host.parts
    split
    next hanchor => simp [Path.isAbsolute, hanchor] at habs
    next => rfl
  unfold Host.read Host.find at h
  split at h
  next loc content' hfind =>
    obtain rfl := Except.ok.inj h
    split at hfind
    next => cases hfind
    next =>
      rw [hparts] at hfind
      obtain ⟨⟨n, hleads⟩, hentry⟩ := FileSystem.leads_of_find hfind
      exact ⟨loc, n, hleads, hentry⟩
  next => cases h
  next => cases h

theorem Host.resolve_ne_endlessImports (host : Host) (p : Path) :
    host.resolve p ≠ .error .endlessImports := by
  unfold Host.resolve
  split
  · simp
  · split <;> simp

namespace Sources
open FileSystem

theorem load_ne_endlessImports (s : Sources) (file : Path) :
    s.load file ≠ .error .endlessImports := by
  unfold load
  split
  · simp
  · simp
  · dsimp only
    split_ifs <;> simp

/-- The locations that a path can be continued from. -/
def places (s : Sources) : List Location := [] :: s.host.files.entries.map (·.1)

/-- What an import text leads to, seen from the dependency root and from every location. -/
def targetsOf (s : Sources) (text : String) : List Path :=
  (s.host.files.resolve s.host.workingDirectory (s.dependencies.child text)).toOption.toList ++
    s.places.filterMap fun here =>
      (s.host.files.settle
        (s.host.files.resolveFrom [] false here (Path.parse text).parts)).toOption

/-- All files that imports can lead to. -/
def candidates (s : Sources) : List Path := s.importTexts.flatMap s.targetsOf

theorem length_targetsOf_le (s : Sources) (text : String) :
    (s.targetsOf text).length ≤ s.host.files.entries.length + 2 := by
  have hroot : ∀ x : Option Path, x.toList.length ≤ 1 := by
    intro x
    cases x <;> simp
  have hplaces := List.length_filterMap_le (fun here =>
    (s.host.files.settle
      (s.host.files.resolveFrom [] false here (Path.parse text).parts)).toOption) s.places
  simp only [places, List.length_cons, List.length_map] at hplaces
  rw [targetsOf, List.length_append]
  have := hroot
    (s.host.files.resolve s.host.workingDirectory (s.dependencies.child text)).toOption
  unfold places
  omega

/-- The bound of a walk is more than the files it can enter. -/
theorem length_candidates_lt (s : Sources) : s.candidates.length + 1 < s.bound := by
  have hsum : (s.importTexts.map fun text => (s.targetsOf text).length).sum ≤
      s.importTexts.length * (s.host.files.entries.length + 2) := by
    have hle := List.sum_le_card_nsmul (s.importTexts.map fun text => (s.targetsOf text).length)
      (s.host.files.entries.length + 2) (by simpa using fun text _ => s.length_targetsOf_le text)
    simpa using hle
  rw [candidates, List.length_flatMap, bound, Nat.mul_comm]
  omega

theorem mem_places {s : Sources} {loc : Location} (h : s.host.files.isDirectoryAt loc) :
    loc ∈ s.places := by
  unfold isDirectoryAt at h
  split at h
  next hentry =>
    rcases mem_entries hentry with ⟨rfl, _⟩ | hmem
    · exact List.mem_cons_self
    · exact List.mem_cons_of_mem _ (List.mem_map.mpr ⟨_, hmem, rfl⟩)
  next => cases h

/-- What a file imports is among the candidates. The way to the file goes through the directory
that holds it, and relative imports are resolved from there. -/
theorem mem_candidates {s : Sources} {file target : Path} (habs : file.isAbsolute)
    (h : s.Imports file target) : target ∈ s.candidates := by
  obtain ⟨source, imports, hload, himports, hmem⟩ := h
  obtain ⟨rfl, content, hread, htree⟩ := load_spec hload
  obtain ⟨loc, n, hleads, hentry⟩ := Host.leads_of_read habs hread
  obtain ⟨text, htext, htarget⟩ := Outcome.exists_of_mapM_ok himports hmem
  have hknown : text ∈ s.importTexts := by
    rcases mem_entries hentry with ⟨_, hdir⟩ | hfile
    · cases hdir
    · refine List.mem_flatMap.mpr ⟨_, hfile, ?_⟩
      rwa [htree] at htext
  refine List.mem_flatMap.mpr ⟨text, hknown, List.mem_append.mpr ?_⟩
  unfold Import.resolve at htarget
  by_cases hanchor : (Path.parse text).anchor = .relative
  · split at htarget
    · right
      have hne : source.path.parts ≠ [] := by
        intro hnil
        rw [hnil] at hleads
        cases hleads
        cases hentry
      obtain ⟨mid, k, hparent, hdir⟩ := hleads.parent hne
      refine List.mem_filterMap.mpr ⟨mid, mem_places hdir, ?_⟩
      have hresolve := Host.files_resolve htarget
      rw [resolve_child (p := source.path.parent) habs hparent hanchor] at hresolve
      rw [hresolve]
      rfl
    · left
      rw [Host.files_resolve htarget]
      exact List.mem_singleton_self _
  · -- An absolute text stands for itself, wherever it is seen from.
    left
    have hjoin (dir : Path) : dir.child text = s.dependencies.child text := by
      simp only [Path.child, Path.join]
    rw [hjoin, ite_self] at htarget
    rw [Host.files_resolve htarget]
    exact List.mem_singleton_self _

/-- Imports of resolved files are resolved. -/
theorem Imports.isResolved {s : Sources} {file target : Path} (h : s.Imports file target)
    (hdeps : s.dependencies.IsResolved) (hfile : file.IsResolved) : target.IsResolved := by
  obtain ⟨source, imports, hload, himports, hmem⟩ := h
  obtain rfl := path_of_load hload
  obtain ⟨text, _, htarget⟩ := Outcome.exists_of_mapM_ok himports hmem
  unfold Import.resolve at htarget
  split at htarget
  · have hchild := hfile.parent.child text
    exact s.host.resolve_isResolved hchild.plain (.inl hchild.absolute) htarget
  · have hchild := hdeps.child text
    exact s.host.resolve_isResolved hchild.plain (.inl hchild.absolute) htarget

theorem Reaches.isResolved {s : Sources} {entry file : Path} (h : s.Reaches entry file)
    (hdeps : s.dependencies.IsResolved) (hentry : entry.IsResolved) : file.IsResolved := by
  induction h with
  | refl => exact hentry
  | tail _ himport ih => exact himport.isResolved hdeps ih

/-- A file stops a walk: it cannot be read, or one of its imports cannot be resolved. -/
def FailsAt (s : Sources) (file : Path) (cause : Failure) : Prop :=
  s.load file = .error cause ∨
    ∃ source, s.load file = .ok source ∧ s.imports source = .error cause

/-- The paths of a list that a walk has not entered. -/
def unentered (paths : List Path) (w : Walk) : List Path :=
  paths.filter fun p => !w.hasEntered p

theorem length_unentered_le (paths : List Path) {w w' : Walk} (h : w.visited ⊆ w'.visited) :
    (unentered paths w').length ≤ (unentered paths w).length := by
  apply List.Sublist.length_le
  apply List.monotone_filter_right
  intro p hp
  simp only [Bool.not_eq_eq_eq_not, Bool.not_true, ← Bool.not_eq_true, Walk.hasEntered_iff] at hp ⊢
  exact fun hmem => hp (h hmem)

theorem length_unentered_enter_lt {paths : List Path} {w : Walk} {file : Path} (source : Source)
    (hmem : file ∈ paths) (hnew : ¬ w.hasEntered file) :
    (unentered paths ((w.enter file).note (.opened source))).length <
      (unentered paths w).length := by
  have hsplit : unentered paths ((w.enter file).note (.opened source)) =
      (unentered paths w).filter fun p => p.render ≠ file.render := by
    rw [unentered, unentered, List.filter_filter]
    apply List.filter_congr
    intro p _
    rw [Bool.eq_iff_iff]
    simp [Walk.hasEntered, NameSet.mem_add, and_comm]
  rw [hsplit]
  refine List.length_filter_lt_length_iff_exists.mpr ⟨file, ?_, by simp⟩
  exact List.mem_filter.mpr ⟨hmem, by simpa using hnew⟩

/-- A walk that follows targets fails at the visit of one of them. -/
theorem exists_of_foldlM_error {s : Sources} {order : Order} {fuel : Nat} {file : Path}
    {targets : List (Reason × Path)} {w : Walk} {halt : Halt}
    (h : targets.foldlM (s.followOne order fuel file) w = .error halt) :
    ∃ t ∈ targets, ∃ w₁, w.visited ⊆ w₁.visited ∧ ¬ w₁.hasEntered t.2 ∧
      s.visit order fuel t.2 w₁ = .error halt := by
  induction targets generalizing w with
  | nil => cases h
  | cons t targets ih =>
    rw [List.foldlM_cons] at h
    rcases Outcome.exists_of_bind_error h with hone | ⟨w₁, hone, hrest⟩
    · unfold followOne at hone
      split at hone
      next => cases hone
      next hnew =>
        exact ⟨t, List.mem_cons_self, w.note (.followed file t.2 t.1), List.Subset.refl _, hnew,
          hone⟩
    · have hsub : w.visited ⊆ w₁.visited := by
        unfold followOne at hone
        split at hone
        next => exact Except.ok.inj hone ▸ List.Subset.refl _
        next => exact (run_of_visit hone).visited_subset
      obtain ⟨t', ht', w₂, hsub', hnew, hvisit⟩ := ih hrest
      exact ⟨t', List.mem_cons_of_mem _ ht', w₂, List.Subset.trans hsub hsub', hnew, hvisit⟩

/-- A walk with more steps than files it can enter fails only where a file stops it. -/
theorem exists_failsAt_of_visit_error {s : Sources} {order : Order} (hcover : order.IsCovering)
    {entry : Path} {paths : List Path}
    (hpaths : ∀ f g, s.Reaches entry f → s.Imports f g → g ∈ paths) {fuel : Nat} {file : Path}
    {w : Walk} {halt : Halt} (hreach : s.Reaches entry file) (hfile : file ∈ paths)
    (hnew : ¬ w.hasEntered file) (hfuel : (unentered paths w).length < fuel)
    (h : s.visit order fuel file w = .error halt) :
    ∃ f, s.Reaches entry f ∧ s.FailsAt f halt.cause := by
  induction fuel generalizing file w with
  | zero => omega
  | succ fuel ih =>
    cases hload : s.load file with
    | error e =>
      simp only [visit, hload] at h
      obtain rfl := Except.error.inj h
      exact ⟨file, hreach, .inl hload⟩
    | ok source =>
      cases himports : s.imports source with
      | error e =>
        simp only [visit, hload, himports] at h
        obtain rfl := Except.error.inj h
        exact ⟨file, hreach, .inr ⟨source, hload, himports⟩⟩
      | ok imports =>
        rw [visit_of_load hload himports] at h
        rcases Outcome.exists_of_bind_error h with hfold | ⟨_, _, hend⟩
        · obtain ⟨t, ht, w₁, hsub, hnew₁, hvisit⟩ := exists_of_foldlM_error hfold
          have himport : s.Imports file t.2 :=
            ⟨source, imports, hload, himports, (hcover source imports t.2).mpr ⟨t.1, ht⟩⟩
          -- Entering the file leaves one path fewer, and the walk up to the target adds none.
          have hless := length_unentered_enter_lt source hfile hnew
          have hmono := length_unentered_le paths hsub
          exact ih (hreach.tail himport) (hpaths file t.2 hreach himport) hnew₁ (by omega) hvisit
        · cases hend

/-- A walk from a resolved file fails only where a file it leads to stops it. -/
theorem exists_failsAt_of_walk_error {s : Sources} {order : Order} (hcover : order.IsCovering)
    {entry : Path} (hentry : entry.IsResolved) (hdeps : s.dependencies.IsResolved) {halt : Halt}
    (h : s.walk order entry [] = .error halt) :
    ∃ f, s.Reaches entry f ∧ s.FailsAt f halt.cause := by
  have hpaths : ∀ f g, s.Reaches entry f → s.Imports f g → g ∈ entry :: s.candidates := by
    intro f g hreach himport
    have habs := (Reaches.isResolved hreach hdeps hentry).absolute
    exact List.mem_cons_of_mem _ (mem_candidates habs himport)
  refine exists_failsAt_of_visit_error hcover hpaths .refl List.mem_cons_self
    (by simp [Walk.hasEntered]) ?_ h
  have hle : (unentered (entry :: s.candidates) (.start [])).length ≤
      s.candidates.length + 1 := List.length_filter_le _ _
  have hbound := s.length_candidates_lt
  omega

theorem FailsAt.ne_endlessImports {s : Sources} {file : Path} {cause : Failure}
    (h : s.FailsAt file cause) : cause ≠ .endlessImports := by
  rintro rfl
  rcases h with hload | ⟨source, _, himports⟩
  · exact absurd hload (load_ne_endlessImports s file)
  · obtain ⟨text, _, htext⟩ := Outcome.exists_of_mapM_error himports
    unfold Import.resolve at htext
    split at htext
    · exact Host.resolve_ne_endlessImports _ _ htext
    · exact Host.resolve_ne_endlessImports _ _ htext

end Sources
end SolidityCalls
