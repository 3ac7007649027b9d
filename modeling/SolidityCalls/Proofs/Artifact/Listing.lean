import SolidityCalls.Proofs.Data.Outcome
import SolidityCalls.Proofs.Project.AfterStore
import Mathlib.Data.List.Basic

/-! Listings of directories, and when there is one: if no path that is asked for is too long. -/
namespace SolidityCalls.Artifact

/-- No path is too long to be asked, neither that of the directory nor one below it. -/
structure IsListable (host : Host) (directory : Path) : Prop where
  self : host.find directory ≠ .error .nameTooLong
  below : ∀ {base rel e}, host.find directory = .ok (base, .directory) →
    (rel, e) ∈ host.files.below base →
      host.find (directory.join ⟨.relative, rel⟩) ≠ .error .nameTooLong

section Listing

variable {host : Host} {directory : Path} {base : Location}

/-- The name and the bytes of the file that a place below a directory leads to. -/
def Listing.shownAt (host : Host) (directory : Path) (rel : Location) : Option (String × Bytes) :=
  (host.fileAt? (directory.join ⟨.relative, rel⟩)).map fun content =>
    ("/".intercalate rel, content.bytes)

/-- The files of a directory, for paths that are not too long. -/
def Listing.shown (host : Host) (directory : Path) : Listing :=
  match host.find directory with
  | .ok (base, .directory) => (host.files.below base).filterMap fun x => shownAt host directory x.1
  | _ => []

theorem find_of_read_nameTooLong {p : Path} (h : host.read p = .error .nameTooLong) :
    host.find p = .error .nameTooLong := by
  unfold Host.read at h
  split at h
  next => cases h
  next => cases h
  next e hfind => rw [hfind, Except.error.inj h]

theorem Listing.bytesAt?_eq_ok_iff {p : Path} {found : Option Bytes} :
    bytesAt? host p = .ok found ↔
      host.find p ≠ .error .nameTooLong ∧ found = (host.fileAt? p).map Content.bytes := by
  unfold bytesAt? Host.read Host.fileAt?
  rcases host.find p with e | ⟨loc, _ | content | target⟩
  · cases e <;> simp [eq_comm]
  · simp [eq_comm]
  · simp [eq_comm]
  · simp [eq_comm]

theorem Listing.shown_of_find (hfind : host.find directory = .ok (base, .directory)) :
    shown host directory =
      (host.files.below base).filterMap fun x => shownAt host directory x.1 := by
  rw [shown, hfind]

theorem Listing.shown_of_no_directory
    (h : ∀ base, host.find directory ≠ .ok (base, .directory)) : shown host directory = [] := by
  unfold shown
  split
  next base hfind => exact absurd hfind (h base)
  next => rfl

theorem Listing.mem_shown {name : String} {bytes : Bytes} :
    (name, bytes) ∈ shown host directory ↔ ∃ base rel content,
      host.find directory = .ok (base, .directory) ∧ (∃ e, (rel, e) ∈ host.files.below base) ∧
        host.fileAt? (directory.join ⟨.relative, rel⟩) = some content ∧
          "/".intercalate rel = name ∧ content.bytes = bytes := by
  by_cases hdirectory : ∃ base, host.find directory = .ok (base, .directory)
  case pos =>
    obtain ⟨base, hfind⟩ := hdirectory
    simp only [shown_of_find hfind, List.mem_filterMap, shownAt, Option.map_eq_some_iff,
      Prod.mk.injEq]
    constructor
    · rintro ⟨⟨rel, e⟩, hbelow, content, hfile, hname, hbytes⟩
      exact ⟨base, rel, content, hfind, ⟨e, hbelow⟩, hfile, hname, hbytes⟩
    · rintro ⟨base', rel, content, hfind', ⟨e, hbelow⟩, hfile, hname, hbytes⟩
      obtain rfl : base = base' := by simpa [hfind] using hfind'
      exact ⟨(rel, e), hbelow, content, hfile, hname, hbytes⟩
  case neg =>
    rw [not_exists] at hdirectory
    rw [shown_of_no_directory hdirectory]
    constructor
    · intro h
      cases h
    · rintro ⟨base, _, _, hfind, _⟩
      exact absurd hfind (hdirectory base)

/-- A directory is listed if no path below it is too long. -/
theorem Listing.ofDirectory_of_find (hfind : host.find directory = .ok (base, .directory))
    (hlong : ∀ x ∈ host.files.below base,
      host.find (directory.join ⟨.relative, x.1⟩) ≠ .error .nameTooLong) :
    ofDirectory host directory = .ok (shown host directory) := by
  rw [ofDirectory, hfind, shown_of_find hfind]
  refine Outcome.filterMapM_of_forall_ok fun x hx => ?_
  dsimp only
  rw [bytesAt?_eq_ok_iff.mpr ⟨hlong x hx, rfl⟩, Outcome.ok_bind, Option.map_map]
  rfl

theorem IsListable.ofDirectory_eq (h : IsListable host directory) :
    Listing.ofDirectory host directory = .ok (Listing.shown host directory) := by
  by_cases hdirectory : ∃ base, host.find directory = .ok (base, .directory)
  case pos =>
    obtain ⟨base, hfind⟩ := hdirectory
    exact Listing.ofDirectory_of_find hfind fun x hx => h.below hfind hx
  case neg =>
    rw [not_exists] at hdirectory
    rw [Listing.shown_of_no_directory hdirectory, Listing.ofDirectory]
    split
    next base hfind => exact absurd hfind (hdirectory base)
    next hlong => exact absurd hlong h.self
    next => rfl

/-- A directory is listed if no path is too long, and only then. -/
theorem Listing.ofDirectory_eq_ok_iff {l : Listing} :
    ofDirectory host directory = .ok l ↔ IsListable host directory ∧ l = shown host directory := by
  constructor
  · intro h
    have hlist : IsListable host directory := by
      refine ⟨fun hlong => ?_, fun {base rel e} hfind hrel => ?_⟩
      · rw [ofDirectory, hlong] at h
        cases h
      · rw [ofDirectory, hfind] at h
        obtain ⟨found, hfound⟩ := Outcome.forall_ok_of_filterMapM h (rel, e) hrel
        obtain ⟨bytes, hbytes, _⟩ := Outcome.exists_of_bind_ok hfound
        exact (bytesAt?_eq_ok_iff.mp hbytes).1
    exact ⟨hlist, (Except.ok.inj (hlist.ofDirectory_eq.symm.trans h)).symm⟩
  · rintro ⟨hlist, rfl⟩
    exact hlist.ofDirectory_eq

/-- A directory is not listed only because some path is too long. -/
theorem Listing.exists_of_ofDirectory_error {failure : Failure}
    (h : ofDirectory host directory = .error failure) :
    ∃ p, host.find p = .error .nameTooLong ∧ failure = .system .nameTooLong p := by
  unfold ofDirectory at h
  split at h
  next base _ =>
    obtain ⟨x, _, hx⟩ := Outcome.exists_of_filterMapM_error h
    rcases Outcome.exists_of_bind_error hx with hx | ⟨_, _, hx⟩
    · refine ⟨directory.join ⟨.relative, x.1⟩, ?_⟩
      unfold bytesAt? at hx
      split at hx
      next => cases hx
      next hread => exact ⟨find_of_read_nameTooLong hread, (Except.error.inj hx).symm⟩
      next => cases hx
    · cases hx
  next hlong => exact ⟨directory, hlong, (Except.error.inj h).symm⟩
  next => cases h

end Listing

end SolidityCalls.Artifact
