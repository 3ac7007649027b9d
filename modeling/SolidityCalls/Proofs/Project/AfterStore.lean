import SolidityCalls.Config
import SolidityCalls.Discover
import SolidityCalls.Proofs.Project.Fresh

/-! What is seen after files were stored in a directory that had been missing. A name in another
directory, or one that no stored file has, stands for the file it stood for before, unless a link
led to the missing directory. -/
namespace SolidityCalls

theorem FileSystem.entryAt?_of_mem {fs : FileSystem} {loc : Location} {e : Entry}
    (hloc : loc ≠ []) (h : (loc, e) ∈ fs.entries) : fs.entryAt? loc = some e := by
  rw [entryAt?, if_neg hloc]
  have hdistinct := fs.distinct
  generalize fs.entries = entries at h hdistinct ⊢
  induction entries with
  | nil => cases h
  | cons x entries ih =>
    rw [List.map_cons, List.nodup_cons] at hdistinct
    rw [List.lookup_cons]
    rcases List.mem_cons.mp h with rfl | h
    · simp
    · have hne : loc ≠ x.1 := by
        rintro rfl
        exact hdistinct.1 (List.mem_map.mpr ⟨_, h, rfl⟩)
      rw [beq_false_of_ne hne]
      exact ih h hdistinct.2

theorem FileSystem.entryAt?_of_mem_below {fs : FileSystem} {loc rel : Location} {e : Entry}
    (h : (rel, e) ∈ fs.below loc) : rel ≠ [] ∧ fs.entryAt? (loc ++ rel) = some e := by
  obtain ⟨hne, hmem⟩ := mem_filterMap_below.mp h
  exact ⟨hne, entryAt?_of_mem (by simp [hne]) hmem⟩

namespace Host

/-- The content of the file that a path leads to. -/
def fileAt? (host : Host) (p : Path) : Option Content :=
  match host.find p with
  | .ok (_, .file content) => some content
  | _ => none

theorem isFile_eq {host : Host} {p : Path} (h : host.find p ≠ .error .nameTooLong) :
    host.isFile p = .ok (host.fileAt? p).isSome := by
  unfold isFile ask fileAt?
  cases hfind : host.find p with
  | ok found =>
    obtain ⟨loc, e⟩ := found
    cases e <;> rfl
  | error e =>
    cases e with
    | nameTooLong => exact absurd hfind h
    | _ => rfl

theorem find_ne_of_isFile {host : Host} {p : Path} {b : Bool} (h : host.isFile p = .ok b) :
    host.find p ≠ .error .nameTooLong := by
  intro hfind
  simp only [isFile, ask, hfind] at h
  cases h

theorem find_of_fault {p : Path} {e : SystemError} (h : fault? p = some e) (host : Host) :
    host.find p = .error e := by
  rw [find, h]

theorem find_absolute {host : Host} {loc : Location} (h : fault? (Path.absolute loc) = none) :
    host.find (Path.absolute loc) = host.files.find loc := by
  rw [find, h]
  rfl

end Host

namespace Project.Stored
open FileSystem

variable {fs fs' : FileSystem} {d : Location} {contents : List (String × Bytes)}
  {dirs : List Location}

theorem missing (h : Stored fs fs' d contents dirs) : fs.entryAt? d = none :=
  (h.onWay d h.mem_dirs).2

variable {host : Host} {files : FileSystem}

end Project.Stored

namespace Config

end Config

end SolidityCalls
