import SolidityCalls.Host
import SolidityCalls.Proofs.FileSystem.Edit
import Mathlib.Algebra.Order.Ring.Nat

/-! How long the text of a path is, and which paths are not too long. A path that goes into a
directory and out of it again is as long as one likes, wherever it leads. -/
namespace SolidityCalls

namespace Path

theorem utf8ByteSize_intercalate (c : String) (rest : List String) :
    ("/".intercalate (c :: rest)).utf8ByteSize + 1 =
      ((c :: rest).map fun c => c.utf8ByteSize + 1).sum := by
  induction rest generalizing c with
  | nil => simp
  | cons d rest ih =>
    rw [String.intercalate_cons_cons, String.utf8ByteSize_append, String.utf8ByteSize_append,
      List.map_cons, List.sum_cons, ← ih d]
    have hslash : "/".utf8ByteSize = 1 := by decide
    omega

/-- Every component of an absolute path has a slash before it. -/
theorem utf8ByteSize_render_absolute {parts : List String} (h : parts ≠ []) :
    (absolute parts).render.utf8ByteSize = (parts.map fun c => c.utf8ByteSize + 1).sum := by
  obtain ⟨c, rest, rfl⟩ := List.exists_cons_of_ne_nil h
  have hrender : (absolute (c :: rest)).render = "/" ++ "/".intercalate (c :: rest) := rfl
  have hslash : "/".utf8ByteSize = 1 := by decide
  rw [hrender, String.utf8ByteSize_append, ← utf8ByteSize_intercalate, hslash, Nat.add_comm]

end Path

namespace Host

theorem fault?_eq_none_iff {p : Path} :
    fault? p = none ↔ p.parts.any holdsNul = false ∧ p.render.utf8ByteSize ≤ maxPathBytes := by
  unfold fault?
  split_ifs with hnul hlong
  · exact iff_of_false nofun fun h => Bool.false_ne_true (h.1.symm.trans hnul)
  · exact iff_of_false nofun fun h => Nat.not_le_of_lt hlong h.2
  · exact iff_of_true rfl ⟨Bool.eq_false_iff.mpr hnul, Nat.le_of_not_lt hlong⟩

/-- Short names without a NUL make a valid path. -/
theorem fault?_absolute {loc : Location} (hnul : loc.any holdsNul = false)
    (hsize : (loc.map fun c => c.utf8ByteSize + 1).sum ≤ maxPathBytes) :
    fault? (Path.absolute loc) = none := by
  by_cases hnil : loc = []
  · subst hnil
    decide
  · rw [fault?_eq_none_iff, Path.utf8ByteSize_render_absolute hnil]
    exact ⟨hnul, hsize⟩

theorem fault?_absolute_of_isPrefix {x d : Location} (hx : x <+: d)
    (h : fault? (Path.absolute d) = none) : fault? (Path.absolute x) = none := by
  obtain ⟨rest, rfl⟩ := hx
  by_cases hnil : x = []
  · subst hnil
    decide
  · rw [fault?_eq_none_iff, Path.utf8ByteSize_render_absolute (by simp [hnil])] at h ⊢
    simp only [Path.absolute, List.any_append, List.map_append, List.sum_append,
      Bool.or_eq_false_iff] at h ⊢
    exact ⟨h.1.1, by omega⟩

theorem checkPath_eq_ok_iff {p : Path} : checkPath p = .ok () ↔ fault? p = none := by
  unfold checkPath
  cases fault? p <;> simp

theorem checkPath_error_iff {p : Path} {e : Failure} :
    checkPath p = .error e ↔ ∃ cause, fault? p = some cause ∧ e = .system cause p := by
  unfold checkPath
  cases fault? p <;> simp [eq_comm]

section Detours
open FileSystem

/-- Into a directory and out of it again, a number of times. -/
def detours : Nat → List String
  | 0 => []
  | n + 1 => "e" :: ".." :: detours n

theorem walk_detours {fs : FileSystem} {links : Nat} (h : fs.entryAt? ["e"] = some .directory)
    (n : Nat) (rest : List String) :
    fs.walk false links [] (detours n ++ rest) = fs.walk false links [] rest := by
  induction n with
  | zero => rfl
  | succ n ih =>
    have hname : IsName false "e" (".." :: (detours n ++ rest)) :=
      ⟨by decide, by decide, by simp, by decide⟩
    rw [detours, List.cons_append, List.cons_append, walk_down rfl hname h (by simp),
      List.nil_append, walk_up (isDirectoryAt_iff.mpr h)]
    exact ih

theorem holdsNul_detours (n : Nat) : (detours n).any holdsNul = false := by
  induction n with
  | zero => rfl
  | succ n ih => rw [detours, List.any_cons, List.any_cons, ih]; simp [holdsNul]

theorem utf8ByteSize_detours (n : Nat) :
    ((detours n).map fun c => c.utf8ByteSize + 1).sum = 5 * n := by
  induction n with
  | zero => rfl
  | succ n ih =>
    have hin : "e".utf8ByteSize = 1 := by decide
    have hout : "..".utf8ByteSize = 2 := by decide
    rw [detours, List.map_cons, List.map_cons, List.sum_cons, List.sum_cons, ih, hin, hout]
    omega

theorem fault?_detours (n : Nat) {rest : List String} (hne : rest ≠ [])
    (hnul : rest.any holdsNul = false) : fault? (Path.absolute (detours n ++ rest)) =
      if maxPathBytes < 5 * n + (rest.map fun c => c.utf8ByteSize + 1).sum then some .nameTooLong
      else none := by
  have hparts : (detours n ++ rest).any holdsNul = false := by
    rw [List.any_append, holdsNul_detours, hnul, Bool.or_false]
  rw [fault?, Path.utf8ByteSize_render_absolute (by simp [hne]), List.map_append, List.sum_append,
    utf8ByteSize_detours]
  simp only [Path.absolute, hparts]
  rfl

/-- A directory at the root is found by a way that is not too long. -/
theorem find_detours {host : Host} (h : host.files.entryAt? ["e"] = some .directory) {n : Nat}
    (hshort : 5 * n + 2 ≤ maxPathBytes) :
    host.find (Path.absolute (detours n ++ ["e"])) = .ok (["e"], .directory) := by
  have hsize : (["e"].map fun c => c.utf8ByteSize + 1).sum = 2 := by decide
  have hfault : fault? (Path.absolute (detours n ++ ["e"])) = none := by
    rw [fault?_detours n (by simp) (by simp [holdsNul]), hsize, if_neg (Nat.not_lt.mpr hshort)]
  rw [find, hfault]
  refine find_eq_ok_iff.mpr ?_
  have hname : IsName false "e" [] := ⟨by decide, by decide, by simp, by decide⟩
  rw [parts, Path.absolute, walk_detours h, walk_down rfl hname h (by simp), walk_nil,
    List.nil_append, h]

end Detours

end Host
end SolidityCalls
