import SolidityCalls.Data.OrderedMap
import Mathlib.Data.List.Nodup

/-! Sorted lists. Distinct elements come into strict order, and a list in strict order is told by
its members. -/
namespace SolidityCalls

section Sorted

variable {α : Type} [LE α] [LT α] [Std.IsLinearOrder α] [Std.LawfulOrderLT α] {xs ys : List α}

/-- However the order is tested, sorting brings distinct elements into strict order. -/
theorem pairwise_lt_mergeSort {le : α → α → Bool} (hle : ∀ a b, le a b = true ↔ ¬ b < a)
    (h : xs.Nodup) : (xs.mergeSort le).Pairwise (· < ·) := by
  have hle (a b : α) : le a b = true ↔ a ≤ b := (hle a b).trans Std.not_lt
  have hsorted : (xs.mergeSort le).Pairwise (fun a b => le a b = true) := by
    refine List.pairwise_mergeSort (fun a b c hab hbc => ?_) (fun a b => ?_) xs
    · exact (hle a c).mpr (Std.le_trans ((hle a b).mp hab) ((hle b c).mp hbc))
    · rw [Bool.or_eq_true, hle, hle]
      exact Std.le_total
  have hne : (xs.mergeSort le).Pairwise (· ≠ ·) := (List.mergeSort_perm xs _).nodup_iff.mpr h
  exact (hsorted.and hne).imp fun h => Std.lt_of_le_of_ne ((hle _ _).mp h.1) h.2

omit [Std.IsLinearOrder α] in
theorem nodup_of_pairwise_lt (h : xs.Pairwise (· < ·)) : xs.Nodup := by
  refine h.imp ?_
  rintro a _ hlt rfl
  exact Std.lt_irrefl hlt

/-- Lists in strict order are told by their members. -/
theorem eq_of_pairwise_lt (hxs : xs.Pairwise (· < ·)) (hys : ys.Pairwise (· < ·))
    (h : ∀ x, x ∈ xs ↔ x ∈ ys) : xs = ys := by
  have hperm := (List.perm_ext_iff_of_nodup (nodup_of_pairwise_lt hxs)
    (nodup_of_pairwise_lt hys)).mpr h
  refine hperm.eq_of_pairwise ?_ hxs hys
  intro a b _ _ hab hba
  exact absurd (Std.lt_trans hab hba) Std.lt_irrefl

end Sorted

namespace NameSet

theorem perm_sorted (names : List String) : (sorted names).Perm names :=
  List.mergeSort_perm names _

theorem pairwise_lt_sorted {names : List String} (h : names.Nodup) :
    (sorted names).Pairwise (· < ·) :=
  pairwise_lt_mergeSort (fun _ _ => by rw [decide_eq_true_iff, Std.not_lt]) h

end NameSet
end SolidityCalls
