import SolidityCalls.Log
import Mathlib.Data.List.Basic

/-! Computations that may fail, taken apart: where a result or a failure of a composed computation
comes from, and what is left of a computation when its log is forgotten. -/
namespace SolidityCalls.Outcome

variable {ε α β : Type}

@[simp] theorem ok_bind (a : α) (f : α → Except ε β) : (Except.ok a >>= f) = f a := rfl

theorem exists_of_bind_ok {x : Except ε α} {f : α → Except ε β} {b : β}
    (h : (x >>= f) = .ok b) : ∃ a, x = .ok a ∧ f a = .ok b := by
  cases x with
  | error => cases h
  | ok a => exact ⟨a, rfl, h⟩

theorem exists_of_bind_error {x : Except ε α} {f : α → Except ε β} {e : ε}
    (h : (x >>= f) = .error e) : x = .error e ∨ ∃ a, x = .ok a ∧ f a = .error e := by
  cases x with
  | error => exact .inl (congrArg Except.error (Except.error.inj h))
  | ok a => exact .inr ⟨a, rfl, h⟩

theorem exists_of_map_ok {x : Except ε α} {f : α → β} {b : β} (h : x.map f = .ok b) :
    ∃ a, x = .ok a ∧ f a = b := by
  cases x with
  | error => cases h
  | ok a => exact ⟨a, rfl, Except.ok.inj h⟩

theorem eq_error_of_map {x : Except ε α} {f : α → β} {e : ε} (h : x.map f = .error e) :
    x = .error e := by
  cases x with
  | error => exact congrArg Except.error (Except.error.inj h)
  | ok a => cases h

theorem exists_of_isSome {x : Except ε α} (h : x.toOption.isSome) : ∃ a, x = .ok a := by
  cases x with
  | error => cases h
  | ok a => exact ⟨a, rfl⟩

theorem eq_ok_of_toOption {x : Except ε α} {a : α} (h : x.toOption = some a) : x = .ok a := by
  cases x with
  | error => cases h
  | ok b => exact congrArg Except.ok (Option.some.inj h)

/-- Every result of a list of computations is that of one of its elements. -/
theorem exists_of_mapM_ok {f : α → Except ε β} {xs : List α} {ys : List β}
    (h : xs.mapM f = .ok ys) {y : β} (hy : y ∈ ys) : ∃ x ∈ xs, f x = .ok y := by
  induction xs generalizing ys with
  | nil =>
    obtain rfl := Except.ok.inj h
    cases hy
  | cons x xs ih =>
    rw [List.mapM_cons] at h
    obtain ⟨y', hx, h⟩ := exists_of_bind_ok h
    obtain ⟨ys', hxs, h⟩ := exists_of_bind_ok h
    obtain rfl := Except.ok.inj h
    rcases List.mem_cons.mp hy with rfl | hy
    · exact ⟨x, List.mem_cons_self, hx⟩
    · obtain ⟨x', hmem, hx'⟩ := ih hxs hy
      exact ⟨x', List.mem_cons_of_mem _ hmem, hx'⟩

/-- Where a list of computations has its results, each of them has its own. -/
theorem exists_ok_of_mapM {f : α → Except ε β} {xs : List α} {ys : List β}
    (h : xs.mapM f = .ok ys) {x : α} (hx : x ∈ xs) : ∃ y ∈ ys, f x = .ok y := by
  induction xs generalizing ys with
  | nil => cases hx
  | cons x' xs ih =>
    rw [List.mapM_cons] at h
    obtain ⟨y, hy, h⟩ := exists_of_bind_ok h
    obtain ⟨ys', hys, h⟩ := exists_of_bind_ok h
    obtain rfl := Except.ok.inj h
    rcases List.mem_cons.mp hx with rfl | hx
    · exact ⟨y, List.mem_cons_self, hy⟩
    · obtain ⟨z, hz, hfx⟩ := ih hys hx
      exact ⟨z, List.mem_cons_of_mem _ hz, hfx⟩

/-- The failure of a list of computations is that of one of its elements. -/
theorem exists_of_mapM_error {f : α → Except ε β} {xs : List α} {e : ε}
    (h : xs.mapM f = .error e) : ∃ x ∈ xs, f x = .error e := by
  induction xs with
  | nil => cases h
  | cons x xs ih =>
    rw [List.mapM_cons] at h
    rcases exists_of_bind_error h with hx | ⟨y, _, h⟩
    · exact ⟨x, List.mem_cons_self, hx⟩
    · rcases exists_of_bind_error h with hxs | ⟨ys, _, h⟩
      · obtain ⟨x', hmem, hx'⟩ := ih hxs
        exact ⟨x', List.mem_cons_of_mem _ hmem, hx'⟩
      · cases h

/-- Computations that all have an answer make a plain list of the results. -/
theorem filterMapM_of_forall_ok {f : α → Except ε (Option β)} {g : α → Option β} {xs : List α}
    (h : ∀ x ∈ xs, f x = .ok (g x)) : xs.filterMapM f = .ok (xs.filterMap g) := by
  induction xs with
  | nil => rfl
  | cons x xs ih =>
    obtain ⟨hx, hxs⟩ := List.forall_mem_cons.mp h
    rw [List.filterMapM_cons, hx, ok_bind, ih hxs, List.filterMap_cons]
    cases g x <;> rfl

theorem forall_ok_of_filterMapM {f : α → Except ε (Option β)} {xs : List α} {ys : List β}
    (h : xs.filterMapM f = .ok ys) : ∀ x ∈ xs, ∃ b, f x = .ok b := by
  induction xs generalizing ys with
  | nil => exact fun x hx => absurd hx List.not_mem_nil
  | cons x xs ih =>
    rw [List.filterMapM_cons] at h
    obtain ⟨b, hx, h⟩ := exists_of_bind_ok h
    refine List.forall_mem_cons.mpr ⟨⟨b, hx⟩, ?_⟩
    cases b with
    | none => exact ih h
    | some y =>
      obtain ⟨ys', hxs, _⟩ := exists_of_bind_ok h
      exact ih hxs

theorem exists_of_filterMapM_error {f : α → Except ε (Option β)} {xs : List α} {e : ε}
    (h : xs.filterMapM f = .error e) : ∃ x ∈ xs, f x = .error e := by
  induction xs with
  | nil => cases h
  | cons x xs ih =>
    rw [List.filterMapM_cons] at h
    rcases exists_of_bind_error h with hx | ⟨b, _, h⟩
    · exact ⟨x, List.mem_cons_self, hx⟩
    · have hxs : xs.filterMapM f = .error e := by
        cases b with
        | none => exact h
        | some y => exact (exists_of_bind_error h).resolve_right fun ⟨_, _, hpure⟩ => nomatch hpure
      obtain ⟨x', hx', hfx'⟩ := ih hxs
      exact ⟨x', List.mem_cons_of_mem _ hx', hfx'⟩

/-- A filter keeps what it tests. -/
theorem filterM_eq_filterMapM (f : α → Except ε Bool) (xs : List α) :
    xs.filterM f = xs.filterMapM fun x => do return if ← f x then some x else none := by
  have hgo : ∀ done : List α, xs.filterAuxM f done = do
      let kept ← xs.filterMapM fun x => do return if ← f x then some x else none
      return kept.reverse ++ done := by
    induction xs with
    | nil => exact fun done => rfl
    | cons x xs ih =>
      intro done
      rw [List.filterAuxM, List.filterMapM_cons]
      cases hx : f x with
      | error => rfl
      | ok b =>
        rw [ok_bind, ih]
        cases b <;> simp
  simp [List.filterM, hgo]

/-- Tests that all have an answer make a plain filter. -/
theorem filterM_of_forall_ok {f : α → Except ε Bool} {g : α → Bool} {xs : List α}
    (h : ∀ x ∈ xs, f x = .ok (g x)) : xs.filterM f = .ok (xs.filter g) := by
  rw [filterM_eq_filterMapM, ← List.filterMap_eq_filter]
  refine filterMapM_of_forall_ok fun x hx => ?_
  rw [h x hx]
  rfl

/-- The failure of a test is that of one of the elements. -/
theorem exists_of_filterM_error {f : α → Except ε Bool} {xs : List α} {e : ε}
    (h : xs.filterM f = .error e) : ∃ x ∈ xs, f x = .error e := by
  rw [filterM_eq_filterMapM] at h
  obtain ⟨x, hx, h⟩ := exists_of_filterMapM_error h
  rcases exists_of_bind_error h with h | ⟨_, _, h⟩
  · exact ⟨x, hx, h⟩
  · cases h

theorem forall_ok_of_filterM {f : α → Except ε Bool} {xs ys : List α}
    (h : xs.filterM f = .ok ys) : ∀ x ∈ xs, ∃ b, f x = .ok b := by
  rw [filterM_eq_filterMapM] at h
  intro x hx
  obtain ⟨_, hkept⟩ := forall_ok_of_filterMapM h x hx
  obtain ⟨b, hb, _⟩ := exists_of_bind_ok hkept
  exact ⟨b, hb⟩

/-- A test keeps the elements for which its answer is yes. -/
theorem mem_of_filterM {f : α → Except ε Bool} {xs ys : List α}
    (h : xs.filterM f = .ok ys) {x : α} : x ∈ ys ↔ x ∈ xs ∧ f x = .ok true := by
  have hanswer := forall_ok_of_filterM h
  have hall : ∀ x ∈ xs, f x = .ok ((f x).toOption.getD false) := by
    intro x hx
    obtain ⟨b, hb⟩ := hanswer x hx
    rw [hb]
    rfl
  rw [filterM_of_forall_ok hall] at h
  obtain rfl := Except.ok.inj h
  rw [List.mem_filter]
  refine and_congr_right fun hx => ?_
  obtain ⟨b, hb⟩ := hanswer x hx
  cases b <;> simp [hb, Except.toOption]

section FailsOnly

variable {cause : ε}

/-- A computation has a result or fails with one cause. -/
def FailsOnly (cause : ε) (x : Except ε α) : Prop := ∀ e, x = .error e → e = cause

theorem FailsOnly.ok (a : α) : FailsOnly cause (.ok a) := nofun

theorem FailsOnly.error : FailsOnly cause (.error cause : Except ε α) := by
  intro e h
  exact (Except.error.inj h).symm

theorem FailsOnly.bind {x : Except ε α} {f : α → Except ε β} (hx : FailsOnly cause x)
    (hf : ∀ a, FailsOnly cause (f a)) : FailsOnly cause (x >>= f) := by
  intro e h
  rcases exists_of_bind_error h with hx' | ⟨a, _, hfa⟩
  · exact hx e hx'
  · exact hf a e hfa

theorem FailsOnly.map {x : Except ε α} (f : α → β) (hx : FailsOnly cause x) :
    FailsOnly cause (f <$> x) := by
  intro e h
  exact hx e (eq_error_of_map h)

end FailsOnly

end SolidityCalls.Outcome

namespace SolidityCalls.Logged

variable {α β : Type}

@[simp] theorem result_pure (a : α) : (pure a : Logged α).result = .ok a := rfl

@[simp] theorem result_ofExcept (x : Except Failure α) : (ofExcept x).result = x := rfl

theorem result_bind (x : Logged α) (f : α → Logged β) :
    (x >>= f).result = x.result >>= fun a => (f a).result := by
  obtain ⟨log, result⟩ := x
  cases result <;> rfl

theorem result_foldlM (f : β → α → Logged β) (xs : List α) (b : β) :
    (xs.foldlM f b).result = xs.foldlM (fun b a => (f b a).result) b := by
  induction xs generalizing b with
  | nil => rfl
  | cons x xs ih =>
    rw [List.foldlM_cons, List.foldlM_cons, result_bind]
    simp only [ih]

end SolidityCalls.Logged
