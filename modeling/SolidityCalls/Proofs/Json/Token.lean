import SolidityCalls.Json.Reader
import SolidityCalls.Json.Writer
import Mathlib

/-! Strings and integers, as they are written, are read back with whatever follows them. -/
namespace SolidityCalls.Json

theorem hexValue?_digitChar {n : Nat} (h : n < 16) : hexValue? (Nat.digitChar n) = some n := by
  interval_cases n <;> rfl

theorem hexQuad?_digitChars {n : Nat} (h : n < 256) :
    hexQuad? '0' '0' (Nat.digitChar (n / 16 % 16)) (Nat.digitChar (n % 16)) = some n := by
  have hzero : hexValue? '0' = some 0 := rfl
  simp only [hexQuad?, hzero, hexValue?_digitChar (Nat.mod_lt _ (by decide : 0 < 16)),
    Option.bind_eq_bind, Option.bind_some, Option.some.injEq]
  omega

theorem stringTail_short {e c : Char} (hu : e ≠ 'u') (h : escaped? e = some c) (cs : List Char) :
    stringTail ('\\' :: e :: cs) = (stringTail cs).map fun (s, r) => (c :: s, r) := by
  rw [stringTail, h]
  rintro _ _ _ _ _ rfl
  exact absurd rfl hu

theorem stringTail_control {c : Char} (h : c.toNat < 0x20) (cs : List Char) :
    stringTail ('\\' :: 'u' :: '0' :: '0' :: Nat.digitChar (c.toNat / 16 % 16) ::
      Nat.digitChar (c.toNat % 16) :: cs) = (stringTail cs).map fun (s, r) => (c :: s, r) := by
  have hhigh : isHighSurrogate c.toNat = false := by simp [isHighSurrogate]; omega
  have hlow : isLowSurrogate c.toNat = false := by simp [isLowSurrogate]; omega
  rw [stringTail, hexQuad?_digitChars (by omega)]
  simp only [hhigh, hlow, Char.ofNat_toNat]
  rfl

theorem stringTail_plain {c : Char} (h : 0x20 ≤ c.toNat) (hquote : c ≠ '"') (hslash : c ≠ '\\')
    (cs : List Char) : stringTail (c :: cs) = (stringTail cs).map fun (s, r) => (c :: s, r) := by
  rw [stringTail, if_neg (by simp [hslash]; omega)]
  all_goals simp_all

/-- A character as it is written in a string is read as this character. -/
theorem stringTail_escape (c : Char) (cs : List Char) :
    stringTail (escape c ++ cs) = (stringTail cs).map fun (s, r) => (c :: s, r) := by
  unfold escape
  split_ifs with h₁ h₂ h₃ h₄ h₅ h₆ h₇ h₈
  · subst h₁
    exact stringTail_short (by decide) rfl cs
  · subst h₂
    exact stringTail_short (by decide) rfl cs
  · exact stringTail_short (by decide) (h₃ ▸ rfl) cs
  · exact stringTail_short (by decide) (h₄ ▸ rfl) cs
  · exact stringTail_short (by decide) (h₅ ▸ rfl) cs
  · exact stringTail_short (by decide) (h₆ ▸ rfl) cs
  · exact stringTail_short (by decide) (h₇ ▸ rfl) cs
  · exact stringTail_control h₈ cs
  · exact stringTail_plain (Nat.le_of_not_lt h₈) h₁ h₂ cs

/-- The characters of a string, as they are written, up to the closing quote. -/
theorem stringTail_flatMap_escape (s rest : List Char) :
    stringTail (s.flatMap escape ++ '"' :: rest) = some (s, rest) := by
  induction s with
  | nil => rw [List.flatMap_nil, List.nil_append, stringTail]
  | cons c s ih =>
    rw [List.flatMap_cons, List.append_assoc, stringTail_escape, ih, Option.map_some]

/-- Nothing that follows makes a number longer. -/
def EndsNumber (rest : List Char) : Prop :=
  ∀ c ∈ rest.head?, ¬ c.isDigit ∧ c ≠ '.' ∧ c ≠ 'e' ∧ c ≠ 'E'

theorem digitsToNat_toDigits (n : Nat) : digitsToNat (Nat.toDigits 10 n) = n := by
  have h := Nat.ofDigitChars_toDigits (n := n) (by decide : 1 < 10) (by decide)
  rw [Nat.ofDigitChars_eq_foldl] at h
  simpa only [digitsToNat, Nat.mul_comm] using h

/-- Only zero starts with the digit zero. -/
theorem head?_toDigits {n : Nat} (h : n ≠ 0) : (Nat.toDigits 10 n).head? ≠ some '0' := by
  induction n using Nat.strong_induction_on with
  | _ n ih =>
    rw [Nat.toDigits_eq_if (by decide)]
    split_ifs with hlt
    · rw [List.head?_cons, ne_eq, Option.some.injEq, Nat.digitChar_eq_zero]
      exact h
    · rw [List.head?_append_of_ne_nil _ Nat.toDigits_ne_nil]
      exact ih (n / 10) (by omega) (by omega)

theorem isDigit_of_mem_toDigits {n : Nat} {c : Char} (h : c ∈ Nat.toDigits 10 n) : c.isDigit :=
  Nat.isDigit_of_mem_toDigits (by decide) (by decide) h

theorem takeWhile_toDigits (n : Nat) {rest : List Char} (h : EndsNumber rest) :
    (Nat.toDigits 10 n ++ rest).takeWhile Char.isDigit = Nat.toDigits 10 n ∧
      (Nat.toDigits 10 n ++ rest).dropWhile Char.isDigit = rest := by
  have hdigits : ∀ c ∈ Nat.toDigits 10 n, c.isDigit := fun c => isDigit_of_mem_toDigits
  have hrest : rest.takeWhile Char.isDigit = [] ∧ rest.dropWhile Char.isDigit = rest := by
    cases rest with
    | nil => exact ⟨rfl, rfl⟩
    | cons c rest => simp [(h c rfl).1]
  rw [List.takeWhile_append_of_pos hdigits, List.dropWhile_append_of_pos hdigits, hrest.1, hrest.2,
    List.append_nil]
  exact ⟨rfl, rfl⟩

theorem wholePart?_toDigits (n : Nat) {rest : List Char} (h : EndsNumber rest) :
    wholePart? (Nat.toDigits 10 n ++ rest) = some (Nat.toDigits 10 n, rest) := by
  obtain ⟨htake, hdrop⟩ := takeWhile_toDigits n h
  by_cases hzero : n = 0
  · subst hzero
    rfl
  · cases hdigits : Nat.toDigits 10 n with
    | nil => exact absurd hdigits Nat.toDigits_ne_nil
    | cons c cs =>
      have hne : c ≠ '0' := by simpa [hdigits] using head?_toDigits hzero
      have hdigit : c.isDigit := isDigit_of_mem_toDigits (hdigits ▸ List.mem_cons_self)
      rw [hdigits] at htake hdrop
      rw [List.cons_append] at htake hdrop ⊢
      rw [wholePart?, if_pos hdigit, htake, hdrop]
      rintro rfl
      exact absurd rfl hne

theorem fraction?_of_ends {rest : List Char} (h : EndsNumber rest) :
    fraction? rest = some ([], rest) := by
  unfold fraction?
  split
  next rest => exact absurd rfl (h '.' rfl).2.1
  next => rfl

theorem exponent?_of_ends {rest : List Char} (h : EndsNumber rest) :
    exponent? rest = some (none, rest) := by
  cases rest with
  | nil => rfl
  | cons c rest =>
    obtain ⟨_, _, he, hE⟩ := h c rfl
    exact if_neg (by simp [he, hE])

/-- The text of an integer: its digits, and a minus sign before them if it is negative. -/
theorem toList_toString_int (n : Int) :
    (toString n).toList =
      if n < 0 then '-' :: Nat.toDigits 10 n.natAbs else Nat.toDigits 10 n.natAbs := by
  cases n with
  | ofNat m =>
    rw [if_neg (by simp)]
    exact congrArg String.toList Nat.toString_eq_ofList_toDigits |>.trans String.toList_ofList
  | negSucc m =>
    rw [if_pos (Int.negSucc_lt_zero m), Int.toString_eq_repr]
    simp [Int.repr, Nat.repr_eq_ofList_toDigits]

theorem numberOf?_int {n : Int} (hfits : (int n).fits) {negative : Bool}
    (hsign : (if negative then -(n.natAbs : Int) else n.natAbs) = n) :
    numberOf? negative (Nat.toDigits 10 n.natAbs) [] none = some (.int n) := by
  have hrange : -Int.pow 2 63 ≤ n ∧ n < Int.pow 2 64 := by
    simpa only [fits, Bool.and_eq_true, decide_eq_true_eq] using hfits
  simp only [numberOf?, List.append_nil, digitsToNat_toDigits, hsign]
  exact if_pos ⟨trivial, trivial, hrange⟩

theorem sign_toDigits (n : Nat) (rest : List Char) :
    sign (Nat.toDigits 10 n ++ rest) = (false, Nat.toDigits 10 n ++ rest) := by
  unfold sign
  split
  next tail htail =>
    have hmem : '-' ∈ Nat.toDigits 10 n := by
      cases hdigits : Nat.toDigits 10 n with
      | nil => exact absurd hdigits Nat.toDigits_ne_nil
      | cons c cs =>
        rw [hdigits, List.cons_append] at htail
        exact (List.cons.inj htail).1 ▸ List.mem_cons_self
    exact absurd (isDigit_of_mem_toDigits hmem) (by decide)
  next => rfl

theorem number?_whole {cs digits whole rest : List Char} {negative : Bool} {v : Value}
    (hsign : sign cs = (negative, digits)) (hwhole : wholePart? digits = some (whole, rest))
    (h : EndsNumber rest) (hvalue : numberOf? negative whole [] none = some v) :
    number? cs = some (v, rest) := by
  simp only [number?, hsign, hwhole, fraction?_of_ends h, exponent?_of_ends h,
    Option.bind_eq_bind, Option.bind_some, hvalue]

/-- An integer of at most 64 bits is read back. -/
theorem number?_int {n : Int} (hfits : (int n).fits) {rest : List Char} (h : EndsNumber rest) :
    number? ((toString n).toList ++ rest) = some (.int n, rest) := by
  rw [toList_toString_int]
  split_ifs with hneg
  · have hsign : (if true then -(n.natAbs : Int) else n.natAbs) = n := by rw [if_pos rfl]; omega
    exact number?_whole rfl (wholePart?_toDigits _ h) h (numberOf?_int hfits hsign)
  · have hsign : (if false then -(n.natAbs : Int) else n.natAbs) = n := by
      rw [if_neg Bool.false_ne_true]
      omega
    exact number?_whole (sign_toDigits _ rest) (wholePart?_toDigits _ h) h
      (numberOf?_int hfits hsign)

end SolidityCalls.Json
