import SolidityCalls.Text.Utf8
import Mathlib.Data.List.Basic

/-! Text written as UTF-8 is read back, and a byte of a control character stems from a control
character. -/
namespace SolidityCalls.Utf8

theorem toNat_lt (c : Char) : c.toNat < 0x110000 := by
  rcases c.valid with h | h
  · exact Nat.lt_trans h (by decide)
  · exact h.2

theorem toNat_ofNat_of_lt {n : Nat} (h : n < 256) : (UInt8.ofNat n).toNat = n := by
  rw [UInt8.toNat_ofNat', Nat.mod_eq_of_lt h]

theorem tail?_continuation (n : Nat) : tail? (UInt8.ofNat (n % 64 + 128)) = some (n % 64) := by
  rw [tail?, toNat_ofNat_of_lt (by omega), if_pos (by omega), Nat.add_sub_cancel]

theorem scalar?_toNat {c : Char} {least n : Nat} (hn : n = c.toNat) (h : least ≤ c.toNat) :
    scalar? least n = some c := by
  rw [hn, scalar?, if_pos ⟨h, c.valid⟩, Char.ofNat_toNat]

variable {c : Char} (rest : Bytes)

theorem charAt?_one (h : c.toNat ≤ 0x7F) :
    charAt? (UInt8.ofNat c.toNat) rest = some (c, 0) := by
  unfold charAt?
  rw [toNat_ofNat_of_lt (by omega), if_pos (by omega), Char.ofNat_toNat]

theorem charAt?_two (h : 0x7F < c.toNat) (h' : c.toNat ≤ 0x7FF) :
    charAt? (UInt8.ofNat (c.toNat / 64 % 32 + 192)) (UInt8.ofNat (c.toNat % 64 + 128) :: rest) =
      some (c, 1) := by
  rw [charAt?, toNat_ofNat_of_lt (by omega), if_neg (by omega), if_neg (by omega),
    if_pos (by omega)]
  simp only [tail?_continuation, Option.bind_eq_bind, Option.bind_some]
  rw [scalar?_toNat (c := c) (by omega) (by omega), Option.bind_some]

theorem charAt?_three (h : 0x7FF < c.toNat) (h' : c.toNat ≤ 0xFFFF) :
    charAt? (UInt8.ofNat (c.toNat / 4096 % 16 + 224))
        (UInt8.ofNat (c.toNat / 64 % 64 + 128) :: UInt8.ofNat (c.toNat % 64 + 128) :: rest) =
      some (c, 2) := by
  rw [charAt?, toNat_ofNat_of_lt (by omega), if_neg (by omega), if_neg (by omega),
    if_neg (by omega), if_pos (by omega)]
  simp only [tail?_continuation, Option.bind_eq_bind, Option.bind_some]
  rw [scalar?_toNat (c := c) (by omega) (by omega), Option.bind_some]

theorem charAt?_four (h : 0xFFFF < c.toNat) :
    charAt? (UInt8.ofNat (c.toNat / 262144 % 8 + 240))
        (UInt8.ofNat (c.toNat / 4096 % 64 + 128) :: UInt8.ofNat (c.toNat / 64 % 64 + 128) ::
          UInt8.ofNat (c.toNat % 64 + 128) :: rest) =
      some (c, 3) := by
  have hmax := toNat_lt c
  rw [charAt?, toNat_ofNat_of_lt (by omega), if_neg (by omega), if_neg (by omega),
    if_neg (by omega), if_neg (by omega), if_pos (by omega)]
  simp only [tail?_continuation, Option.bind_eq_bind, Option.bind_some]
  rw [scalar?_toNat (c := c) (by omega) (by omega), Option.bind_some]

/-- The bytes of a character are read as this character, whatever follows them. -/
theorem exists_charAt?_encode (c : Char) (rest : Bytes) :
    ∃ b bs, String.utf8EncodeChar c = b :: bs ∧ charAt? b (bs ++ rest) = some (c, bs.length) := by
  have hdef : String.utf8EncodeChar c = if c.toNat ≤ 0x7F then _ else _ := rfl
  rw [hdef]
  split_ifs with h₁ h₂ h₃
  · exact ⟨_, _, rfl, charAt?_one rest h₁⟩
  · exact ⟨_, _, rfl, charAt?_two rest (Nat.lt_of_not_le h₁) h₂⟩
  · exact ⟨_, _, rfl, charAt?_three rest (Nat.lt_of_not_le h₂) h₃⟩
  · exact ⟨_, _, rfl, charAt?_four rest (Nat.lt_of_not_le h₃)⟩

theorem chars?_flatMap_encode (cs : List Char) :
    chars? (cs.flatMap String.utf8EncodeChar) = some cs := by
  induction cs with
  | nil => rw [List.flatMap_nil, chars?]
  | cons c cs ih =>
    obtain ⟨b, bs, hbytes, hchar⟩ := exists_charAt?_encode c (cs.flatMap String.utf8EncodeChar)
    rw [List.flatMap_cons, hbytes, List.cons_append, chars?, hchar]
    simp only [List.drop_left, ih, Option.map_some]

/-- Reading gives back what was written. -/
theorem decode?_encode (s : String) : decode? (encode s) = some s := by
  rw [decode?, encode, chars?_flatMap_encode, Option.map_some, String.ofList_toList]

/-- A character that is no control character has no byte of one. -/
theorem le_of_mem_utf8EncodeChar {c : Char} (h : 0x20 ≤ c.toNat) {b : UInt8}
    (hb : b ∈ String.utf8EncodeChar c) : 0x20 ≤ b.toNat := by
  have hmax := toNat_lt c
  unfold String.utf8EncodeChar at hb
  change b ∈ if c.toNat ≤ 0x7F then [UInt8.ofNat c.toNat] else _ at hb
  split_ifs at hb with h₁
  · rw [List.mem_singleton.mp hb, toNat_ofNat_of_lt (by omega)]
    exact h
  all_goals
    simp only [List.mem_cons, List.not_mem_nil, or_false] at hb
    rcases hb with rfl | rfl | rfl | rfl <;> rw [toNat_ofNat_of_lt (by omega)] <;> omega

theorem le_of_mem_encode {cs : List Char} (h : ∀ c ∈ cs, 0x20 ≤ c.toNat) {b : UInt8}
    (hb : b ∈ encode (String.ofList cs)) : 0x20 ≤ b.toNat := by
  rw [encode, String.toList_ofList] at hb
  obtain ⟨c, hc, hb⟩ := List.mem_flatMap.mp hb
  exact le_of_mem_utf8EncodeChar (h c hc) hb

end SolidityCalls.Utf8
