import SolidityCalls.Text.Character
import Mathlib.Data.List.TakeWhile

/-! Tokens of a text: maximal runs of word characters, and other characters one by one. Blanks only
stand between tokens, so a text can be spaced in another way without a change of its tokens. -/
namespace SolidityCalls.Text

/-- A word character goes with the word right after it. -/
def tokens : List Char → List (List Char)
  | [] => []
  | c :: cs =>
    if isBlank c then tokens cs
    else if isWord c ∧ cs.head?.any isWord then
      match tokens cs with
      | word :: rest => (c :: word) :: rest
      | [] => [[c]]
    else [c] :: tokens cs

example : tokens "mapping( address payable=>uint )".toList =
    ["mapping", "(", "address", "payable", "=", ">", "uint", ")"].map String.toList := by
  decide +kernel

/-- The code points of all blanks. -/
def blankCodes : List Nat :=
  List.range' 9 5 ++ List.range' 0x1C 5 ++ [0x85, 0xA0, 0x1680] ++ List.range' 0x2000 11 ++
    [0x2028, 0x2029, 0x202F, 0x205F, 0x3000]

theorem toNat_mem_blankCodes {c : Char} (h : isBlank c) : c.toNat ∈ blankCodes := by
  simp only [isBlank, isWhiteSpace, Bool.or_eq_true, Bool.and_eq_true, decide_eq_true_eq,
    beq_iff_eq] at h
  simp only [blankCodes, List.mem_append, List.mem_range'_1, List.mem_cons, List.not_mem_nil]
  omega

/-- No blank is a word character. -/
theorem isWord_eq_false_of_isBlank {c : Char} (h : isBlank c) : isWord c = false := by
  have hall : ∀ n ∈ blankCodes, isWord (Char.ofNat n) = false := by decide +kernel
  simpa using hall _ (toNat_mem_blankCodes h)

theorem isBlank_eq_false_of_isWord {c : Char} (h : isWord c) : isBlank c = false := by
  rw [← Bool.not_eq_true]
  intro hblank
  rw [isWord_eq_false_of_isBlank hblank] at h
  cases h

section Tokens

variable {c : Char} {cs ds blanks blanks' : List Char}

theorem tokens_cons_of_isBlank (h : isBlank c) (cs : List Char) : tokens (c :: cs) = tokens cs := by
  rw [tokens, if_pos h]

theorem tokens_cons_of_not (hblank : ¬ isBlank c) (h : ¬ (isWord c ∧ cs.head?.any isWord)) :
    tokens (c :: cs) = [c] :: tokens cs := by
  rw [tokens, if_neg hblank, if_neg h]

/-- The first token is the whole run of word characters. -/
theorem tokens_cons_of_isWord (h : isWord c) (cs : List Char) :
    tokens (c :: cs) = (c :: cs.takeWhile isWord) :: tokens (cs.dropWhile isWord) := by
  have hblank : ¬ isBlank c := by simp [isBlank_eq_false_of_isWord h]
  induction cs generalizing c with
  | nil => rw [tokens_cons_of_not hblank (by simp)]; rfl
  | cons d cs ih =>
    cases hd : isWord d with
    | true =>
      have hnext := ih hd (by simp [isBlank_eq_false_of_isWord hd])
      rw [tokens, if_neg hblank, if_pos ⟨h, by simpa using hd⟩, hnext,
        List.takeWhile_cons_of_pos hd, List.dropWhile_cons_of_pos hd]
    | false =>
      rw [tokens_cons_of_not hblank (by simp [hd]), List.takeWhile_cons_of_neg (by simp [hd]),
        List.dropWhile_cons_of_neg (by simp [hd])]

theorem exists_tokens_eq_cons (h : cs.head?.any isWord) :
    ∃ word rest, tokens cs = word :: rest := by
  cases cs with
  | nil => cases h
  | cons c cs => exact ⟨_, _, tokens_cons_of_isWord (by simpa using h) cs⟩

/-- The tokens are the text without its blanks. -/
theorem flatten_tokens (cs : List Char) : (tokens cs).flatten = cs.filter fun c => !isBlank c := by
  induction cs with
  | nil => rfl
  | cons c cs ih =>
    by_cases hblank : isBlank c
    · simp [tokens_cons_of_isBlank hblank, ih, hblank]
    · by_cases hjoins : isWord c ∧ cs.head?.any isWord
      · obtain ⟨word, rest, hcs⟩ := exists_tokens_eq_cons hjoins.2
        rw [tokens, if_neg hblank, if_pos hjoins, hcs]
        simp [hblank, ← ih, hcs]
      · simp [tokens_cons_of_not hblank hjoins, ih, hblank]

/-- No word goes on over the border between two texts. -/
def IsBorder (cs ds : List Char) : Prop := ¬ (cs.getLast?.any isWord ∧ ds.head?.any isWord)

theorem IsBorder.of_cons (h : IsBorder (c :: cs) ds) : IsBorder cs ds := by
  cases cs with
  | nil => simp [IsBorder]
  | cons d cs => simpa [IsBorder] using h

/-- Texts with a border between them have their tokens one after the other. -/
theorem tokens_append (h : IsBorder cs ds) : tokens (cs ++ ds) = tokens cs ++ tokens ds := by
  induction cs with
  | nil => rfl
  | cons c cs ih =>
    have ih := ih h.of_cons
    rw [List.cons_append]
    by_cases hblank : isBlank c
    · rw [tokens_cons_of_isBlank hblank, tokens_cons_of_isBlank hblank, ih]
    · by_cases hjoins : isWord c ∧ cs.head?.any isWord
      · obtain ⟨word, rest, hcs⟩ := exists_tokens_eq_cons hjoins.2
        have hhead : (cs ++ ds).head?.any isWord := by
          cases cs with
          | nil => cases hjoins.2
          | cons d cs => exact hjoins.2
        rw [tokens, tokens, if_neg hblank, if_neg hblank, if_pos hjoins, if_pos ⟨hjoins.1, hhead⟩,
          ih, hcs, List.cons_append]
        rfl
      · have hjoins' : ¬ (isWord c ∧ (cs ++ ds).head?.any isWord) := by
          cases cs with
          | nil => simpa [IsBorder] using h
          | cons d cs => exact hjoins
        rw [tokens_cons_of_not hblank hjoins, tokens_cons_of_not hblank hjoins', ih,
          List.cons_append]

theorem tokens_blanks_append (h : ∀ c ∈ blanks, isBlank c) (ds : List Char) :
    tokens (blanks ++ ds) = tokens ds := by
  induction blanks with
  | nil => rfl
  | cons c blanks ih =>
    obtain ⟨hc, hblanks⟩ := List.forall_mem_cons.mp h
    rw [List.cons_append, tokens_cons_of_isBlank hc, ih hblanks]

/-- Blanks between two texts, which are needed only where a word would go on without them. -/
structure IsSpacing (cs ds blanks : List Char) : Prop where
  isBlank : ∀ c ∈ blanks, isBlank c
  border : blanks = [] → IsBorder cs ds

theorem IsSpacing.tokens_eq (h : IsSpacing cs ds blanks) :
    tokens (cs ++ blanks ++ ds) = tokens cs ++ tokens ds := by
  have hborder : IsBorder cs (blanks ++ ds) := by
    cases blanks with
    | nil => exact h.border rfl
    | cons c blanks =>
      rintro ⟨_, hword⟩
      simp [isWord_eq_false_of_isBlank (h.isBlank c List.mem_cons_self)] at hword
  rw [List.append_assoc, tokens_append hborder, tokens_blanks_append h.isBlank]

end Tokens

end SolidityCalls.Text
