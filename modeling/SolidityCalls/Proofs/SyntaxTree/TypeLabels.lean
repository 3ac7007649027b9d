import SolidityCalls.Link.Profile
import SolidityCalls.Proofs.Text.Tokens
import Mathlib.Data.List.Forall2

/-! Labels of types by the tokens of their texts. Whole words make the pair `address payable`, and
blanks stand between tokens only, so taking pairs and blanks out of the text is the same as taking
pairs out of the tokens. -/
namespace SolidityCalls.TypeLabel
open Text

/-- Every `address` with a `payable` right after it stands alone, from left to right. -/
def plainTokens : List (List Char) → List (List Char)
  | [] => []
  | [word] => [word]
  | word :: next :: rest =>
    if word = "address".toList ∧ next = "payable".toList then word :: plainTokens rest
    else word :: plainTokens (next :: rest)

section Tokens

variable {word : List Char} {rest : List (List Char)}

theorem plainTokens_pair (rest : List (List Char)) :
    plainTokens ("address".toList :: "payable".toList :: rest) =
      "address".toList :: plainTokens rest := by
  rw [plainTokens, if_pos ⟨rfl, rfl⟩]

theorem plainTokens_cons (h : word = "address".toList → ∀ more, rest ≠ "payable".toList :: more) :
    plainTokens (word :: rest) = word :: plainTokens rest := by
  cases rest with
  | nil => rfl
  | cons next rest =>
    rw [plainTokens, if_neg]
    rintro ⟨hword, rfl⟩
    exact h hword rest rfl

/-- Nothing but the word `payable` is left out, wherever it is left out. -/
theorem filter_plainTokens (ts : List (List Char)) :
    (plainTokens ts).filter (· ≠ "payable".toList) = ts.filter (· ≠ "payable".toList) := by
  fun_induction plainTokens ts with
  | case1 => rfl
  | case2 => rfl
  | case3 word next rest hpair ih =>
    rw [List.filter_cons, List.filter_cons, ih, hpair.2, List.filter_cons_of_neg (by simp)]
  | case4 word next rest _ ih => rw [List.filter_cons, List.filter_cons, ih]

/-- Without the pair the tokens stay as they are. -/
theorem plainTokens_of_no_pair {ts : List (List Char)}
    (h : ¬ ["address".toList, "payable".toList] <:+: ts) : plainTokens ts = ts := by
  fun_induction plainTokens ts with
  | case1 => rfl
  | case2 => rfl
  | case3 word next rest hpair =>
    exact absurd ⟨[], rest, by rw [hpair.1, hpair.2]; rfl⟩ h
  | case4 word next rest _ ih =>
    rw [ih fun hpair => h (hpair.trans (List.suffix_cons ..).isInfix)]

end Tokens

section Pair

variable {cs tail : List Char}

theorem after?_eq_some_iff {word : List Char} : after? word cs = some tail ↔ cs = word ++ tail := by
  fun_induction after? word cs with
  | case1 cs => simp [eq_comm]
  | case2 => simp
  | case3 w ws cs ih => simp [ih]
  | case4 w ws c cs hne => simp [Ne.symm hne]

theorem head?_dropWhile {p : Char → Bool} (cs : List Char) : ¬ (cs.dropWhile p).head?.any p := by
  have hstop := List.head?_dropWhile_not p cs
  cases hhead : (cs.dropWhile p).head? with
  | none => simp
  | some c => simpa [hhead] using hstop

/-- The pair stands at the front as two whole words. -/
theorem afterPayableAddress?_eq_some_iff : afterPayableAddress? cs = some tail ↔
    ∃ blanks, blanks ≠ [] ∧ (∀ c ∈ blanks, isBlank c) ∧ ¬ tail.head?.any isWord ∧
      cs = "address".toList ++ blanks ++ ("payable".toList ++ tail) := by
  unfold afterPayableAddress?
  constructor
  · intro h
    split at h
    next c rest haddress =>
      split at h
      next hblank =>
        split at h
        next found hpayable =>
          split at h
          next => cases h
          next hend =>
            obtain rfl := Option.some.inj h
            rw [after?_eq_some_iff] at haddress hpayable
            refine ⟨c :: rest.takeWhile isBlank, List.cons_ne_nil _ _, ?_, hend, ?_⟩
            · exact List.forall_mem_cons.mpr ⟨hblank, fun d hd => List.mem_takeWhile_imp hd⟩
            · rw [haddress, ← hpayable, List.append_assoc, List.cons_append,
                List.takeWhile_append_dropWhile]
        next => cases h
      next => cases h
    next => cases h
  · rintro ⟨blanks, hne, hblanks, hend, rfl⟩
    obtain ⟨c, blanks, rfl⟩ := List.exists_cons_of_ne_nil hne
    obtain ⟨hc, hblanks⟩ := List.forall_mem_cons.mp hblanks
    have haddress : after? "address".toList
        ("address".toList ++ c :: blanks ++ ("payable".toList ++ tail)) =
          some (c :: (blanks ++ ("payable".toList ++ tail))) := by
      rw [after?_eq_some_iff, List.append_assoc, List.cons_append]
    have hdrop : (blanks ++ ("payable".toList ++ tail)).dropWhile isBlank =
        "payable".toList ++ tail := by
      rw [List.dropWhile_append_of_pos hblanks]
      rfl
    rw [haddress]
    simp only [hc, if_true, hdrop, after?_eq_some_iff.mpr rfl, hend]
    rfl

/-- The pair makes two tokens. -/
theorem tokens_of_pair {blanks : List Char} (hne : blanks ≠ []) (hblanks : ∀ c ∈ blanks, isBlank c)
    (hend : ¬ tail.head?.any isWord) :
    tokens ("address".toList ++ blanks ++ ("payable".toList ++ tail)) =
      "address".toList :: "payable".toList :: tokens tail := by
  have haddress : tokens "address".toList = ["address".toList] := by decide +kernel
  have hpayable : tokens "payable".toList = ["payable".toList] := by decide +kernel
  have hspacing : IsSpacing "address".toList ("payable".toList ++ tail) blanks :=
    ⟨hblanks, fun hnil => absurd hnil hne⟩
  rw [hspacing.tokens_eq, tokens_append fun h => hend h.2, haddress, hpayable]
  rfl

/-- Two tokens that make the pair come from a pair at the front. -/
theorem exists_afterPayableAddress? {c : Char} (hc : isWord c) {more : List (List Char)}
    (h : tokens (c :: cs) = "address".toList :: "payable".toList :: more) :
    ∃ tail, afterPayableAddress? (c :: cs) = some tail := by
  rw [tokens_cons_of_isWord hc, List.cons.injEq] at h
  obtain ⟨haddress, hrest⟩ := h
  have hplain := head?_dropWhile (p := isWord) cs
  have hcs : c :: cs = "address".toList ++ cs.dropWhile isWord := by
    rw [← haddress, List.cons_append, List.takeWhile_append_dropWhile]
  generalize cs.dropWhile isWord = rest at hrest hplain hcs
  -- Behind the blanks stands the second word.
  have hblanks : ∀ d ∈ rest.takeWhile isBlank, isBlank d := fun d hd => List.mem_takeWhile_imp hd
  have hnonblank := head?_dropWhile (p := isBlank) rest
  have hsplit := List.takeWhile_append_dropWhile (p := isBlank) (l := rest)
  generalize rest.takeWhile isBlank = blanks at hblanks hsplit
  generalize rest.dropWhile isBlank = second at hnonblank hsplit
  rw [← hsplit, tokens_blanks_append hblanks] at hrest
  cases second with
  | nil => cases hrest
  | cons d ds =>
    by_cases hd : isWord d
    case pos =>
      rw [tokens_cons_of_isWord hd, List.cons.injEq] at hrest
      have hne : blanks ≠ [] := by
        rintro rfl
        exact hplain (by simpa [← hsplit] using hd)
      refine ⟨ds.dropWhile isWord, afterPayableAddress?_eq_some_iff.mpr
        ⟨blanks, hne, hblanks, head?_dropWhile ds, ?_⟩⟩
      rw [hcs, ← hsplit, ← hrest.1, List.cons_append, List.takeWhile_append_dropWhile,
        List.append_assoc]
    case neg =>
      have hblank : ¬ isBlank d := by simpa using hnonblank
      rw [tokens_cons_of_not hblank fun h => hd h.1, List.cons.injEq] at hrest
      exact absurd hrest.1 (by simp)

end Pair

section Addresses

variable {cs : List Char} {c : Char}

theorem plainAddresses_true_cons (c : Char) (cs : List Char) :
    plainAddresses true (c :: cs) = c :: plainAddresses (isWord c) cs := by
  rw [plainAddresses]
  rfl

theorem plainAddresses_false_cons (h : afterPayableAddress? (c :: cs) = none) :
    plainAddresses false (c :: cs) = c :: plainAddresses (isWord c) cs := by
  rw [plainAddresses]
  split
  next heq => simp [h] at heq
  next => rfl

theorem plainAddresses_false_pair {tail : List Char} (h : afterPayableAddress? cs = some tail) :
    plainAddresses false cs = "address".toList ++ plainAddresses true tail := by
  rw [plainAddresses]
  split
  next found heq =>
    obtain rfl : tail = found := by simpa [h] using heq
    rfl
  next heq => simp [h] at heq

@[simp] theorem plainAddresses_nil (inWord : Bool) : plainAddresses inWord [] = [] := by
  have hnone : afterPayableAddress? [] = none := rfl
  rw [plainAddresses]
  split
  next heq => cases inWord <;> simp [hnone] at heq
  next => rfl

/-- No pair starts with anything but a word character. -/
theorem afterPayableAddress?_of_not_isWord (hc : ¬ isWord c) (cs : List Char) :
    afterPayableAddress? (c :: cs) = none := by
  refine Option.eq_none_iff_forall_ne_some.mpr fun tail h => ?_
  obtain ⟨blanks, _, _, _, hcs⟩ := afterPayableAddress?_eq_some_iff.mp h
  obtain ⟨rfl, _⟩ := List.cons.inj hcs
  exact hc (by decide)

/-- Where no word goes on it makes no difference what stands before. -/
theorem plainAddresses_true_eq (h : ¬ cs.head?.any isWord) :
    plainAddresses true cs = plainAddresses false cs := by
  cases cs with
  | nil => simp
  | cons c cs =>
    have hc : ¬ isWord c := by simpa using h
    rw [plainAddresses_true_cons,
      plainAddresses_false_cons (afterPayableAddress?_of_not_isWord hc cs)]

/-- Inside a word everything is kept up to the end of the word. -/
theorem plainAddresses_true_run (cs : List Char) : plainAddresses true cs =
    cs.takeWhile isWord ++ plainAddresses false (cs.dropWhile isWord) := by
  induction cs with
  | nil => simp
  | cons c cs ih =>
    by_cases hc : isWord c
    · rw [plainAddresses_true_cons, hc, ih, List.takeWhile_cons_of_pos hc,
        List.dropWhile_cons_of_pos hc, List.cons_append]
    · rw [List.takeWhile_cons_of_neg hc, List.dropWhile_cons_of_neg hc, List.nil_append,
        plainAddresses_true_eq (by simpa using hc)]

/-- Without its blanks the text is the plain tokens. -/
theorem filter_plainAddresses (cs : List Char) :
    (plainAddresses false cs).filter (fun c => !isBlank c) = (plainTokens (tokens cs)).flatten := by
  induction hn : cs.length using Nat.strong_induction_on generalizing cs with
  | _ n ih =>
    subst hn
    cases cs with
    | nil => simp [tokens, plainTokens]
    | cons c cs =>
      by_cases hword : isWord c
      case neg =>
        have hnone := afterPayableAddress?_of_not_isWord hword cs
        have hrest := ih cs.length (by simp) cs rfl
        rw [plainAddresses_false_cons hnone, Bool.eq_false_iff.mpr hword]
        by_cases hblank : isBlank c
        · rw [tokens_cons_of_isBlank hblank, List.filter_cons_of_neg (by simp [hblank]), hrest]
        · have hne : [c] ≠ "address".toList := by simp
          rw [tokens_cons_of_not hblank fun h => hword h.1,
            plainTokens_cons fun h => absurd h hne, List.filter_cons_of_pos (by simp [hblank]),
            hrest, List.flatten_cons, List.singleton_append]
      case pos =>
        cases hpair : afterPayableAddress? (c :: cs) with
        | some tail =>
          have hlength := length_afterPayableAddress? hpair
          obtain ⟨blanks, hne, hblanks, hend, hcs⟩ := afterPayableAddress?_eq_some_iff.mp hpair
          rw [plainAddresses_false_pair hpair, plainAddresses_true_eq hend, hcs,
            tokens_of_pair hne hblanks hend, plainTokens_pair, List.filter_append,
            ih tail.length hlength tail rfl, List.flatten_cons]
          rfl
        | none =>
          have hkept : ∀ d ∈ c :: cs.takeWhile isWord, (!isBlank d) = true := by
            refine List.forall_mem_cons.mpr ⟨by simp [isBlank_eq_false_of_isWord hword], ?_⟩
            intro d hd
            simp [isBlank_eq_false_of_isWord (List.mem_takeWhile_imp hd)]
          have htokens : plainTokens (tokens (c :: cs)) =
              (c :: cs.takeWhile isWord) :: plainTokens (tokens (cs.dropWhile isWord)) := by
            rw [tokens_cons_of_isWord hword]
            refine plainTokens_cons fun haddress more hmore => ?_
            have hfront : tokens (c :: cs) = "address".toList :: "payable".toList :: more := by
              rw [tokens_cons_of_isWord hword, haddress, hmore]
            obtain ⟨tail, htail⟩ := exists_afterPayableAddress? hword hfront
            rw [hpair] at htail
            cases htail
          have hlength := (List.dropWhile_sublist (l := cs) isWord).length_le
          rw [plainAddresses_false_cons hpair, hword, plainAddresses_true_run, htokens,
            List.flatten_cons, ← List.cons_append, List.filter_append,
            List.filter_eq_self.mpr hkept, ih _ (Nat.lt_succ_of_le hlength) _ rfl]

end Addresses

section Label

/-- The label of a type is its tokens, the pair in them taken for its first word. -/
theorem ofText_eq (s : String) :
    ofText s = String.ofList (plainTokens (tokens s.toList)).flatten := by
  rw [ofText, squeeze, String.toList_ofList, filter_plainAddresses]

theorem ofText_congr {s t : String} (h : tokens s.toList = tokens t.toList) :
    ofText s = ofText t := by
  rw [ofText_eq, ofText_eq, h]

theorem not_isBlank_of_mem_ofText {s : String} {c : Char} (h : c ∈ (ofText s).toList) :
    ¬ isBlank c := by
  rw [ofText, squeeze, String.toList_ofList] at h
  simpa using (List.mem_filter.mp h).2

/-- A text without the pair loses its blanks only. -/
theorem ofText_of_no_pair {s : String}
    (h : ¬ ["address".toList, "payable".toList] <:+: tokens s.toList) :
    ofText s = squeeze s := by
  rw [ofText_eq, plainTokens_of_no_pair h, flatten_tokens, squeeze]

/-- The pair needs a blank. -/
theorem plainAddresses_of_not_isBlank (inWord : Bool) {cs : List Char}
    (h : ∀ c ∈ cs, ¬ isBlank c) : plainAddresses inWord cs = cs := by
  fun_induction plainAddresses inWord cs with
  | case1 inWord cs tail hpair =>
    have hpair : afterPayableAddress? cs = some tail := by
      cases inWord
      · simpa using hpair
      · simp at hpair
    obtain ⟨blanks, hne, hblanks, _, rfl⟩ := afterPayableAddress?_eq_some_iff.mp hpair
    obtain ⟨c, hc⟩ := List.exists_mem_of_ne_nil _ hne
    exact absurd (hblanks c hc) (h c (by simp [hc]))
  | case2 => rfl
  | case3 inWord c cs _ ih => rw [ih fun d hd => h d (List.mem_cons_of_mem _ hd)]

theorem ofText_ofText (s : String) : ofText (ofText s) = ofText s := by
  have hplain : ∀ c ∈ (ofText s).toList, ¬ isBlank c := fun c => not_isBlank_of_mem_ofText
  have hkept : (ofText s).toList.filter (fun c => !isBlank c) = (ofText s).toList :=
    List.filter_eq_self.mpr fun c hc => by simpa using hplain c hc
  conv_lhs => rw [ofText, plainAddresses_of_not_isBlank false hplain, String.ofList_toList, squeeze,
    hkept, String.ofList_toList]

end Label

end SolidityCalls.TypeLabel

namespace SolidityCalls

theorem map_eq_of_forall₂ {α β : Type} {r : α → α → Prop} {f : α → β} {xs ys : List α}
    (h : List.Forall₂ r xs ys) (hf : ∀ x y, r x y → f x = f y) : xs.map f = ys.map f := by
  have hmap : List.Forall₂ (· = ·) (xs.map f) (ys.map f) := by
    rw [List.forall₂_map_left_iff, List.forall₂_map_right_iff]
    exact h.imp hf
  rwa [List.forall₂_eq_eq_eq] at hmap

namespace Node
open Text TypeLabel

/-- The declared type as it is written. -/
def typeText (declaration : Node) : String :=
  textOf? (declaration.fieldOrKind? .type declaration.namedChildren "type_name")

/-- Two declarations spell one type: the texts have the same tokens. -/
def SpellsType (d d' : Node) : Prop := tokens d.typeText.toList = tokens d'.typeText.toList

theorem SpellsType.declaredType_eq {d d' : Node} (h : SpellsType d d') :
    d.declaredType = d'.declaredType :=
  ofText_congr h

/-- The label of a type is made of its tokens, so it does not depend on how the type is spaced, in
the identifiers of functions or in the types of variables. Without the pair `address payable` it is
the text without blanks, no word but `payable` is ever left out, and a label is its own label. -/
theorem typeLabel_of_tokens :
    (∀ s, ofText s = String.ofList (plainTokens (tokens s.toList)).flatten) ∧
    (∀ before blanks blanks' after, IsSpacing before after blanks →
      IsSpacing before after blanks' →
        ofText (String.ofList (before ++ blanks ++ after)) =
          ofText (String.ofList (before ++ blanks' ++ after))) ∧
    (∀ contractName functionName m m', List.Forall₂ SpellsType (parameters m) (parameters m') →
      m.signatureId contractName functionName = m'.signatureId contractName functionName) ∧
    (∀ c c', List.Forall₂ (fun d d' => d.declaredName = d'.declaredName ∧ SpellsType d d')
        (ofKinds c Profile.variableKinds) (ofKinds c' Profile.variableKinds) →
      Profile.variableTypes c = Profile.variableTypes c') ∧
    (∀ s, ¬ ["address".toList, "payable".toList] <:+: tokens s.toList → ofText s = squeeze s) ∧
    (∀ ts, (plainTokens ts).filter (· ≠ "payable".toList) = ts.filter (· ≠ "payable".toList)) ∧
    (∀ s, ∀ c ∈ (ofText s).toList, ¬ isBlank c) ∧
    ∀ s, ofText (ofText s) = ofText s := by
  refine ⟨ofText_eq, ?spacing, ?signature, ?registry, fun s => ofText_of_no_pair,
    filter_plainTokens, fun s c => not_isBlank_of_mem_ofText, ofText_ofText⟩
  case spacing =>
    intro before blanks blanks' after h h'
    apply ofText_congr
    rw [String.toList_ofList, String.toList_ofList, h.tokens_eq, h'.tokens_eq]
  case signature =>
    intro contractName functionName m m' h
    have htypes := map_eq_of_forall₂ (f := declaredType) h fun d d' => SpellsType.declaredType_eq
    rw [signatureId, signatureId, htypes]
  case registry =>
    intro c c' h
    have hvariables := map_eq_of_forall₂ (f := fun d => (d.declaredName, d.declaredType)) h
      fun d d' hd => Prod.ext hd.1 hd.2.declaredType_eq
    rw [Profile.variableTypes, Profile.variableTypes, hvariables]

/-- A function with one parameter, its type spelled as given. -/
def withParameter (type : String) : Node :=
  ⟨"function_definition", true, false, false, none, 0, "",
    [⟨"parameter", true, false, false, none, 0, "",
      [⟨"type_name", true, false, false, some .type, 0, type, []⟩]⟩]⟩

theorem typeLabel_of_tokens_mapping :
    (withParameter "mapping(address payable=>addresses[])").signatureId "C" "f" =
      (withParameter "mapping ( address\n\tpayable => addresses [ ] )").signatureId "C" "f" ∧
    ofText "mapping ( address\n\tpayable => addresses [ ] )" = "mapping(address=>addresses[])" := by
  obtain ⟨hlabel, _, hsignature, _⟩ := typeLabel_of_tokens
  constructor
  · refine hsignature "C" "f" _ _ (.cons ?_ .nil)
    show tokens _ = tokens _
    decide +kernel
  · rw [hlabel]
    decide +kernel

end Node
end SolidityCalls
