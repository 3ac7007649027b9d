import SolidityCalls.Text.Character

/-! Labels of declared types. A label is the text of the type without blanks, where
`address payable` counts as `address`. -/
namespace SolidityCalls.TypeLabel
open Text

/-- What follows `word` at the front of a text. -/
def after? : List Char → List Char → Option (List Char)
  | [], cs => some cs
  | _ :: _, [] => none
  | w :: ws, c :: cs => if w = c then after? ws cs else none

theorem length_after? {word cs rest : List Char} (h : after? word cs = some rest) :
    rest.length + word.length = cs.length := by
  fun_induction after? word cs with
  | case1 => simp_all
  | case2 => simp at h
  | case3 w ws cs ih => have := ih h; simp; omega
  | case4 => simp at h

/-- What follows `address`, at least one blank and the whole word `payable`. -/
def afterPayableAddress? (cs : List Char) : Option (List Char) :=
  match after? "address".toList cs with
  | some (c :: rest) =>
    if isBlank c then
      match after? "payable".toList (rest.dropWhile isBlank) with
      | some tail => if tail.head?.any isWord then none else some tail
      | none => none
    else none
  | _ => none

theorem length_afterPayableAddress? {cs rest : List Char}
    (h : afterPayableAddress? cs = some rest) : rest.length < cs.length := by
  unfold afterPayableAddress? at h
  split at h
  case h_1 c tail h₁ =>
    split at h
    · split at h
      case h_1 _ rest' h₂ =>
        split at h
        · simp at h
        · have e₁ := length_after? h₁
          have e₂ := length_after? h₂
          have e₃ := (List.dropWhile_sublist (p := isBlank) (l := tail)).length_le
          obtain rfl := Option.some.inj h
          simp at e₁
          omega
      · simp at h
    · simp at h
  · simp at h

/-- Writes `address` for every `address payable` made of whole words. `inWord` says that the
character before the text is a word character. -/
def plainAddresses (inWord : Bool) (cs : List Char) : List Char :=
  match _h : (if inWord then none else afterPayableAddress? cs) with
  | some rest => "address".toList ++ plainAddresses true rest
  | none =>
    match cs with
    | [] => []
    | c :: cs => c :: plainAddresses (isWord c) cs
termination_by cs.length
decreasing_by
  · cases inWord
    · exact length_afterPayableAddress? (by simpa using _h)
    · simp at _h
  · simp

def ofText (s : String) : String :=
  squeeze (String.ofList (plainAddresses false s.toList))

end SolidityCalls.TypeLabel
