import SolidityCalls.Proofs.Json.RoundTrip
import SolidityCalls.Proofs.Text.Lines

/-! Values on one line each. What is written on one line holds no control character, since strings
escape them; so a file of such lines is divided into exactly the values it was written from. -/
namespace SolidityCalls.Json

/-- The bytes of a value in a layout. -/
def encoded (l : Layout) (j : Json) : Bytes := Utf8.encode (String.ofList (j.write l 0))

theorem readBytes?_encoded (l : Layout) {j : Json} (hfits : j.fits) (hdepth : j.depth ≤ maxLevels) :
    readBytes? (j.encoded l) = some j.value :=
  readBytes?_write l hfits hdepth

/-- A text without control characters. -/
def IsShown (cs : List Char) : Prop := ∀ c ∈ cs, 0x20 ≤ c.toNat

namespace IsShown

theorem nil : IsShown [] := List.forall_mem_nil _

theorem cons {c : Char} {cs : List Char} (hc : 0x20 ≤ c.toNat) (h : IsShown cs) :
    IsShown (c :: cs) :=
  List.forall_mem_cons.mpr ⟨hc, h⟩

theorem append {cs ds : List Char} (hc : IsShown cs) (hd : IsShown ds) : IsShown (cs ++ ds) :=
  List.forall_mem_append.mpr ⟨hc, hd⟩

theorem of_all {cs : List Char} (h : cs.all fun c => 0x20 ≤ c.toNat) : IsShown cs := by
  simpa only [IsShown, List.all_eq_true, decide_eq_true_eq] using h

end IsShown

theorem isShown_hexDigits (width n : Nat) : IsShown (Text.hexDigits width n) := by
  induction width generalizing n with
  | zero => exact .nil
  | succ width ih =>
    have hdigit : ∀ k < 16, 0x20 ≤ (Nat.digitChar k).toNat := by decide
    exact (ih (n / 16)).append (.cons (hdigit _ (Nat.mod_lt n (by decide))) .nil)

theorem isShown_escape (c : Char) : IsShown (escape c) := by
  unfold escape
  split_ifs with _ _ _ _ _ _ _ hcontrol
  iterate 7 exact .of_all rfl
  · exact IsShown.append (.of_all rfl) (isShown_hexDigits 2 _)
  · exact .cons (Nat.le_of_not_lt hcontrol) .nil

theorem isShown_quote (s : String) : IsShown (quote s) := by
  have hchars : IsShown (s.toList.flatMap escape) := by
    intro d hd
    obtain ⟨c, _, hd⟩ := List.mem_flatMap.mp hd
    exact isShown_escape c d hd
  exact .append (.cons (by decide) hchars) (.cons (by decide) .nil)

theorem isShown_int (n : Int) : IsShown (toString n).toList := by
  have hdigits : IsShown (Nat.toDigits 10 n.natAbs) := by
    intro c hc
    have hdigit := isDigit_of_mem_toDigits hc
    simp only [Char.isDigit, Bool.and_eq_true, decide_eq_true_eq] at hdigit
    exact Nat.le_trans (by decide) hdigit.1
  rw [toList_toString_int]
  split_ifs
  · exact .cons (by decide) hdigits
  · exact hdigits

theorem isShown_comma {α : Type} (others : List α) : IsShown (comma others) := by
  unfold comma
  split_ifs
  · exact .nil
  · exact .cons (by decide) .nil

theorem isShown_closing {α : Type} (level : Nat) (parts : List α) :
    IsShown (Layout.oneLine.closing level parts) := by
  unfold Layout.closing
  split_ifs <;> exact .nil

mutual

theorem isShown_write (level : Nat) : ∀ j : Json, IsShown (j.write .oneLine level)
  | .null => .of_all rfl
  | .bool true => .of_all rfl
  | .bool false => .of_all rfl
  | .int n => isShown_int n
  | .string s => isShown_quote s
  | .array items => by
    rw [← List.append_nil (write ..), write_array_append]
    exact .cons (by decide) ((isShown_writeItems (level + 1) items).append
      (.append (isShown_closing level items) (.cons (by decide) .nil)))
  | .object fields => by
    rw [← List.append_nil (write ..), write_object_append]
    exact .cons (by decide) ((isShown_writeFields (level + 1) fields).append
      (.append (isShown_closing level fields) (.cons (by decide) .nil)))

theorem isShown_writeItems (level : Nat) : ∀ items, IsShown (writeItems .oneLine level items)
  | [] => .nil
  | j :: js =>
    ((IsShown.nil.append (isShown_write level j)).append (isShown_comma js)).append
      (isShown_writeItems level js)

theorem isShown_writeFields (level : Nat) : ∀ fields, IsShown (writeFields .oneLine level fields)
  | [] => .nil
  | (key, j) :: fs =>
    ((IsShown.append (.append (.append .nil (isShown_quote key)) (.cons (by decide) .nil))
      (isShown_write level j)).append (isShown_comma fs)).append (isShown_writeFields level fs)

end

theorem isInLine_encoded (j : Json) : ∀ b ∈ j.encoded .oneLine, Text.IsInLine b := by
  intro b hb
  have hle : 0x20 ≤ b.toNat := Utf8.le_of_mem_encode (isShown_write 0 j) hb
  constructor <;>
    rintro rfl <;>
    exact absurd hle (by decide)

theorem encode_line (j : Json) : Utf8.encode j.line = j.encoded .oneLine ++ [Text.newline] := by
  simp only [line, encoded, Utf8.encode, String.toList_ofList, List.flatMap_append]
  rfl

theorem encode_join (ss : List String) : Utf8.encode (String.join ss) = ss.flatMap Utf8.encode := by
  rw [Utf8.encode, String.toList_join, List.flatMap_assoc]
  rfl

/-- A file that was written line by line has these lines. -/
theorem lines_encode_join (js : List Json) :
    Text.lines (Utf8.encode (String.join (js.map line))) = js.map (encoded .oneLine) := by
  have hbytes : Utf8.encode (String.join (js.map line)) =
      (js.map (encoded .oneLine)).flatMap (· ++ [Text.newline]) := by
    rw [encode_join, List.flatMap_map, List.flatMap_map]
    simp only [encode_line]
  rw [hbytes]
  refine Text.lines_flatMap fun line hline => ?_
  obtain ⟨j, _, rfl⟩ := List.mem_map.mp hline
  exact isInLine_encoded j

theorem exists_encoded_object (fields : List (String × Json)) :
    ∃ inner, (Json.object fields).encoded .oneLine = 123 :: (inner ++ [125]) := by
  refine ⟨Utf8.encode (String.ofList
    (writeFields .oneLine 1 fields ++ Layout.oneLine.closing 0 fields)), ?_⟩
  simp only [encoded, write, Utf8.encode, String.toList_ofList, List.cons_append,
    List.flatMap_cons, List.flatMap_append]
  rfl

/-- The line of an object has no blanks around it. -/
theorem stripBytes_encoded_object (fields : List (String × Json)) :
    Text.stripBytes ((Json.object fields).encoded .oneLine) =
      (Json.object fields).encoded .oneLine := by
  obtain ⟨inner, hinner⟩ := exists_encoded_object fields
  rw [hinner]
  refine Text.stripBytes_eq_self ?_ ?_
  · rintro b ⟨⟩
    decide
  · rw [← List.cons_append, List.getLast?_concat]
    rintro b ⟨⟩
    decide

end SolidityCalls.Json
