import SolidityCalls.Text.Lines
import Mathlib.Data.List.Basic

/-! Lines that hold no line end are found again when they are written one below the other. -/
namespace SolidityCalls.Text

/-- A byte that ends no line. -/
def IsInLine (b : UInt8) : Prop := b ≠ newline ∧ b ≠ carriageReturn

theorem lines_newline (rest : Bytes) : lines (newline :: rest) = [] :: lines rest := by
  conv_lhs => unfold lines
  exact if_pos rfl

theorem lines_cons {b : UInt8} (h : IsInLine b) {rest line : Bytes} {others : List Bytes}
    (hrest : lines rest = line :: others) : lines (b :: rest) = (b :: line) :: others := by
  unfold lines
  rw [if_neg h.1, if_neg h.2, hrest]

theorem lines_append_newline {line : Bytes} (h : ∀ b ∈ line, IsInLine b) (rest : Bytes) :
    lines (line ++ newline :: rest) = line :: lines rest := by
  induction line with
  | nil => exact lines_newline rest
  | cons b line ih =>
    obtain ⟨hb, hline⟩ := List.forall_mem_cons.mp h
    exact lines_cons hb (ih hline)

/-- Each line with a newline after it. -/
theorem lines_flatMap {ls : List Bytes} (h : ∀ line ∈ ls, ∀ b ∈ line, IsInLine b) :
    lines (ls.flatMap (· ++ [newline])) = ls := by
  induction ls with
  | nil => rw [List.flatMap_nil, lines]
  | cons line ls ih =>
    obtain ⟨hline, hls⟩ := List.forall_mem_cons.mp h
    rw [List.flatMap_cons, List.append_assoc, List.singleton_append, lines_append_newline hline,
      ih hls]

/-- A line that starts and ends with something has nothing to strip. -/
theorem stripBytes_eq_self {bs : Bytes} (hhead : ∀ b ∈ bs.head?, ¬ isBlankByte b)
    (hlast : ∀ b ∈ bs.getLast?, ¬ isBlankByte b) : stripBytes bs = bs := by
  have hfront : bs.dropWhile isBlankByte = bs := by
    cases bs with
    | nil => rfl
    | cons b bs => exact List.dropWhile_cons_of_neg (hhead b rfl)
  have hback : bs.reverse.dropWhile isBlankByte = bs.reverse := by
    cases hbs : bs.reverse with
    | nil => rfl
    | cons b rest =>
      refine List.dropWhile_cons_of_neg (hlast b ?_)
      rw [← List.head?_reverse, hbs, List.head?_cons]
      rfl
  rw [stripBytes, hfront, hback, List.reverse_reverse]

end SolidityCalls.Text
