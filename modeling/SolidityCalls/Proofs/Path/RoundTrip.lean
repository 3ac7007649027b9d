import SolidityCalls.Path
import Mathlib.Data.List.Basic

/-! Paths and their texts. A path whose components can stand between slashes is read back from
its text, so such paths are told apart by their texts. -/
namespace SolidityCalls

/-- A text that can stand as a component of a path. -/
structure IsComponent (c : String) : Prop where
  ne_empty : c ≠ ""
  ne_dot : c ≠ "."
  no_slash : '/' ∉ c.toList

instance (c : String) : Decidable (IsComponent c) :=
  decidable_of_iff (c ≠ "" ∧ c ≠ "." ∧ '/' ∉ c.toList)
    ⟨fun h => ⟨h.1, h.2.1, h.2.2⟩, fun h => ⟨h.ne_empty, h.ne_dot, h.no_slash⟩⟩

namespace Path

theorem splitSlash_eq_splitOn (cs : List Char) : splitSlash cs = cs.splitOn '/' := by
  induction cs with
  | nil => rfl
  | cons c cs ih =>
    rw [splitSlash, List.splitOn_cons_eq_if_modifyHead, ih]
    by_cases hc : c = '/'
    · simp [hc]
    · obtain ⟨piece, pieces, h⟩ := List.exists_cons_of_ne_nil (List.splitOn_ne_nil '/' cs)
      simp [hc, h]

theorem no_slash_of_mem_splitSlash {cs piece : List Char} (h : piece ∈ splitSlash cs) :
    '/' ∉ piece := by
  induction cs generalizing piece with
  | nil =>
    rw [splitSlash, List.mem_singleton] at h
    simp [h]
  | cons c cs ih =>
    rw [splitSlash] at h
    by_cases hc : c = '/'
    · rw [if_pos hc] at h
      rcases List.mem_cons.mp h with rfl | h
      · exact List.not_mem_nil
      · exact ih h
    · rw [if_neg hc] at h
      cases hs : splitSlash cs with
      | nil =>
        rw [hs] at h
        simpa [List.mem_singleton.mp h] using Ne.symm hc
      | cons first rest =>
        rw [hs] at h ih
        rcases List.mem_cons.mp h with rfl | h
        · exact List.not_mem_cons_of_ne_of_not_mem (Ne.symm hc) (ih List.mem_cons_self)
        · exact ih (List.mem_cons_of_mem _ h)

theorem no_slash_of_mem_pieces {s c : String} (h : c ∈ pieces s) : '/' ∉ c.toList := by
  obtain ⟨piece, hpiece, rfl⟩ := List.mem_map.mp h
  rw [String.toList_ofList]
  exact no_slash_of_mem_splitSlash hpiece

theorem pieces_intercalate {parts : List String} (hne : parts ≠ [])
    (h : ∀ c ∈ parts, '/' ∉ c.toList) : pieces ("/".intercalate parts) = parts := by
  have hslash : ∀ l ∈ parts.map String.toList, '/' ∉ l := by
    intro l hl
    obtain ⟨c, hc, rfl⟩ := List.mem_map.mp hl
    exact h c hc
  have htext : ("/".intercalate parts).toList = ['/'].intercalate (parts.map String.toList) :=
    String.toList_intercalate
  rw [pieces, splitSlash_eq_splitOn, htext,
    List.splitOn_intercalate '/' hslash (by simpa using hne)]
  simp [List.map_map, Function.comp_def]

/-- Parts without slashes are told apart by their joined texts. -/
theorem intercalate_injective {a b : List String} (ha : a ≠ []) (hb : b ≠ [])
    (hslash : ∀ c ∈ a, '/' ∉ c.toList) (hslash' : ∀ c ∈ b, '/' ∉ c.toList)
    (h : "/".intercalate a = "/".intercalate b) : a = b := by
  have hpieces := congrArg pieces h
  rwa [pieces_intercalate ha hslash, pieces_intercalate hb hslash'] at hpieces

/-- Every component can stand between slashes. Paths read from a text are of this kind. -/
def IsPlain (p : Path) : Prop := ∀ c ∈ p.parts, IsComponent c

instance (p : Path) : Decidable p.IsPlain :=
  inferInstanceAs (Decidable (∀ c ∈ p.parts, IsComponent c))

theorem parse_isPlain (s : String) : (parse s).IsPlain := by
  intro c hc
  obtain ⟨hmem, hkeep⟩ := List.mem_filter.mp hc
  have hkeep : c ≠ "" ∧ c ≠ "." := by simpa using hkeep
  exact ⟨hkeep.1, hkeep.2, no_slash_of_mem_pieces hmem⟩

theorem filter_pieces_intercalate {parts : List String} (h : ∀ c ∈ parts, IsComponent c) :
    (pieces ("/".intercalate parts)).filter (fun p => p ≠ "" ∧ p ≠ ".") = parts := by
  by_cases hne : parts = []
  · subst hne
    rfl
  · rw [pieces_intercalate hne fun c hc => (h c hc).no_slash]
    refine List.filter_eq_self.mpr fun c hc => ?_
    simpa using ⟨(h c hc).ne_empty, (h c hc).ne_dot⟩

/-- The text of plain components does not start with a slash. -/
theorem head?_intercalate {parts : List String} (h : ∀ c ∈ parts, IsComponent c) :
    ("/".intercalate parts).toList.head? ≠ some '/' := by
  cases parts with
  | nil => simp
  | cons c rest =>
    have hc := h c List.mem_cons_self
    obtain ⟨x, xs, hx⟩ := List.exists_cons_of_ne_nil (mt String.toList_eq_nil_iff.mp hc.ne_empty)
    have hslash : x ≠ '/' := by
      have := hc.no_slash
      rw [hx] at this
      exact fun he => this (he ▸ List.mem_cons_self)
    cases rest with
    | nil => simpa [hx] using hslash
    | cons d rest => simpa [String.intercalate_cons_cons, hx] using hslash

theorem anchorOf_text (anchor : Anchor) {cs : List Char} (h : cs.head? ≠ some '/') :
    anchorOf (anchor.text.toList ++ cs) = anchor := by
  cases cs with
  | nil => cases anchor <;> rfl
  | cons c cs =>
    have hc : c ≠ '/' := by simpa using h
    cases anchor <;> simp [Anchor.text, anchorOf, hc]

theorem filter_pieces_text (anchor : Anchor) (s : String) :
    (pieces (anchor.text ++ s)).filter (fun p => p ≠ "" ∧ p ≠ ".") =
      (pieces s).filter fun p => p ≠ "" ∧ p ≠ "." := by
  cases anchor <;> simp [Anchor.text, pieces, splitSlash]

/-- A plain path is read back from its text. -/
theorem parse_render {p : Path} (h : p.IsPlain) : parse p.render = p := by
  obtain ⟨anchor, parts⟩ := p
  by_cases hdot : anchor = .relative ∧ parts = []
  · obtain ⟨rfl, rfl⟩ := hdot
    rfl
  · have hrender : render ⟨anchor, parts⟩ = anchor.text ++ "/".intercalate parts := by
      cases anchor <;> cases parts <;> simp_all [render]
    rw [parse, hrender, filter_pieces_text, filter_pieces_intercalate h, String.toList_append,
      anchorOf_text anchor (head?_intercalate h)]

theorem render_injective {p q : Path} (hp : p.IsPlain) (hq : q.IsPlain)
    (h : p.render = q.render) : p = q := by
  rw [← parse_render hp, ← parse_render hq, h]

end Path
end SolidityCalls
