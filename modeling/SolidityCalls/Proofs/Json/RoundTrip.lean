import SolidityCalls.Proofs.Json.Token
import SolidityCalls.Proofs.Text.Utf8

/-! Values are read back from what is written, in any layout: a layout sets the parts of a value
apart by blanks, and blanks are all that reading leaves out. -/
namespace SolidityCalls.Json

mutual

/-- The value that a text written from `j` stands for. -/
def value : Json → Value
  | .null => .null
  | .bool b => .bool b
  | .int n => .int n
  | .string s => .string s
  | .array items => .array (valueItems items)
  | .object fields => .object (OrderedMap.ofPairs (valueFields fields))

def valueItems : List Json → List Value
  | [] => []
  | j :: rest => j.value :: valueItems rest

def valueFields : List (String × Json) → List (String × Value)
  | [] => []
  | (key, j) :: rest => (key, j.value) :: valueFields rest

end

mutual

/-- How deeply arrays and objects nest. -/
def depth : Json → Nat
  | .array items => depthItems items + 1
  | .object fields => depthFields fields + 1
  | _ => 0

def depthItems : List Json → Nat
  | [] => 0
  | j :: rest => max j.depth (depthItems rest)

def depthFields : List (String × Json) → Nat
  | [] => 0
  | (_, j) :: rest => max j.depth (depthFields rest)

end

theorem skip_append {blanks : List Char} (h : blanks.all isBlank) (cs : List Char) :
    skip (blanks ++ cs) = skip cs :=
  List.dropWhile_append_of_pos (List.all_eq_true.mp h)

theorem skip_cons {c : Char} (h : ¬ isBlank c) (cs : List Char) : skip (c :: cs) = c :: cs :=
  List.dropWhile_cons_of_neg h

theorem closing_blank {α : Type} (l : Layout) (level : Nat) (parts : List α) :
    (l.closing level parts).all isBlank := by
  unfold Layout.closing
  split
  · rfl
  · exact l.gap_blank level

/-- A character that starts a value. -/
def IsStart (c : Char) : Prop := c ∈ ['"', '[', '{', 't', 'f', 'n', '-'] ∨ c.isDigit

theorem IsStart.not_blank {c : Char} (h : IsStart c) : ¬ isBlank c := by
  rintro hblank
  simp only [isBlank, Bool.or_eq_true, beq_iff_eq, or_assoc] at hblank
  rcases hblank with rfl | rfl | rfl | rfl <;> simp [IsStart, Char.isDigit] at h

theorem exists_int_eq_cons (n : Int) : ∃ c cs, (toString n).toList = c :: cs ∧
    (c = '-' ∨ c.isDigit) := by
  rw [toList_toString_int]
  split_ifs
  · exact ⟨_, _, rfl, .inl rfl⟩
  · cases hdigits : Nat.toDigits 10 n.natAbs with
    | nil => exact absurd hdigits Nat.toDigits_ne_nil
    | cons c cs => exact ⟨c, cs, rfl, .inr (isDigit_of_mem_toDigits (hdigits ▸ List.mem_cons_self))⟩

theorem exists_write_eq_cons (l : Layout) (level : Nat) (j : Json) :
    ∃ c cs, j.write l level = c :: cs ∧ IsStart c := by
  match j with
  | .null => exact ⟨_, "ull".toList, rfl, .inl (by decide)⟩
  | .bool true => exact ⟨_, "rue".toList, rfl, .inl (by decide)⟩
  | .bool false => exact ⟨_, "alse".toList, rfl, .inl (by decide)⟩
  | .string s => exact ⟨_, _, rfl, .inl (by decide)⟩
  | .array items => exact ⟨_, _, rfl, .inl (by decide)⟩
  | .object fields => exact ⟨_, _, rfl, .inl (by decide)⟩
  | .int n =>
    obtain ⟨c, cs, heq, hstart⟩ := exists_int_eq_cons n
    refine ⟨c, cs, heq, hstart.imp (fun h => ?_) id⟩
    simp [h]

section Step

variable {fuel levels : Nat} {cs rest : List Char}

theorem value?_string {s : String} (hs : skip cs = quote s ++ rest) :
    value? (fuel + 1) levels cs = some (.string s, rest) := by
  simp only [value?, hs, quote, List.cons_append, List.append_assoc,
    List.nil_append, stringTail_flatMap_escape, Option.map_some, String.ofList_toList]

theorem value?_null (hs : skip cs = "null".toList ++ rest) :
    value? (fuel + 1) levels cs = some (.null, rest) := by
  have hs : skip cs = 'n' :: 'u' :: 'l' :: 'l' :: rest := hs
  simp only [value?, hs]

theorem value?_true (hs : skip cs = "true".toList ++ rest) :
    value? (fuel + 1) levels cs = some (.bool true, rest) := by
  have hs : skip cs = 't' :: 'r' :: 'u' :: 'e' :: rest := hs
  simp only [value?, hs]

theorem value?_false (hs : skip cs = "false".toList ++ rest) :
    value? (fuel + 1) levels cs = some (.bool false, rest) := by
  have hs : skip cs = 'f' :: 'a' :: 'l' :: 's' :: 'e' :: rest := hs
  simp only [value?, hs]

theorem value?_number {c : Char} (hs : skip cs = c :: rest) (hc : c = '-' ∨ c.isDigit) :
    value? (fuel + 1) levels cs = number? (c :: rest) := by
  have hne : c ∉ ['"', '[', '{', 't', 'f', 'n'] := by
    intro hmem
    simp only [List.mem_cons, List.not_mem_nil, or_false] at hmem
    rcases hmem with rfl | rfl | rfl | rfl | rfl | rfl <;> simp [Char.isDigit] at hc
  simp only [List.mem_cons, List.not_mem_nil, or_false, not_or] at hne
  rw [value?]
  simp only [hs]
  split <;> simp_all

theorem value?_array {inner after : List Char} {vs : List Value} (hs : skip cs = '[' :: inner)
    (hlevels : levels ≠ 0) (hinner : ∀ r, skip inner ≠ ']' :: r)
    (hitems : items? fuel (levels - 1) inner = some (vs, after)) :
    value? (fuel + 1) levels cs = some (.array vs, after) := by
  rw [value?]
  simp only [hs, hlevels, if_false, hitems, Option.map_some]

theorem value?_emptyArray {inner : List Char} (hs : skip cs = '[' :: inner)
    (hlevels : levels ≠ 0) (hinner : skip inner = ']' :: rest) :
    value? (fuel + 1) levels cs = some (.array [], rest) := by
  rw [value?]
  simp only [hs, hlevels, if_false, hinner]

theorem value?_emptyObject {inner : List Char} (hs : skip cs = '{' :: inner)
    (hlevels : levels ≠ 0) (hinner : skip inner = '}' :: rest) :
    value? (fuel + 1) levels cs = some (.object [], rest) := by
  rw [value?]
  simp only [hs, hlevels, if_false, hinner]

theorem value?_object {inner after : List Char} {fs : List (String × Value)}
    (hs : skip cs = '{' :: inner) (hlevels : levels ≠ 0) (hinner : ∀ r, skip inner ≠ '}' :: r)
    (hfields : fields? fuel (levels - 1) inner = some (fs, after)) :
    value? (fuel + 1) levels cs = some (.object (OrderedMap.ofPairs fs), after) := by
  rw [value?]
  simp only [hs, hlevels, if_false, hfields, Option.map_some]

theorem items?_last {v : Value} {r after : List Char}
    (hvalue : value? fuel levels cs = some (v, r)) (hr : skip r = ']' :: after) :
    items? (fuel + 1) levels cs = some ([v], after) := by
  simp only [items?, hvalue, hr]

theorem items?_more {v : Value} {r after after' : List Char} {vs : List Value}
    (hvalue : value? fuel levels cs = some (v, r)) (hr : skip r = ',' :: after)
    (hrest : items? fuel levels after = some (vs, after')) :
    items? (fuel + 1) levels cs = some (v :: vs, after') := by
  simp only [items?, hvalue, hr, hrest, Option.map_some]

theorem fields?_last {key : String} {v : Value} {inner r after : List Char}
    (hs : skip cs = quote key ++ ':' :: inner) (hvalue : value? fuel levels inner = some (v, r))
    (hr : skip r = '}' :: after) :
    fields? (fuel + 1) levels cs = some ([(key, v)], after) := by
  have hcolon : skip (':' :: inner) = ':' :: inner := skip_cons (by decide) _
  simp only [fields?, hs, quote, List.cons_append, List.append_assoc, List.nil_append,
    stringTail_flatMap_escape, hcolon, hvalue, hr, String.ofList_toList]

theorem fields?_more {key : String} {v : Value} {inner r after after' : List Char}
    {fs : List (String × Value)} (hs : skip cs = quote key ++ ':' :: inner)
    (hvalue : value? fuel levels inner = some (v, r)) (hr : skip r = ',' :: after)
    (hrest : fields? fuel levels after = some (fs, after')) :
    fields? (fuel + 1) levels cs = some ((key, v) :: fs, after') := by
  have hcolon : skip (':' :: inner) = ':' :: inner := skip_cons (by decide) _
  simp only [fields?, hs, quote, List.cons_append, List.append_assoc, List.nil_append,
    stringTail_flatMap_escape, hcolon, hvalue, hr, hrest, String.ofList_toList, Option.map_some]

end Step

theorem endsNumber_cons {c : Char} (h : ¬ c.isDigit ∧ c ≠ '.' ∧ c ≠ 'e' ∧ c ≠ 'E')
    (cs : List Char) : EndsNumber (c :: cs) := by
  rintro d hd
  obtain rfl := Option.some.inj hd
  exact h

theorem endsNumber_append {blanks cs : List Char} (hblank : blanks.all isBlank)
    (h : EndsNumber cs) : EndsNumber (blanks ++ cs) := by
  cases blanks with
  | nil => exact h
  | cons c blanks =>
    have hc : isBlank c := List.all_eq_true.mp hblank c List.mem_cons_self
    simp only [isBlank, Bool.or_eq_true, beq_iff_eq, or_assoc] at hc
    refine endsNumber_cons ?_ _
    rcases hc with rfl | rfl | rfl | rfl <;> decide

theorem skip_write (l : Layout) (level : Nat) (j : Json) {blanks : List Char}
    (h : blanks.all isBlank) (rest : List Char) :
    skip (blanks ++ (j.write l level ++ rest)) = j.write l level ++ rest := by
  obtain ⟨c, cs, hj, hstart⟩ := exists_write_eq_cons l level j
  rw [skip_append h, hj, List.cons_append, skip_cons hstart.not_blank]

theorem exists_fuel {l : Layout} {level fuel : Nat} {j : Json}
    (h : (j.write l level).length ≤ fuel) : ∃ f, fuel = f + 1 := by
  obtain ⟨c, cs, hj, _⟩ := exists_write_eq_cons l level j
  rw [hj, List.length_cons] at h
  exact ⟨fuel - 1, by omega⟩

theorem write_array_append (l : Layout) (level : Nat) (items : List Json) (rest : List Char) :
    write l level (.array items) ++ rest =
      '[' :: (writeItems l (level + 1) items ++ (l.closing level items ++ ']' :: rest)) := by
  simp [write]

theorem write_object_append (l : Layout) (level : Nat) (fields : List (String × Json))
    (rest : List Char) :
    write l level (.object fields) ++ rest =
      '{' :: (writeFields l (level + 1) fields ++ (l.closing level fields ++ '}' :: rest)) := by
  simp [write]

theorem writeItems_cons_append (l : Layout) (level : Nat) (j : Json) (js : List Json)
    (rest : List Char) :
    writeItems l level (j :: js) ++ rest =
      l.gap level ++ (j.write l level ++ (comma js ++ (writeItems l level js ++ rest))) := by
  simp [writeItems]

theorem writeFields_cons_append (l : Layout) (level : Nat) (key : String) (j : Json)
    (fs : List (String × Json)) (rest : List Char) :
    writeFields l level ((key, j) :: fs) ++ rest =
      l.gap level ++ (quote key ++ ':' :: (l.afterColon ++
        (j.write l level ++ (comma fs ++ (writeFields l level fs ++ rest))))) := by
  simp [writeFields]

theorem skip_items_ne (l : Layout) (level : Nat) (j : Json) (js : List Json) (rest r : List Char) :
    skip (writeItems l level (j :: js) ++ rest) ≠ ']' :: r := by
  obtain ⟨c, cs, hj, hstart⟩ := exists_write_eq_cons l level j
  rw [writeItems_cons_append, skip_write l level j (l.gap_blank level), hj, List.cons_append]
  intro h
  obtain rfl := (List.cons.inj h).1
  simp [IsStart, Char.isDigit] at hstart

theorem skip_gap_quote (l : Layout) (level : Nat) (key : String) (rest : List Char) :
    skip (l.gap level ++ (quote key ++ rest)) = quote key ++ rest := by
  rw [skip_append (l.gap_blank level), quote, List.cons_append, List.cons_append,
    skip_cons (by decide)]

theorem skip_fields_ne (l : Layout) (level : Nat) (f : String × Json) (fs : List (String × Json))
    (rest r : List Char) : skip (writeFields l level (f :: fs) ++ rest) ≠ '}' :: r := by
  rw [writeFields_cons_append, skip_gap_quote, quote, List.cons_append]
  intro h
  exact absurd (List.cons.inj h).1 (by decide)

mutual

/-- A value is read back, with blanks before it and anything that does not go on with a number
after it. One unit of fuel for each character is enough. -/
theorem value?_write (l : Layout) (level : Nat) : ∀ (j : Json) {fuel levels : Nat}
    {blanks rest : List Char}, blanks.all isBlank → j.fits → j.depth ≤ levels →
    (j.write l level).length ≤ fuel → EndsNumber rest →
    value? fuel levels (blanks ++ (j.write l level ++ rest)) = some (j.value, rest)
  | .null, fuel, levels, blanks, rest, hb, _, _, hfuel, _ => by
    obtain ⟨fuel, rfl⟩ := exists_fuel hfuel
    exact value?_null (skip_write l level .null hb rest)
  | .bool true, fuel, levels, blanks, rest, hb, _, _, hfuel, _ => by
    obtain ⟨fuel, rfl⟩ := exists_fuel hfuel
    exact value?_true (skip_write l level (.bool true) hb rest)
  | .bool false, fuel, levels, blanks, rest, hb, _, _, hfuel, _ => by
    obtain ⟨fuel, rfl⟩ := exists_fuel hfuel
    exact value?_false (skip_write l level (.bool false) hb rest)
  | .string s, fuel, levels, blanks, rest, hb, _, _, hfuel, _ => by
    obtain ⟨fuel, rfl⟩ := exists_fuel hfuel
    exact value?_string (skip_write l level (.string s) hb rest)
  | .int n, fuel, levels, blanks, rest, hb, hfits, _, hfuel, hrest => by
    obtain ⟨fuel, rfl⟩ := exists_fuel hfuel
    obtain ⟨c, cs, hn, hc⟩ := exists_int_eq_cons n
    have hskip : skip (blanks ++ (write l level (.int n) ++ rest)) = c :: (cs ++ rest) :=
      (skip_write l level (.int n) hb rest).trans (congrArg (· ++ rest) hn)
    rw [value?_number hskip hc, ← List.cons_append, ← hn]
    exact number?_int hfits hrest
  | .array items, fuel, levels, blanks, rest, hb, hfits, hdepth, hfuel, _ => by
    obtain ⟨fuel, rfl⟩ := exists_fuel hfuel
    have hskip := skip_write l level (.array items) hb rest
    rw [write_array_append] at hskip ⊢
    rw [depth] at hdepth
    rw [← List.append_nil (write l level (.array items)), write_array_append] at hfuel
    simp only [List.length_cons, List.length_append] at hfuel
    cases items with
    | nil => exact value?_emptyArray hskip (by omega) (skip_cons (by decide) rest)
    | cons j js =>
      refine value?_array hskip (by omega) (skip_items_ne l (level + 1) j js _) ?_
      exact items?_write l (level + 1) (j :: js) (List.cons_ne_nil j js)
        (closing_blank l level (j :: js)) hfits (by omega) (by omega)
  | .object fields, fuel, levels, blanks, rest, hb, hfits, hdepth, hfuel, _ => by
    obtain ⟨fuel, rfl⟩ := exists_fuel hfuel
    have hskip := skip_write l level (.object fields) hb rest
    rw [write_object_append] at hskip ⊢
    rw [depth] at hdepth
    rw [← List.append_nil (write l level (.object fields)), write_object_append] at hfuel
    simp only [List.length_cons, List.length_append] at hfuel
    cases fields with
    | nil => exact value?_emptyObject hskip (by omega) (skip_cons (by decide) rest)
    | cons f fs =>
      refine value?_object hskip (by omega) (skip_fields_ne l (level + 1) f fs _) ?_
      exact fields?_write l (level + 1) (f :: fs) (List.cons_ne_nil f fs)
        (closing_blank l level (f :: fs)) hfits (by omega) (by omega)

theorem items?_write (l : Layout) (level : Nat) : ∀ (items : List Json) {fuel levels : Nat}
    {blanks rest : List Char}, items ≠ [] → blanks.all isBlank → fitsItems items →
    depthItems items ≤ levels → (writeItems l level items).length < fuel →
    items? fuel levels (writeItems l level items ++ (blanks ++ ']' :: rest)) =
      some (valueItems items, rest)
  | [], _, _, _, _, hne, _, _, _, _ => absurd rfl hne
  | j :: js, fuel + 1, levels, blanks, rest, _, hb, hfits, hdepth, hfuel => by
    rw [fitsItems, Bool.and_eq_true] at hfits
    rw [depthItems, Nat.max_le] at hdepth
    rw [← List.append_nil (writeItems l level (j :: js)), writeItems_cons_append] at hfuel
    simp only [List.length_append] at hfuel
    have hlen : (j.write l level).length ≤ fuel := by omega
    rw [writeItems_cons_append]
    cases js with
    | nil =>
      have hends : EndsNumber (blanks ++ ']' :: rest) :=
        endsNumber_append hb (endsNumber_cons (by decide) rest)
      have hvalue := value?_write l level j (l.gap_blank level) hfits.1 hdepth.1 hlen hends
      refine items?_last hvalue ?_
      rw [skip_append hb, skip_cons (by decide)]
    | cons k ks =>
      have hends : EndsNumber (',' :: (writeItems l level (k :: ks) ++ (blanks ++ ']' :: rest))) :=
        endsNumber_cons (by decide) _
      have hvalue := value?_write l level j (l.gap_blank level) hfits.1 hdepth.1 hlen hends
      refine items?_more hvalue (skip_cons (by decide) _) ?_
      exact items?_write l level (k :: ks) (List.cons_ne_nil k ks) hb hfits.2 hdepth.2
        (by simp [comma] at hfuel ⊢; omega)

theorem fields?_write (l : Layout) (level : Nat) : ∀ (fields : List (String × Json))
    {fuel levels : Nat} {blanks rest : List Char}, fields ≠ [] → blanks.all isBlank →
    fitsFields fields → depthFields fields ≤ levels →
    (writeFields l level fields).length < fuel →
    fields? fuel levels (writeFields l level fields ++ (blanks ++ '}' :: rest)) =
      some (valueFields fields, rest)
  | [], _, _, _, _, hne, _, _, _, _ => absurd rfl hne
  | (key, j) :: fs, fuel + 1, levels, blanks, rest, _, hb, hfits, hdepth, hfuel => by
    rw [fitsFields, Bool.and_eq_true] at hfits
    rw [depthFields, Nat.max_le] at hdepth
    rw [← List.append_nil (writeFields l level ((key, j) :: fs)), writeFields_cons_append] at hfuel
    simp only [List.length_append, List.length_cons] at hfuel
    have hlen : (j.write l level).length ≤ fuel := by omega
    rw [writeFields_cons_append]
    cases fs with
    | nil =>
      have hends : EndsNumber (blanks ++ '}' :: rest) :=
        endsNumber_append hb (endsNumber_cons (by decide) rest)
      have hvalue := value?_write l level j l.afterColon_blank hfits.1 hdepth.1 hlen hends
      refine fields?_last (skip_gap_quote l level key _) hvalue ?_
      rw [skip_append hb, skip_cons (by decide)]
    | cons f fs =>
      have hends : EndsNumber (',' :: (writeFields l level (f :: fs) ++ (blanks ++ '}' :: rest))) :=
        endsNumber_cons (by decide) _
      have hvalue := value?_write l level j l.afterColon_blank hfits.1 hdepth.1 hlen hends
      refine fields?_more (skip_gap_quote l level key _) hvalue (skip_cons (by decide) _) ?_
      exact fields?_write l level (f :: fs) (List.cons_ne_nil f fs) hb hfits.2 hdepth.2
        (by simp [comma] at hfuel ⊢; omega)

end

/-- A whole text is read back. -/
theorem read?_write (l : Layout) {j : Json} {levels : Nat} (hfits : j.fits)
    (hdepth : j.depth ≤ levels) : read? levels (String.ofList (j.write l 0)) = some j.value := by
  have hends : EndsNumber [] := fun c hc => nomatch hc
  have hblanks : ([] : List Char).all isBlank := rfl
  have hvalue := value?_write l 0 j hblanks hfits hdepth (Nat.le_succ _) hends
  rw [List.nil_append, List.append_nil] at hvalue
  simp only [read?, String.toList_ofList, hvalue]
  rfl

/-- The bytes of a text are read back. -/
theorem readBytes?_write (l : Layout) {j : Json} (hfits : j.fits) (hdepth : j.depth ≤ maxLevels) :
    readBytes? (Utf8.encode (String.ofList (j.write l 0))) = some j.value := by
  rw [readBytes?, Utf8.decode?_encode, Option.bind_some, read?_write l hfits hdepth]

end SolidityCalls.Json
