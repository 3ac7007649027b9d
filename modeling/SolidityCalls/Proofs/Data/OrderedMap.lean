import SolidityCalls.Data.OrderedMap
import Mathlib.Data.List.Nodup

/-! Maps that keep the order of their names, seen through their lookups. A map that was put
together of pairs has each name once, with the value of the last pair of that name. -/
namespace SolidityCalls

namespace OrderedMap

variable {α : Type}

@[simp] theorem get?_nil (key : String) : get? ([] : OrderedMap α) key = none := rfl

theorem get?_cons (e : String × α) (m : OrderedMap α) (key : String) :
    get? (e :: m) key = if key = e.1 then some e.2 else get? m key := by
  unfold get?
  rw [List.lookup_cons]
  split <;> simp_all

theorem get?_append (m n : OrderedMap α) (key : String) :
    get? (m ++ n) key = (get? m key).or (get? n key) :=
  List.lookup_append

@[simp] theorem get?_put (m : OrderedMap α) (name : String) (value : α) (key : String) :
    get? (put m name value) key = if key = name then some value else get? m key := by
  fun_induction put m name value with
  | case1 => rw [get?_cons]
  | case2 e rest he =>
    simp only [get?_cons]
    split_ifs <;> simp_all
  | case3 e rest he ih =>
    rw [get?_cons, get?_cons, ih]
    split_ifs with h₁ h₂ <;> simp_all

theorem mem_of_get? {m : OrderedMap α} {key : String} {value : α} (h : get? m key = some value) :
    (key, value) ∈ m := by
  induction m with
  | nil => cases h
  | cons e m ih =>
    rw [get?_cons] at h
    split_ifs at h with hkey
    · obtain rfl := Option.some.inj h
      exact hkey ▸ List.mem_cons_self
    · exact List.mem_cons_of_mem _ (ih h)

theorem isSome_get? {m : OrderedMap α} {key : String} :
    (get? m key).isSome ↔ key ∈ m.map (·.1) := by
  induction m with
  | nil => simp
  | cons e m ih =>
    rw [get?_cons, List.map_cons, List.mem_cons, ← ih]
    split_ifs with hkey <;> simp [hkey]

theorem contains_iff {m : OrderedMap α} {key : String} :
    m.contains key ↔ (get? m key).isSome := by
  rw [isSome_get?, contains, List.any_eq_true, List.mem_map]
  simp only [decide_eq_true_eq]

theorem keys_put (m : OrderedMap α) (name : String) (value : α) :
    (put m name value).map (·.1) =
      if name ∈ m.map (·.1) then m.map (·.1) else m.map (·.1) ++ [name] := by
  fun_induction put m name value with
  | case1 => rfl
  | case2 e rest he => simp [he]
  | case3 e rest he ih =>
    rw [List.map_cons, ih, List.map_cons]
    simp only [List.mem_cons, Ne.symm he, false_or]
    split_ifs <;> rfl

theorem nodup_keys_put {m : OrderedMap α} (h : (m.map (·.1)).Nodup) (name : String) (value : α) :
    ((put m name value).map (·.1)).Nodup := by
  rw [keys_put]
  split_ifs with hmem
  · exact h
  · exact List.concat_eq_append ▸ (List.nodup_concat ..).mpr ⟨hmem, h⟩

theorem mem_iff_get? {m : OrderedMap α} (h : (m.map (·.1)).Nodup) {e : String × α} :
    e ∈ m ↔ get? m e.1 = some e.2 := by
  induction m with
  | nil => simp
  | cons d m ih =>
    obtain ⟨hd, hm⟩ := List.nodup_cons.mp h
    rw [get?_cons, List.mem_cons, ih hm]
    split_ifs with hkey
    · have hrest : get? m e.1 ≠ some e.2 := fun he =>
        hd (List.mem_map.mpr ⟨e, (ih hm).mpr he, hkey⟩)
      rw [or_iff_left hrest, Option.some.injEq, Prod.ext_iff, eq_comm (a := d.2)]
      exact and_iff_right hkey
    · have hne : e ≠ d := fun he => hkey (he ▸ rfl)
      simp [hne]

/-- The pairs put one after the other: the last pair of a name decides. -/
theorem get?_foldl_put (pairs : List (String × α)) (m : OrderedMap α) (key : String) :
    get? (pairs.foldl (fun m e => put m e.1 e.2) m) key =
      (get? pairs.reverse key).or (get? m key) := by
  induction pairs generalizing m with
  | nil => simp
  | cons e pairs ih =>
    rw [List.foldl_cons, ih, get?_put, List.reverse_cons, get?_append, Option.or_assoc, get?_cons]
    split_ifs <;> rfl

theorem get?_ofPairs (pairs : List (String × α)) (key : String) :
    get? (ofPairs pairs) key = get? pairs.reverse key := by
  rw [ofPairs, get?_foldl_put, get?_nil, Option.or_none]

theorem nodup_keys_ofPairs (pairs : List (String × α)) : ((ofPairs pairs).map (·.1)).Nodup := by
  suffices h : ∀ m : OrderedMap α, (m.map (·.1)).Nodup →
      ((pairs.foldl (fun m e => put m e.1 e.2) m).map (·.1)).Nodup from h [] List.nodup_nil
  induction pairs with
  | nil => exact fun m hm => hm
  | cons e pairs ih => exact fun m hm => ih _ (nodup_keys_put hm e.1 e.2)

/-- Pairs with distinct names stay in their order. -/
theorem keys_ofPairs {pairs : List (String × α)} (h : (pairs.map (·.1)).Nodup) :
    (ofPairs pairs).map (·.1) = pairs.map (·.1) := by
  suffices hgo : ∀ m : OrderedMap α, (m.map (·.1) ++ pairs.map (·.1)).Nodup →
      (pairs.foldl (fun m e => put m e.1 e.2) m).map (·.1) = m.map (·.1) ++ pairs.map (·.1) by
    simpa [ofPairs] using hgo [] (by simpa using h)
  clear h
  induction pairs with
  | nil => simp
  | cons e pairs ih =>
    intro m hm
    have hnew : e.1 ∉ m.map (·.1) := fun hmem =>
      (List.nodup_append.mp hm).2.2 _ hmem _ List.mem_cons_self rfl
    rw [List.foldl_cons, ih]
    · rw [keys_put, if_neg hnew, List.map_cons, List.append_assoc, List.singleton_append]
    · rw [keys_put, if_neg hnew, List.append_assoc, List.singleton_append]
      exact hm

theorem mem_ofPairs {pairs : List (String × α)} {e : String × α} :
    e ∈ ofPairs pairs ↔ get? pairs.reverse e.1 = some e.2 := by
  rw [mem_iff_get? (nodup_keys_ofPairs pairs), get?_ofPairs]

end OrderedMap

namespace NameSet

theorem mem_add {s : NameSet} {name x : String} :
    x ∈ s.add name ↔ x ∈ s ∨ x = name := by
  unfold add
  split
  next h => exact ⟨.inl, fun hx => hx.elim id fun he => he ▸ h⟩
  next => simp

theorem mem_addAll {s : NameSet} {names : List String} {x : String} :
    x ∈ s.addAll names ↔ x ∈ s ∨ x ∈ names := by
  unfold addAll
  induction names generalizing s with
  | nil => simp
  | cons name names ih => rw [List.foldl_cons, ih, mem_add, List.mem_cons, or_assoc]

theorem nodup_add {s : NameSet} {name : String} (h : s.Nodup) : (s.add name).Nodup := by
  unfold add
  split
  · exact h
  next hname =>
    rw [List.nodup_append]
    refine ⟨h, by simp, ?_⟩
    rintro x hx _ hy rfl
    exact hname (List.mem_singleton.mp hy ▸ hx)

end NameSet
end SolidityCalls
