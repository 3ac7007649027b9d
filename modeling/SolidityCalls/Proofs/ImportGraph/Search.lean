import SolidityCalls.Proofs.Data.Outcome
import SolidityCalls.Proofs.ImportGraph.Edges

/-! The search for cycles. While files are being visited, every file on the stack leads to one of
them, and a visit gives back the least number on the stack that it leads to; so the files that a
closed file takes from the stack are its component. -/
namespace SolidityCalls.ImportGraph

open Relation (TransGen)

namespace Search

variable {g : ImportGraph} {s t u : Search} {f x : String} {opened done : List String} {l : Nat}

def Entered (s : Search) (f : String) : Prop := (OrderedMap.get? s.index f).isSome

/-- The number of a file that was entered. -/
def number (s : Search) (f : String) : Nat := (OrderedMap.get? s.index f).getD 0

/-- The group of the file is complete. -/
def Settled (s : Search) (f : String) : Prop := s.Entered f ∧ f ∉ s.stack

theorem hasEntered_iff : s.hasEntered f ↔ s.Entered f := OrderedMap.contains_iff

theorem get?_eq_number (h : s.Entered f) : OrderedMap.get? s.index f = some (s.number f) := by
  obtain ⟨n, hn⟩ := Option.isSome_iff_exists.mp h
  rw [number, hn, Option.getD_some]

theorem numberIn_of_get? {m : OrderedMap Nat} {n : Nat} (h : OrderedMap.get? m f = some n) :
    numberIn m f = .ok n := by
  rw [numberIn, h]

section Enter

theorem get?_index_enter (s : Search) (f x : String) :
    OrderedMap.get? (s.enter f).index x = if x = f then some s.counter
      else OrderedMap.get? s.index x :=
  OrderedMap.get?_put ..

theorem entered_enter : (s.enter f).Entered x ↔ x = f ∨ s.Entered x := by
  rw [Entered, get?_index_enter]
  split_ifs with hx <;> simp [hx, Entered]

theorem number_enter_self (s : Search) (f : String) : (s.enter f).number f = s.counter := by
  rw [number, get?_index_enter, if_pos rfl, Option.getD_some]

theorem number_enter_of_ne (h : x ≠ f) : (s.enter f).number x = s.number x := by
  rw [number, get?_index_enter, if_neg h, number]

theorem settled_enter (hf : ¬ s.Entered f) : (s.enter f).Settled x ↔ s.Settled x := by
  rw [Settled, entered_enter, Settled]
  constructor
  · rintro ⟨hx, hstack⟩
    exact ⟨hx.resolve_left (List.ne_of_not_mem_cons hstack), List.not_mem_of_not_mem_cons hstack⟩
  · rintro ⟨hx, hstack⟩
    have hne : x ≠ f := by
      rintro rfl
      exact hf hx
    exact ⟨.inr hx, List.not_mem_cons_of_ne_of_not_mem hne hstack⟩

end Enter

/-- A search that has gone on: what was known of files stays, and none of those on the stack has
been taken from it. -/
structure Grows (s t : Search) : Prop where
  index : ∀ f, s.Entered f → OrderedMap.get? t.index f = OrderedMap.get? s.index f
  low : ∀ f, s.Entered f → OrderedMap.get? t.low f = OrderedMap.get? s.low f
  stack : s.stack <:+ t.stack

namespace Grows

theorem entered (h : Grows s t) (hx : s.Entered x) : t.Entered x := by
  rw [Entered, h.index x hx]
  exact hx

theorem number (h : Grows s t) (hx : s.Entered x) : t.number x = s.number x := by
  rw [Search.number, h.index x hx, Search.number]

theorem trans (h : Grows s t) (h' : Grows t u) : Grows s u where
  index x hx := (h'.index x (h.entered hx)).trans (h.index x hx)
  low x hx := (h'.low x (h.entered hx)).trans (h.low x hx)
  stack := h.stack.trans h'.stack

theorem enter (hf : ¬ s.Entered f) : Grows s (s.enter f) where
  index x hx := by
    rw [get?_index_enter, if_neg]
    rintro rfl
    exact hf hx
  low x hx := by
    have hne : x ≠ f := by
      rintro rfl
      exact hf hx
    exact (OrderedMap.get?_put ..).trans (if_neg hne)
  stack := List.suffix_cons f s.stack

end Grows

/-- The state of a search between two steps. The visits of the `opened` files have not ended. Every
file on the stack leads to one of them before it, and they lead to all files after them. -/
structure Sound (g : ImportGraph) (opened : List String) (s : Search) : Prop where
  number_lt : ∀ f, s.Entered f → s.number f < s.counter
  stack_entered : ∀ f ∈ s.stack, s.Entered f
  stack_order : s.stack.Pairwise fun a b => s.number b < s.number a
  mem_onStack : ∀ f, f ∈ s.onStack ↔ f ∈ s.stack
  opened_stack : ∀ f ∈ opened, f ∈ s.stack
  imports_entered : ∀ f, s.Entered f → f ∉ opened → ∀ x, g.Edge f x → s.Entered x
  leads_opened : ∀ f ∈ s.stack, ∃ o ∈ opened, s.number o ≤ s.number f ∧ g.Leads f o
  opened_leads : ∀ o ∈ opened, ∀ f ∈ s.stack, s.number o ≤ s.number f → g.Leads o f
  settled_imports : ∀ f, s.Settled f → ∀ x, g.Edge f x → s.Settled x
  cycles_sound : ∀ c ∈ s.cycles, g.IsCycle c ∧ ∀ f ∈ c, s.Settled f
  cycles_complete : ∀ f, s.Settled f → TransGen g.Edge f f → ∃ c ∈ s.cycles, f ∈ c
  cycles_nodup : s.cycles.flatten.Nodup

namespace Sound

theorem settled_of_leads (h : Sound g opened s) (hf : s.Settled f) (hx : g.Leads f x) :
    s.Settled x := by
  induction hx with
  | refl => exact hf
  | tail _ hedge ih => exact h.settled_imports _ ih _ hedge

theorem withLow (h : Sound g opened s) (low : OrderedMap Nat) : Sound g opened { s with low } :=
  ⟨h.number_lt, h.stack_entered, h.stack_order, h.mem_onStack, h.opened_stack, h.imports_entered,
    h.leads_opened, h.opened_leads, h.settled_imports, h.cycles_sound, h.cycles_complete,
    h.cycles_nodup⟩

theorem enter (h : Sound g opened s) (hf : ¬ s.Entered f) (hleads : ∀ o ∈ opened, g.Leads o f) :
    Sound g (f :: opened) (s.enter f) := by
  have hne {x : String} (hx : x ∈ s.stack) : x ≠ f := by
    rintro rfl
    exact hf (h.stack_entered x hx)
  have hnumber {x : String} (hx : x ∈ s.stack) : (s.enter f).number x = s.number x :=
    number_enter_of_ne (hne hx)
  exact {
    number_lt := by
      intro x hx
      by_cases hxf : x = f
      · subst hxf
        rw [number_enter_self]
        exact Nat.lt_succ_self _
      · rw [number_enter_of_ne hxf]
        exact Nat.lt_succ_of_lt (h.number_lt x ((entered_enter.mp hx).resolve_left hxf))
    stack_entered := by
      intro x hx
      rcases List.mem_cons.mp hx with rfl | hx
      · exact entered_enter.mpr (.inl rfl)
      · exact entered_enter.mpr (.inr (h.stack_entered x hx))
    stack_order := by
      refine List.pairwise_cons.mpr ⟨fun x hx => ?_, ?_⟩
      · rw [number_enter_self, hnumber hx]
        exact h.number_lt x (h.stack_entered x hx)
      · refine h.stack_order.imp_of_mem fun ha hb hab => ?_
        rw [hnumber ha, hnumber hb]
        exact hab
    mem_onStack := by
      intro x
      refine NameSet.mem_add.trans ?_
      rw [h.mem_onStack, or_comm]
      exact List.mem_cons.symm
    opened_stack := by
      intro x hx
      rcases List.mem_cons.mp hx with rfl | hx
      · exact List.mem_cons_self
      · exact List.mem_cons_of_mem _ (h.opened_stack x hx)
    imports_entered := by
      intro x hx hxo y hy
      have hold := (entered_enter.mp hx).resolve_left (List.ne_of_not_mem_cons hxo)
      exact entered_enter.mpr
        (.inr (h.imports_entered x hold (List.not_mem_of_not_mem_cons hxo) y hy))
    leads_opened := by
      intro x hx
      rcases List.mem_cons.mp hx with rfl | hx
      · exact ⟨x, List.mem_cons_self, Nat.le_refl _, .refl⟩
      · obtain ⟨o, ho, hle, hlead⟩ := h.leads_opened x hx
        refine ⟨o, List.mem_cons_of_mem _ ho, ?_, hlead⟩
        rwa [hnumber hx, hnumber (h.opened_stack o ho)]
    opened_leads := by
      intro o ho x hx hle
      rcases List.mem_cons.mp ho with rfl | hold
      · -- The file just entered has the greatest number, so only the file itself comes after it.
        rcases List.mem_cons.mp hx with rfl | hx
        · exact .refl
        · rw [number_enter_self, hnumber hx] at hle
          exact absurd (h.number_lt x (h.stack_entered x hx)) (Nat.not_lt_of_le hle)
      · rcases List.mem_cons.mp hx with rfl | hx
        · exact hleads o hold
        · rw [hnumber hx, hnumber (h.opened_stack o hold)] at hle
          exact h.opened_leads o hold x hx hle
    settled_imports := by
      intro x hx y hy
      exact (settled_enter hf).mpr (h.settled_imports x ((settled_enter hf).mp hx) y hy)
    cycles_sound := by
      intro c hc
      obtain ⟨hcycle, hsettled⟩ := h.cycles_sound c hc
      exact ⟨hcycle, fun x hx => (settled_enter hf).mpr (hsettled x hx)⟩
    cycles_complete := by
      intro x hx hway
      exact h.cycles_complete x ((settled_enter hf).mp hx) hway
    cycles_nodup := h.cycles_nodup }

end Sound

/-- How far the visit of a file has come from the state `s` it began in. The number `l` is the
least one that the file is known to lead to on the stack. -/
structure Progress (g : ImportGraph) (s : Search) (f : String) (l : Nat) (t : Search) : Prop where
  grows : Grows s t
  index : OrderedMap.get? t.index f = some s.counter
  low : OrderedMap.get? t.low f = some l
  low_le : l ≤ s.counter
  leads_low : l < s.counter → ∃ x ∈ t.stack, t.number x = l ∧ g.Leads f x

/-- The visit of a file after some of its imports were followed. -/
structure Following (g : ImportGraph) (opened : List String) (s : Search) (f : String)
    (done : List String) (l : Nat) (t : Search) : Prop extends Progress g s f l t where
  fresh : ¬ s.Entered f
  before : Sound g opened s
  sound : Sound g (f :: opened) t
  stack : f :: s.stack <:+ t.stack
  low_le_number : ∀ x ∈ t.stack, x ∉ f :: s.stack → ∀ y ∈ s.stack, g.Edge x y → l ≤ s.number y
  done_entered : ∀ x ∈ done, t.Entered x
  low_le_done : ∀ x ∈ done, x ∈ s.stack → l ≤ s.number x

/-- The visit of a file has ended. -/
structure Visited (g : ImportGraph) (opened : List String) (s : Search) (f : String) (l : Nat)
    (t : Search) : Prop extends Progress g s f l t where
  sound : Sound g opened t
  low_le_number : ∀ x ∈ t.stack, x ∉ s.stack → ∀ y ∈ s.stack, g.Edge x y → l ≤ s.number y

theorem Following.enter (h : Sound g opened s) (hf : ¬ s.Entered f)
    (hleads : ∀ o ∈ opened, g.Leads o f) : Following g opened s f [] s.counter (s.enter f) where
  grows := .enter hf
  index := (get?_index_enter ..).trans (if_pos rfl)
  low := (OrderedMap.get?_put ..).trans (if_pos rfl)
  low_le := Nat.le_refl _
  leads_low hlt := absurd hlt (Nat.lt_irrefl _)
  fresh := hf
  before := h
  sound := h.enter hf hleads
  stack := List.suffix_rfl
  low_le_number x hx hx' := absurd hx hx'
  done_entered := by simp
  low_le_done := by simp

/-- The state with another least number for a file. -/
def lowered (s : Search) (f : String) (n : Nat) : Search := { s with low := s.low.put f n }

theorem lower_eq (h : OrderedMap.get? s.low f = some l) (n : Nat) :
    s.lower f n = .ok (s.lowered f (min l n)) := by
  rw [lower, numberIn_of_get? h]
  rfl

namespace Following

variable (h : Following g opened s f done l t)
include h

theorem number_eq : t.number f = s.counter := by
  rw [number, h.index, Option.getD_some]

/-- Files that were on the stack before have smaller numbers. -/
theorem number_lt (hx : x ∈ s.stack) : t.number x < s.counter := by
  have horder := h.sound.stack_order.sublist h.stack.sublist
  rw [← h.number_eq]
  exact List.rel_of_pairwise_cons horder hx

/-- The files being visited lead to all that the file imports. -/
theorem opened_leads (hx : g.Edge f x) : ∀ o ∈ f :: opened, g.Leads o x := by
  intro o ho
  have hfstack : f ∈ t.stack := h.stack.subset List.mem_cons_self
  have hle : t.number o ≤ t.number f := by
    rcases List.mem_cons.mp ho with rfl | hold
    · exact Nat.le_refl _
    · rw [h.number_eq]
      exact Nat.le_of_lt (h.number_lt (h.before.opened_stack o hold))
  exact (h.sound.opened_leads o ho f hfstack hle).tail hx

/-- An import has been followed, and the search has gone on to `u`. -/
theorem next {k : Nat} (hgrows : Grows t u) (hsound : Sound g (f :: opened) u) (hkl : k ≤ l)
    (hleads : k < s.counter → ∃ y ∈ u.stack, u.number y = k ∧ g.Leads f y)
    (hnew : ∀ y ∈ u.stack, y ∉ t.stack → ∀ z ∈ t.stack, g.Edge y z → k ≤ t.number z)
    (hx : u.Entered x) (hkx : x ∈ s.stack → k ≤ s.number x) :
    Following g opened s f (x :: done) k (u.lowered f k) := by
  have hgrows' := h.grows.trans hgrows
  have hf : t.Entered f := h.sound.stack_entered f (h.stack.subset List.mem_cons_self)
  exact {
    grows := {
      index := hgrows'.index
      low := by
        intro y hy
        have hne : y ≠ f := by
          rintro rfl
          exact h.fresh hy
        exact ((OrderedMap.get?_put ..).trans (if_neg hne)).trans (hgrows'.low y hy)
      stack := hgrows'.stack }
    index := (hgrows.index f hf).trans h.index
    low := (OrderedMap.get?_put ..).trans (if_pos rfl)
    low_le := Nat.le_trans hkl h.low_le
    leads_low := hleads
    fresh := h.fresh
    before := h.before
    sound := hsound.withLow _
    stack := h.stack.trans hgrows.stack
    low_le_number := by
      intro y hy hy' z hz hedge
      by_cases hyt : y ∈ t.stack
      · exact Nat.le_trans hkl (h.low_le_number y hyt hy' z hz hedge)
      · have hbound := hnew y hy hyt z (h.grows.stack.subset hz) hedge
        rwa [h.grows.number (h.before.stack_entered z hz)] at hbound
    done_entered := List.forall_mem_cons.mpr
      ⟨hx, fun y hy => hgrows.entered (h.done_entered y hy)⟩
    low_le_done := List.forall_mem_cons.mpr
      ⟨hkx, fun y hy hys => Nat.le_trans hkl (h.low_le_done y hy hys)⟩ }

/-- A file that was new has been visited. -/
theorem next_of_visited {m : Nat} (hedge : g.Edge f x) (hx : ¬ t.Entered x)
    (hv : Visited g (f :: opened) t x m u) :
    Following g opened s f (x :: done) (min l m) (u.lowered f (min l m)) := by
  have hlt : s.counter < t.counter := by
    rw [← h.number_eq]
    exact h.sound.number_lt f (h.sound.stack_entered f (h.stack.subset List.mem_cons_self))
  have hkl : min l m ≤ l := Nat.min_le_left l m
  refine h.next hv.grows hv.sound hkl ?_ ?_ ?_ ?_
  · intro hk
    rcases Nat.le_total l m with hlm | hml
    · rw [Nat.min_eq_left hlm] at hk ⊢
      obtain ⟨y, hy, hnumber, hway⟩ := h.leads_low hk
      refine ⟨y, hv.grows.stack.subset hy, ?_, hway⟩
      rw [hv.grows.number (h.sound.stack_entered y hy), hnumber]
    · rw [Nat.min_eq_right hml] at hk ⊢
      obtain ⟨y, hy, hnumber, hway⟩ := hv.leads_low (Nat.lt_trans hk hlt)
      exact ⟨y, hy, hnumber, .head hedge hway⟩
  · intro y hy hyt z hz hyz
    exact Nat.le_trans (Nat.min_le_right l m) (hv.low_le_number y hy hyt z hz hyz)
  · simp [Entered, hv.index]
  · intro hxs
    exact absurd (h.grows.entered (h.before.stack_entered x hxs)) hx

/-- A file on the stack is not visited again. -/
theorem next_of_mem (hedge : g.Edge f x) (hx : x ∈ t.stack) :
    Following g opened s f (x :: done) (min l (t.number x)) (t.lowered f (min l (t.number x))) := by
  have hrefl : Grows t t := ⟨fun _ _ => rfl, fun _ _ => rfl, List.suffix_rfl⟩
  refine h.next hrefl h.sound (Nat.min_le_left _ _) ?_ ?_ (h.sound.stack_entered x hx) ?_
  · intro hk
    rcases Nat.le_total l (t.number x) with hle | hle
    · rw [Nat.min_eq_left hle] at hk ⊢
      exact h.leads_low hk
    · rw [Nat.min_eq_right hle]
      exact ⟨x, hx, rfl, .single hedge⟩
  · intro y hy hyt
    exact absurd hy hyt
  · intro hxs
    rw [h.grows.number (h.before.stack_entered x hxs)]
    exact Nat.min_le_right _ _

/-- A file of a complete group has no part in this one. -/
theorem next_of_settled (hx : t.Settled x) : Following g opened s f (x :: done) l t :=
  { h with
    done_entered := List.forall_mem_cons.mpr ⟨hx.1, h.done_entered⟩
    low_le_done := List.forall_mem_cons.mpr
      ⟨fun hxs => absurd (h.grows.stack.subset hxs) hx.2, h.low_le_done⟩ }

end Following

/-- The files of the graph that a search has not entered. -/
def unentered (g : ImportGraph) (s : Search) : Nat :=
  (g.files.filter fun f => !s.hasEntered f).length

theorem unentered_le (h : ∀ f, s.Entered f → t.Entered f) : unentered g t ≤ unentered g s := by
  refine (List.monotone_filter_right _ fun f hf => ?_).length_le
  simp only [Bool.not_eq_true', ← Bool.not_eq_true, hasEntered_iff] at hf ⊢
  exact fun hs => hf (h f hs)

theorem unentered_enter (hf : f ∈ g.files) (hs : ¬ s.Entered f) :
    unentered g (s.enter f) < unentered g s := by
  have hsplit : (g.files.filter fun x => !(s.enter f).hasEntered x) =
      (g.files.filter fun x => !s.hasEntered x).filter (· ≠ f) := by
    rw [List.filter_filter]
    refine List.filter_congr fun x _ => Bool.eq_iff_iff.mpr ?_
    simp [← Bool.not_eq_true, hasEntered_iff, entered_enter]
  rw [unentered, hsplit, unentered]
  refine List.length_filter_lt_length_iff_exists.mpr ⟨f, List.mem_filter.mpr ⟨hf, ?_⟩, by simp⟩
  simpa [← Bool.not_eq_true, hasEntered_iff] using hs

/-- With as much fuel as there are files to enter, a visit ends. -/
def Visits (g : ImportGraph) (fuel : Nat)
    (visit : String → Search → Except SearchFault Search) : Prop :=
  ∀ opened s f, Sound g opened s → ¬ s.Entered f → f ∈ g.files →
    (∀ o ∈ opened, g.Leads o f) → unentered g s ≤ fuel →
    ∃ l t, visit f s = .ok t ∧ Visited g opened s f l t

/-- One import: the step of the loop over the imports of a file. -/
theorem follow_spec {fuel : Nat} {visit : String → Search → Except SearchFault Search}
    (hvisit : Visits g fuel visit) (h : Following g opened s f done l t) (hedge : g.Edge f x)
    (hx : x ∈ g.files) (hfuel : unentered g t ≤ fuel) :
    ∃ k u, follow visit f t x = .ok u ∧ Following g opened s f (x :: done) k u ∧
      unentered g u ≤ fuel := by
  by_cases hentered : t.Entered x
  · have hcond : ¬ (!t.hasEntered x) = true := by simpa [hasEntered_iff] using hentered
    by_cases hstack : x ∈ t.stack
    · refine ⟨_, _, ?_, h.next_of_mem hedge hstack, hfuel⟩
      rw [follow, if_neg hcond, if_pos ((h.sound.mem_onStack x).mpr hstack),
        numberIn_of_get? (get?_eq_number hentered)]
      exact lower_eq h.low _
    · refine ⟨_, _, ?_, h.next_of_settled ⟨hentered, hstack⟩, hfuel⟩
      rw [follow, if_neg hcond, if_neg (mt (h.sound.mem_onStack x).mp hstack)]
      rfl
  · have hcond : (!t.hasEntered x) = true := by
      simpa [← Bool.not_eq_true, hasEntered_iff] using hentered
    obtain ⟨m, u, hu, hv⟩ := hvisit _ t x h.sound hentered hx (h.opened_leads hedge) hfuel
    have hlow : OrderedMap.get? u.low f = some l := by
      have hf := h.sound.stack_entered f (h.stack.subset List.mem_cons_self)
      rw [hv.grows.low f hf, h.low]
    refine ⟨_, _, ?_, h.next_of_visited hedge hentered hv,
      Nat.le_trans (unentered_le fun y hy => hv.grows.entered hy) hfuel⟩
    rw [follow, if_pos hcond, hu]
    show (numberIn u.low x >>= fun n => u.lower f n) = _
    rw [numberIn_of_get? hv.low]
    exact lower_eq hlow _

/-- All imports of a file, one after the other. -/
theorem foldlM_follow_spec {fuel : Nat} {visit : String → Search → Except SearchFault Search}
    (hvisit : Visits g fuel visit) (xs : List String)
    (hxs : ∀ x ∈ xs, g.Edge f x ∧ x ∈ g.files) (h : Following g opened s f done l t)
    (hfuel : unentered g t ≤ fuel) :
    ∃ k u, xs.foldlM (follow visit f) t = .ok u ∧
      Following g opened s f (xs.reverse ++ done) k u := by
  induction xs generalizing done l t with
  | nil => exact ⟨l, t, rfl, h⟩
  | cons x xs ih =>
    obtain ⟨⟨hedge, hx⟩, hxs⟩ := List.forall_mem_cons.mp hxs
    obtain ⟨k, u, hu, hfollowing, hfuel⟩ := follow_spec hvisit h hedge hx hfuel
    obtain ⟨k, v, hv, hend⟩ := ih hxs hfollowing hfuel
    refine ⟨k, v, ?_, ?_⟩
    · rw [List.foldlM_cons, hu]
      exact hv
    · simpa using hend

section Close

variable {new base : List String}

theorem Sound.nodup_stack (h : Sound g opened s) : s.stack.Nodup :=
  h.stack_order.imp fun hlt heq => by
    subst heq
    exact Nat.lt_irrefl _ hlt

theorem popGroup_eq (hstack : s.stack = new ++ f :: base) (hf : f ∉ new) :
    s.popGroup f = .ok (new ++ [f], { s with
      stack := base
      onStack := s.onStack.filter (· ∉ new ++ [f]) }) := by
  have htake : s.stack.takeWhile (· ≠ f) = new := by
    rw [hstack, List.takeWhile_append_of_pos]
    · simp
    · intro x hx
      simpa using fun heq : x = f => hf (heq ▸ hx)
  have hdrop : s.stack.drop (new ++ [f]).length = base := by
    rw [hstack, List.append_cons new f base, List.drop_left]
  have hmem : f ∈ s.stack := by simp [hstack]
  rw [popGroup, if_pos hmem]
  simp only [htake, hdrop]

/-- The group of a file: the files on the stack down to it. -/
theorem mem_stack_iff (hstack : s.stack = new ++ f :: base) :
    x ∈ s.stack ↔ x ∈ new ++ [f] ∨ x ∈ base := by
  rw [hstack, List.append_cons, List.mem_append]

namespace Following

variable (h : Following g opened s f done l t) (hall : ∀ x, g.Edge f x → x ∈ done)
include h hall

/-- Now the file's own imports have been entered like those of the files it led to. -/
theorem entered_of_edge {y : String} (hx : t.Entered x) (hxo : x ∉ opened) (hedge : g.Edge x y) :
    t.Entered y := by
  by_cases hxf : x = f
  · subst hxf
    exact h.done_entered y (hall y hedge)
  · exact h.sound.imports_entered x hx (List.not_mem_cons_of_ne_of_not_mem hxf hxo) y hedge

theorem low_le_of_edge {y : String} (hx : x ∈ t.stack) (hxs : x ∉ s.stack) (hy : y ∈ s.stack)
    (hedge : g.Edge x y) : l ≤ s.number y := by
  by_cases hxf : x = f
  · subst hxf
    exact h.low_le_done y (hall y hedge) hy
  · exact h.low_le_number x hx (List.not_mem_cons_of_ne_of_not_mem hxf hxs) y hy hedge

/-- The file stays on the stack, since it leads to a file before it. -/
theorem visited_of_lt (hlt : l < s.counter) : Visited g opened s f l t where
  toProgress := h.toProgress
  low_le_number := fun _ hx hxs _ hy hedge => h.low_le_of_edge hall hx hxs hy hedge
  sound :=
    { h.sound with
      opened_stack := fun o ho => h.sound.opened_stack o (List.mem_cons_of_mem _ ho)
      imports_entered := fun _ hx hxo _ hedge => h.entered_of_edge hall hx hxo hedge
      leads_opened := by
        intro x hx
        obtain ⟨o, ho, hle, hway⟩ := h.sound.leads_opened x hx
        rcases List.mem_cons.mp ho with rfl | hold
        · -- From the file itself the way goes on to a file before it, and to one being visited.
          obtain ⟨y, hy, rfl, hway'⟩ := h.leads_low hlt
          obtain ⟨o', ho', hle', hway''⟩ := h.sound.leads_opened y hy
          rw [h.number_eq] at hle
          rcases List.mem_cons.mp ho' with rfl | hold'
          · rw [h.number_eq] at hle'
            exact absurd hlt (Nat.not_lt_of_le hle')
          · exact ⟨o', hold', by omega, hway.trans (hway'.trans hway'')⟩
        · exact ⟨o, hold, hle, hway⟩
      opened_leads := fun o ho => h.sound.opened_leads o (List.mem_cons_of_mem _ ho) }

omit hall in
/-- The files of the group were entered in this visit. -/
theorem not_mem_before (hstack : t.stack = new ++ f :: s.stack) (hx : x ∈ new ++ [f]) :
    x ∉ s.stack := by
  have hnodup := h.sound.nodup_stack
  rw [hstack, List.append_cons] at hnodup
  exact fun hxs => (List.nodup_append.mp hnodup).2.2 x hx x hxs rfl

variable (hstack : t.stack = new ++ f :: s.stack) (hl : l = s.counter)
include hstack hl

/-- An import of a file of the group ends in the group or in a complete one. -/
theorem edge_group {y : String} (hx : x ∈ new ++ [f]) (hedge : g.Edge x y) :
    y ∈ new ++ [f] ∨ t.Settled y := by
  have hold := h.not_mem_before hstack hx
  have hxt : x ∈ t.stack := (mem_stack_iff hstack).mpr (.inl hx)
  have hxo : x ∉ opened := fun hxo => hold (h.before.opened_stack x hxo)
  have hentered : t.Entered y := h.entered_of_edge hall (h.sound.stack_entered x hxt) hxo hedge
  by_cases hy : y ∈ t.stack
  · refine ((mem_stack_iff hstack).mp hy).imp_right fun hys => ?_
    -- The file would lead to one before it, so its least number would be smaller.
    have hlt := h.number_lt hys
    rw [h.grows.number (h.before.stack_entered y hys)] at hlt
    have hle : l ≤ s.number y := h.low_le_of_edge hall hxt hold hys hedge
    omega
  · exact .inr ⟨hentered, hy⟩

theorem leads_group {y : String} (hx : x ∈ new ++ [f]) (hway : g.Leads x y) :
    y ∈ new ++ [f] ∨ t.Settled y := by
  induction hway with
  | refl => exact .inl hx
  | tail _ hedge ih =>
    rcases ih with hmem | hsettled
    · exact h.edge_group hall hstack hl hmem hedge
    · exact .inr (h.sound.settled_imports _ hsettled _ hedge)

/-- Every file of the group leads to a file being visited, which can only be the first one. -/
theorem group_leads (hx : x ∈ new ++ [f]) : g.Leads x f := by
  have hxt : x ∈ t.stack := (mem_stack_iff hstack).mpr (.inl hx)
  obtain ⟨o, ho, _, hway⟩ := h.sound.leads_opened x hxt
  rcases List.mem_cons.mp ho with rfl | hold
  · exact hway
  · rcases h.leads_group hall hstack hl hx hway with hmem | hsettled
    · exact absurd (h.before.opened_stack o hold) (h.not_mem_before hstack hmem)
    · exact absurd (h.sound.opened_stack o ho) hsettled.2

omit hall hl in
theorem leads_of_mem_group (hx : x ∈ new ++ [f]) : g.Leads f x := by
  have hxt : x ∈ t.stack := (mem_stack_iff hstack).mpr (.inl hx)
  refine h.sound.opened_leads f List.mem_cons_self x hxt ?_
  have horder := h.sound.stack_order
  rw [hstack] at horder
  rcases List.mem_append.mp hx with hnew | hself
  · exact Nat.le_of_lt ((List.pairwise_append.mp horder).2.2 x hnew f List.mem_cons_self)
  · have hxf := List.mem_singleton.mp hself
    exact Nat.le_of_eq (congrArg t.number hxf.symm)

theorem isComponent_group : g.IsComponent (new ++ [f]) where
  nodup := by
    have hnodup := h.sound.nodup_stack
    rw [hstack, List.append_cons] at hnodup
    exact (List.nodup_append.mp hnodup).1
  ne_nil := by simp
  mem_iff := by
    intro a ha b
    constructor
    · intro hb
      exact ⟨(h.group_leads hall hstack hl ha).trans (h.leads_of_mem_group hstack hb),
        (h.group_leads hall hstack hl hb).trans (h.leads_of_mem_group hstack ha)⟩
    · rintro ⟨hab, hba⟩
      refine (h.leads_group hall hstack hl ha hab).resolve_right fun hsettled => ?_
      have hat : a ∈ t.stack := (mem_stack_iff hstack).mpr (.inl ha)
      exact (h.sound.settled_of_leads hsettled hba).2 hat

/-- The file leads to no file before it: its group is taken from the stack, and counts if it is a
cycle. -/
theorem visited_of_eq {cycles : List (List String)}
    (hold : ∀ c, c ∈ cycles ↔ c ∈ t.cycles ∨ g.IsCycle (new ++ [f]) ∧ c = new ++ [f])
    (hnodup : cycles.flatten.Nodup) :
    Visited g opened s f l { t with
      stack := s.stack
      onStack := t.onStack.filter (· ∉ new ++ [f])
      cycles } := by
  have hgroup := h.isComponent_group hall hstack hl
  have hsub : ∀ x ∈ s.stack, x ∈ t.stack := fun x hx => (mem_stack_iff hstack).mpr (.inr hx)
  have hsettled {x : String} : (t.Entered x ∧ x ∉ s.stack) ↔ t.Settled x ∨ x ∈ new ++ [f] := by
    constructor
    · rintro ⟨hx, hxs⟩
      by_cases hxt : x ∈ t.stack
      · exact .inr (((mem_stack_iff hstack).mp hxt).resolve_right hxs)
      · exact .inl ⟨hx, hxt⟩
    · rintro (⟨hx, hxt⟩ | hx)
      · exact ⟨hx, fun hxs => hxt (hsub x hxs)⟩
      · exact ⟨h.sound.stack_entered x ((mem_stack_iff hstack).mpr (.inl hx)),
          h.not_mem_before hstack hx⟩
  exact {
    grows := ⟨h.grows.index, h.grows.low, List.suffix_rfl⟩
    index := h.index
    low := h.low
    low_le := h.low_le
    leads_low := fun hlt => absurd hlt (by omega)
    low_le_number := fun x hx hxs => absurd hx hxs
    sound := {
      number_lt := h.sound.number_lt
      stack_entered := fun x hx => h.sound.stack_entered x (hsub x hx)
      stack_order := h.sound.stack_order.sublist h.grows.stack.sublist
      mem_onStack := by
        intro x
        rw [List.mem_filter, h.sound.mem_onStack, mem_stack_iff hstack, decide_eq_true_iff]
        constructor
        · rintro ⟨hx, hx'⟩
          exact hx.resolve_left hx'
        · exact fun hx => ⟨.inr hx, fun hx' => h.not_mem_before hstack hx' hx⟩
      opened_stack := h.before.opened_stack
      imports_entered := fun _ hx hxo _ hedge => h.entered_of_edge hall hx hxo hedge
      leads_opened := by
        intro x hx
        obtain ⟨o, ho, hle, hway⟩ := h.sound.leads_opened x (hsub x hx)
        rcases List.mem_cons.mp ho with rfl | hold
        · have hlt := h.number_lt hx
          rw [← h.number_eq] at hlt
          exact absurd hlt (Nat.not_lt_of_le hle)
        · exact ⟨o, hold, hle, hway⟩
      opened_leads := fun o ho x hx =>
        h.sound.opened_leads o (List.mem_cons_of_mem _ ho) x (hsub x hx)
      settled_imports := by
        intro x hx y hedge
        refine hsettled.mpr ?_
        rcases hsettled.mp hx with hx | hx
        · exact .inl (h.sound.settled_imports x hx y hedge)
        · exact (h.edge_group hall hstack hl hx hedge).symm
      cycles_sound := by
        intro c hc
        rcases (hold c).mp hc with hc | ⟨hcycle, rfl⟩
        · obtain ⟨hcycle, hall⟩ := h.sound.cycles_sound c hc
          exact ⟨hcycle, fun x hx => hsettled.mpr (.inl (hall x hx))⟩
        · exact ⟨hcycle, fun x hx => hsettled.mpr (.inr hx)⟩
      cycles_complete := by
        intro x hx hway
        rcases hsettled.mp hx with hx | hx
        · obtain ⟨c, hc, hxc⟩ := h.sound.cycles_complete x hx hway
          exact ⟨c, (hold c).mpr (.inl hc), hxc⟩
        · exact ⟨_, (hold _).mpr (.inr ⟨(hgroup.isCycle_iff hx).mpr hway, rfl⟩), hx⟩
      cycles_nodup := hnodup } }

end Following

/-- A group that is complete is a cycle if it has several files or its first one imports itself. -/
theorem isCycle_group_iff (h : g.IsComponent (new ++ [f])) :
    g.IsCycle (new ++ [f]) ↔ 1 < (new ++ [f]).length ∨ f ∈ targets g f := by
  constructor
  · rintro ⟨_, hlength | ⟨a, ha, hedge⟩⟩
    · exact .inl hlength
    · have hf : f ∈ [a] := ha ▸ by simp
      rw [List.mem_singleton.mp hf]
      exact .inr hedge
  · rintro (hlength | hedge)
    · exact ⟨h, .inl hlength⟩
    · cases new with
      | nil => exact ⟨h, .inr ⟨f, rfl, hedge⟩⟩
      | cons x new => exact ⟨h, .inl (by simp)⟩

theorem close_spec (h : Following g opened s f done l t) (hall : ∀ x, g.Edge f x → x ∈ done) :
    ∃ u, t.close g f = .ok u ∧ Visited g opened s f l u := by
  have hlow := numberIn_of_get? h.low
  have hindex := numberIn_of_get? h.index
  rcases Nat.lt_or_eq_of_le h.low_le with hlt | heq
  · refine ⟨t, ?_, h.visited_of_lt hall hlt⟩
    simp only [close, hlow, hindex, Outcome.ok_bind]
    rw [if_pos (Nat.ne_of_lt hlt)]
    rfl
  · obtain ⟨new, hstack⟩ := h.stack
    have hstack := hstack.symm
    have hgroup := h.isComponent_group hall hstack heq
    have hf : f ∉ new := by
      have hnodup := hgroup.nodup
      exact fun hf => (List.nodup_append.mp hnodup).2.2 f hf f (by simp) rfl
    have hpop := popGroup_eq hstack hf
    have hclose : t.close g f = .ok { t with
        stack := s.stack
        onStack := t.onStack.filter (· ∉ new ++ [f])
        cycles := if 1 < (new ++ [f]).length ∨ f ∈ targets g f then t.cycles ++ [new ++ [f]]
          else t.cycles } := by
      simp only [close, hlow, hindex, Outcome.ok_bind]
      rw [if_neg (not_not_intro heq), hpop]
      simp only [Outcome.ok_bind]
      split_ifs <;> rfl
    refine ⟨_, hclose, h.visited_of_eq hall hstack heq (fun c => ?_) ?_⟩
    · rw [isCycle_group_iff hgroup]
      split_ifs with hcycle
      · rw [List.mem_append, List.mem_singleton, and_iff_right hcycle]
      · rw [or_iff_left (fun hc => hcycle hc.1)]
    · split_ifs with hcycle
      · rw [List.flatten_append, List.flatten_singleton, List.nodup_append]
        refine ⟨h.sound.cycles_nodup, hgroup.nodup, ?_⟩
        rintro x hx _ hx' rfl
        obtain ⟨c, hc, hxc⟩ := List.mem_flatten.mp hx
        exact ((h.sound.cycles_sound c hc).2 x hxc).2 ((mem_stack_iff hstack).mpr (.inl hx'))
      · exact h.sound.cycles_nodup

end Close

/-- A visit of a file. By induction on the fuel: a visit that is followed enters one file more. -/
theorem visit_spec (g : ImportGraph) (fuel : Nat) : Visits g fuel (visit g fuel) := by
  induction fuel with
  | zero =>
    intro opened s f _ hf hfile _ hfuel
    have := unentered_enter hfile hf
    omega
  | succ fuel ih =>
    intro opened s f hs hf hfile hleads hfuel
    have hless := unentered_enter hfile hf
    have hedges : ∀ x ∈ NameSet.sorted (targets g f), g.Edge f x ∧ x ∈ g.files := by
      intro x hx
      have hedge : g.Edge f x := List.mem_mergeSort.mp hx
      exact ⟨hedge, hedge.mem_files⟩
    obtain ⟨l, t, ht, hfollowing⟩ :=
      foldlM_follow_spec ih _ hedges (Following.enter hs hf hleads) (by omega)
    have hall : ∀ x, g.Edge f x → x ∈ (NameSet.sorted (targets g f)).reverse ++ [] := by
      intro x hx
      rw [List.append_nil, List.mem_reverse]
      exact List.mem_mergeSort.mpr hx
    obtain ⟨u, hu, hvisited⟩ := close_spec hfollowing hall
    refine ⟨l, u, ?_, hvisited⟩
    rw [visit, ht]
    exact hu

theorem Sound.start (g : ImportGraph) : Sound g [] start where
  number_lt := by simp [Entered, Search.start]
  stack_entered := by simp [Search.start]
  stack_order := List.Pairwise.nil
  mem_onStack := by simp [Search.start]
  opened_stack := by simp
  imports_entered := by simp [Entered, Search.start]
  leads_opened := by simp [Search.start]
  opened_leads := by simp
  settled_imports := by simp [Settled, Entered, Search.start]
  cycles_sound := by simp [Search.start]
  cycles_complete := by simp [Settled, Entered, Search.start]
  cycles_nodup := List.nodup_nil

/-- Between the visits from outside the stack is empty. -/
theorem Sound.settled_of_entered (h : Sound g [] s) (hf : s.Entered f) : s.Settled f := by
  refine ⟨hf, fun hmem => ?_⟩
  obtain ⟨_, ho, _⟩ := h.leads_opened f hmem
  exact List.not_mem_nil ho

/-- A file that the search comes to is entered by its visit, unless it was before. -/
theorem exists_entered (h : Sound g [] s) (hf : f ∈ g.files) :
    ∃ t, (if s.hasEntered f then .ok s else s.visit g g.files.length f) = Except.ok t ∧
      Sound g [] t ∧ (∀ x, s.Entered x → t.Entered x) ∧ t.Entered f := by
  by_cases hentered : s.Entered f
  · exact ⟨s, if_pos (hasEntered_iff.mpr hentered), h, fun _ => id, hentered⟩
  · have hfuel : unentered g s ≤ g.files.length := List.length_filter_le _ _
    obtain ⟨l, t, ht, hv⟩ := visit_spec g g.files.length [] s f h hentered hf (by simp) hfuel
    refine ⟨t, ?_, hv.sound, fun x => hv.grows.entered, by simp [Entered, hv.index]⟩
    rw [if_neg (mt hasEntered_iff.mp hentered), ht]

theorem exists_foldlM_entered {fs : List String} (hfs : ∀ f ∈ fs, f ∈ g.files)
    (h : Sound g [] s) :
    ∃ t, fs.foldlM (fun s file => if s.hasEntered file then .ok s
        else s.visit g g.files.length file) s = Except.ok t ∧
      Sound g [] t ∧ (∀ x, s.Entered x → t.Entered x) ∧ ∀ f ∈ fs, t.Entered f := by
  induction fs generalizing s with
  | nil => exact ⟨s, rfl, h, fun _ => id, by simp⟩
  | cons f fs ih =>
    obtain ⟨hf, hfs⟩ := List.forall_mem_cons.mp hfs
    obtain ⟨t, ht, hsound, hmono, htf⟩ := exists_entered h hf
    obtain ⟨u, hu, husound, humono, hall⟩ := ih hfs hsound
    refine ⟨u, ?_, husound, fun x hx => humono x (hmono x hx),
      List.forall_mem_cons.mpr ⟨humono f htf, hall⟩⟩
    rw [List.foldlM_cons, ht]
    exact hu

end Search

open Search

/-- A search ends, and has entered all files that import others. -/
theorem exists_search (g : ImportGraph) :
    ∃ s, g.search = .ok s ∧ Sound g [] s ∧ ∀ f ∈ g.map (·.1), s.Entered f := by
  have hkeys : ∀ f ∈ NameSet.sorted (g.map (·.1)), f ∈ g.files := by
    intro f hf
    obtain ⟨e, he, rfl⟩ := List.mem_map.mp (List.mem_mergeSort.mp hf)
    exact List.mem_flatMap.mpr ⟨e, he, List.mem_cons_self⟩
  obtain ⟨t, ht, hsound, _, hall⟩ := exists_foldlM_entered hkeys (Sound.start g)
  exact ⟨t, ht, hsound, fun f hf => hall f (List.mem_mergeSort.mpr hf)⟩

end SolidityCalls.ImportGraph
