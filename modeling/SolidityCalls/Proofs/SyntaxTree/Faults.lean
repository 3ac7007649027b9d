import SolidityCalls.Proofs.SyntaxTree.Places
import SolidityCalls.SyntaxTree.Fault
import Mathlib.Data.List.Induction

/-! The first fault of a tree. The search goes below marked nodes only; where the marks are right it
passes over no fault and goes nowhere in vain, so it comes to the place that a scan of all nodes
comes to first. Two faulty nodes may well be equal, so both are compared as places. Positions tell
bytes apart by lines and columns, and are ordered as the bytes are. -/
namespace SolidityCalls

theorem findSome?_congr {α β : Type} {f g : α → Option β} {xs : List α}
    (h : ∀ x ∈ xs, f x = g x) : xs.findSome? f = xs.findSome? g := by
  rw [← List.head?_filterMap, ← List.head?_filterMap, List.filterMap_congr h]

namespace Node

theorem firstFaultIn?_eq (ns : List Node) : firstFaultIn? ns = ns.findSome? firstFault? := by
  induction ns with
  | nil => rfl
  | cons n ns ih =>
    rw [firstFaultIn?, List.findSome?_cons, ih]
    cases n.firstFault? <;> rfl

theorem firstFault?_eq (n : Node) : n.firstFault? =
    if n.isFault then some n
    else if n.hasError then some ((n.children.findSome? firstFault?).getD n)
    else none := by
  cases n
  rw [firstFault?, firstFaultIn?_eq]

/-- A node is marked exactly if it or a node below it is faulty. -/
def MarksFaults (root : Node) : Prop :=
  ∀ n ∈ root.preorder, n.hasError ↔ ∃ m ∈ n.preorder, m.isFault

/-- A node that is not faulty itself is marked exactly if a node below it is. Whether faulty nodes
are marked does not matter to the search. -/
def MarksHolders (root : Node) : Prop :=
  ∀ n ∈ root.preorder, ¬ n.isFault → (n.hasError ↔ ∃ m ∈ n.preorder, m.isFault)

theorem MarksFaults.marksHolders {root : Node} (h : root.MarksFaults) : root.MarksHolders :=
  fun n hn _ => h n hn

theorem MarksHolders.of_mem {root n : Node} (h : root.MarksHolders) (hn : n ∈ root.preorder) :
    n.MarksHolders :=
  fun m hm => h m (preorder_subset hn hm)

end Node

namespace Place

mutual

/-- The place of the first faulty node below a place, searched for as the node is. -/
def firstFault? (above : List Step) : Node → Option Place
  | n@⟨_, _, _, _, _, _, _, children⟩ =>
    if n.isFault then some ⟨n, above⟩
    else if n.hasError then some ((firstFaultIn? above n 0 children).getD ⟨n, above⟩)
    else none

def firstFaultIn? (above : List Step) (parent : Node) (i : Nat) : List Node → Option Place
  | [] => none
  | n :: ns =>
    match firstFault? (⟨parent, i⟩ :: above) n with
    | some p => some p
    | none => firstFaultIn? above parent (i + 1) ns

end

theorem firstFaultIn?_eq (above : List Step) (parent : Node) (i : Nat) (ns : List Node) :
    firstFaultIn? above parent i ns =
      (ns.zipIdx i).findSome? fun x => firstFault? (⟨parent, x.2⟩ :: above) x.1 := by
  induction ns generalizing i with
  | nil => rfl
  | cons n ns ih =>
    rw [firstFaultIn?, List.zipIdx_cons, List.findSome?_cons, ih]
    cases firstFault? (⟨parent, i⟩ :: above) n <;> rfl

theorem firstFault?_eq (above : List Step) (n : Node) : firstFault? above n =
    if n.isFault then some ⟨n, above⟩
    else if n.hasError then
      some ((n.children.zipIdx.findSome? fun x =>
        firstFault? (⟨n, x.2⟩ :: above) x.1).getD ⟨n, above⟩)
    else none := by
  cases n
  rw [firstFault?, firstFaultIn?_eq]

/-- The place that the search finds is that of the node that it finds. -/
theorem map_node_firstFault? (above : List Step) (n : Node) :
    (firstFault? above n).map (·.node) = n.firstFault? := by
  induction n using Node.inductionOn generalizing above with
  | step n ih =>
    have hbelow : (n.children.zipIdx.findSome? fun x =>
        firstFault? (⟨n, x.2⟩ :: above) x.1).map (·.node) =
          n.children.findSome? Node.firstFault? := by
      rw [List.map_findSome?]
      conv_rhs => rw [← List.zipIdx_map_fst 0 n.children, List.findSome?_map]
      exact findSome?_congr fun x hx => ih x.1 (List.fst_mem_of_mem_zipIdx hx) _
    rw [firstFault?_eq, Node.firstFault?_eq, ← hbelow]
    split_ifs
    · rfl
    · exact congrArg some (Option.getD_map _ _ _).symm
    · rfl

/-- A scan of all places comes to a fault exactly if there is one. -/
theorem isSome_scan_iff (above : List Step) (n : Node) :
    ((preorder above n).find? (·.node.isFault)).isSome ↔ ∃ m ∈ n.preorder, m.isFault := by
  rw [List.find?_isSome, ← map_node_preorder above n]
  simp

/-- The search finds the place that a scan of all places finds. -/
theorem firstFault?_eq_find? {n : Node} (h : n.MarksHolders) (above : List Step) :
    firstFault? above n = (preorder above n).find? (·.node.isFault) := by
  induction n using Node.inductionOn generalizing above with
  | step n ih =>
    have hbelow : (n.children.zipIdx.findSome? fun x => firstFault? (⟨n, x.2⟩ :: above) x.1) =
        (n.children.zipIdx.flatMap fun x => preorder (⟨n, x.2⟩ :: above) x.1).find?
          (·.node.isFault) := by
      rw [List.find?_flatMap]
      refine findSome?_congr fun x hx => ?_
      have hchild : x.1 ∈ n.children := List.fst_mem_of_mem_zipIdx hx
      exact ih x.1 hchild (h.of_mem (Node.mem_preorder_of_mem_children hchild)) _
    rw [firstFault?_eq, hbelow]
    split_ifs with hfault hmarked
    · rw [preorder_eq, List.find?_cons_of_pos (p := fun q : Place => q.node.isFault) hfault]
    -- A marked node holds a fault, so the search below it comes back with one.
    · have hsome := (isSome_scan_iff above n).mpr
        ((h n (Node.self_mem_preorder n) hfault).mp hmarked)
      rw [preorder_eq, List.find?_cons_of_neg (p := fun q : Place => q.node.isFault) hfault]
        at hsome ⊢
      obtain ⟨p, hp⟩ := Option.isSome_iff_exists.mp hsome
      rw [hp, Option.getD_some]
    · have hnone := mt (isSome_scan_iff above n).mp
        (mt (h n (Node.self_mem_preorder n) hfault).mpr hmarked)
      exact (Option.not_isSome_iff_eq_none.mp hnone).symm

end Place

namespace Node

variable {root : Node}

/-- The search finds the node that a scan of all nodes finds. -/
theorem MarksHolders.firstFault?_eq_find? (h : root.MarksHolders) :
    root.firstFault? = root.preorder.find? (·.isFault) := by
  rw [← Place.map_node_firstFault? [] root, Place.firstFault?_eq_find? h,
    ← Place.map_node_preorder [] root, List.find?_map]
  rfl

theorem MarksHolders.firstFault?_eq_none_iff (h : root.MarksHolders) :
    root.firstFault? = none ↔ ∀ n ∈ root.preorder, ¬ n.isFault := by
  rw [h.firstFault?_eq_find?, List.find?_eq_none]

/-- A node that the search goes below never has to stand for itself. -/
theorem MarksHolders.isSome_firstFaultIn? (h : root.MarksHolders) {n : Node}
    (hn : n ∈ root.preorder) (hfault : ¬ n.isFault) (hmarked : n.hasError) :
    (firstFaultIn? n.children).isSome := by
  by_contra hnone
  rw [Option.not_isSome_iff_eq_none, firstFaultIn?_eq] at hnone
  have hself : n.firstFault? = some n := by
    rw [firstFault?_eq, if_neg hfault, if_pos hmarked, hnone, Option.getD_none]
  rw [(h.of_mem hn).firstFault?_eq_find?] at hself
  exact hfault (List.find?_some hself)

/-- The nodes start in the order in which they are listed. -/
def StartsInOrder (root : Node) : Prop := root.preorder.Pairwise fun n m => n.start ≤ m.start

/-- No fault starts before the first one. -/
theorem StartsInOrder.start_le (h : root.StartsInOrder) {n m : Node}
    (hn : root.preorder.find? (·.isFault) = some n) (hm : m ∈ root.preorder) (hfault : m.isFault) :
    n.start ≤ m.start := by
  obtain ⟨_, before, rest, hsplit, hbefore⟩ := List.find?_eq_some_iff_append.mp hn
  rw [StartsInOrder, hsplit, List.pairwise_append, List.pairwise_cons] at h
  rw [hsplit, List.mem_append, List.mem_cons] at hm
  rcases hm with hm | rfl | hm
  -- Nothing is faulty before the first fault, and what comes after it starts after it.
  · exact absurd hfault (by simpa using hbefore m hm)
  · exact Nat.le_refl _
  · exact h.2.1.1 m hm

end Node

namespace Position

/-- A byte stands after some whole lines, each with the line end behind it, and after the beginning
of its own line. Its position counts the lines, and the bytes of the beginning. -/
def IsAt (p : Position) (source : Bytes) (offset : Nat) : Prop :=
  ∃ (lines : List Bytes) (rest : Bytes),
    source.take offset = lines.flatMap (· ++ [10]) ++ rest ∧ (∀ line ∈ lines, 10 ∉ line) ∧
      10 ∉ rest ∧ p = ⟨lines.length, rest.length⟩

/-- A position is not behind another one. -/
def IsUpTo (p q : Position) : Prop := p.line < q.line ∨ p.line = q.line ∧ p.column ≤ q.column

variable {source : Bytes} {offset : Nat} {p : Position}

theorem exists_lines (bytes : Bytes) : ∃ (lines : List Bytes) (rest : Bytes),
    bytes = lines.flatMap (· ++ [10]) ++ rest ∧ (∀ line ∈ lines, 10 ∉ line) ∧ 10 ∉ rest := by
  induction bytes using List.reverseRecOn with
  | nil => exact ⟨[], [], rfl, by simp, by simp⟩
  | append_singleton bytes b ih =>
    obtain ⟨lines, rest, rfl, hlines, hrest⟩ := ih
    by_cases hb : b = 10
    · subst hb
      refine ⟨lines ++ [rest], [], by simp, fun line hline => ?_, by simp⟩
      rcases List.mem_append.mp hline with hline | hline
      · exact hlines line hline
      · exact List.mem_singleton.mp hline ▸ hrest
    · exact ⟨lines, rest ++ [b], by simp, hlines, by simp [hrest, Ne.symm hb]⟩

theorem count_lines {lines : List Bytes} (h : ∀ line ∈ lines, 10 ∉ line) :
    (lines.flatMap (· ++ [10])).count 10 = lines.length := by
  induction lines with
  | nil => rfl
  | cons line lines ih =>
    obtain ⟨hline, hlines⟩ := List.forall_mem_cons.mp h
    rw [List.flatMap_cons, List.count_append, List.count_append, List.count_eq_zero.mpr hline,
      ih hlines, List.length_cons]
    simp [Nat.add_comm]

theorem takeWhile_lines (lines : List Bytes) :
    (lines.flatMap (· ++ [10])).reverse.takeWhile (· ≠ 10) = [] := by
  rcases List.eq_nil_or_concat lines with rfl | ⟨lines, line, rfl⟩
  · rfl
  · simp

/-- The bytes before a byte tell its position. -/
theorem IsAt.eq_ofOffset (h : p.IsAt source offset) : p = ofOffset source offset := by
  obtain ⟨lines, rest, hsplit, hlines, hrest, rfl⟩ := h
  have hcolumn : ∀ b ∈ rest.reverse, decide (b ≠ 10) = true := by
    intro b hb
    rw [decide_eq_true_eq]
    rintro rfl
    exact hrest (List.mem_reverse.mp hb)
  rw [ofOffset, hsplit, List.count_append, count_lines hlines, List.count_eq_zero.mpr hrest,
    List.reverse_append, List.takeWhile_append_of_pos hcolumn, takeWhile_lines]
  simp

theorem isAt_ofOffset (source : Bytes) (offset : Nat) :
    (ofOffset source offset).IsAt source offset := by
  obtain ⟨lines, rest, hsplit, hlines, hrest⟩ := exists_lines (source.take offset)
  have hat : Position.IsAt ⟨lines.length, rest.length⟩ source offset :=
    ⟨lines, rest, hsplit, hlines, hrest, rfl⟩
  exact hat.eq_ofOffset ▸ hat

/-- Positions are ordered as bytes are. -/
theorem IsAt.isUpTo {q : Position} {offset' : Nat} (hp : p.IsAt source offset)
    (hq : q.IsAt source offset') (h : offset ≤ offset') : p.IsUpTo q := by
  obtain ⟨more, hmore⟩ : ∃ more, source.take offset' = source.take offset ++ more := by
    obtain ⟨length, rfl⟩ := Nat.exists_eq_add_of_le h
    exact ⟨_, List.take_add⟩
  by_cases hend : 10 ∈ more
  · left
    rw [hp.eq_ofOffset, hq.eq_ofOffset, ofOffset, ofOffset, hmore, List.count_append]
    exact Nat.lt_add_of_pos_right (List.count_pos_iff.mpr hend)
  · right
    obtain ⟨lines, rest, hsplit, hlines, hrest, rfl⟩ := hp
    have hlonger : Position.IsAt ⟨lines.length, (rest ++ more).length⟩ source offset' :=
      ⟨lines, rest ++ more, by rw [hmore, hsplit, List.append_assoc], hlines,
        by simp [hrest, hend], rfl⟩
    obtain rfl := hq.eq_ofOffset.trans hlonger.eq_ofOffset.symm
    exact ⟨rfl, by simp⟩

end Position
end SolidityCalls
