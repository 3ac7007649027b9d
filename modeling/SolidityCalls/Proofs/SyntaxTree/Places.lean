import SolidityCalls.SyntaxTree.Expression
import Mathlib.Data.List.Nodup
import Mathlib.Logic.Relation

/-! Places of a tree. Listed in preorder they are distinct, and with a place the list has the one
above it. A callee can therefore be followed as a place, not only as a node: the way down from a
call to its callee and the way up to the call are the same. -/
namespace SolidityCalls

/-- Induction over trees: what holds of a node if it holds of its children holds of every node. -/
@[elab_as_elim]
theorem Node.inductionOn {motive : Node → Prop} (n : Node)
    (step : ∀ n, (∀ c ∈ n.children, motive c) → motive n) : motive n :=
  step n fun c _hc => Node.inductionOn c step
termination_by sizeOf n
decreasing_by exact Node.sizeOf_lt_of_mem_children _hc

namespace Node

theorem preorderAll_eq (ns : List Node) : preorderAll ns = ns.flatMap preorder := by
  induction ns with
  | nil => rw [preorderAll, List.flatMap_nil]
  | cons n ns ih => rw [preorderAll, ih, List.flatMap_cons]

theorem preorder_eq (n : Node) : n.preorder = n :: n.children.flatMap preorder := by
  cases n
  rw [preorder, preorderAll_eq]

theorem self_mem_preorder (n : Node) : n ∈ n.preorder := by
  rw [preorder_eq]
  exact List.mem_cons_self

/-- A tree holds the trees below its nodes. -/
theorem preorder_subset {n m : Node} (h : m ∈ n.preorder) : m.preorder ⊆ n.preorder := by
  induction n using Node.inductionOn with
  | step n ih =>
    rw [preorder_eq, List.mem_cons, List.mem_flatMap] at h
    rcases h with rfl | ⟨c, hc, hm⟩
    · exact List.Subset.refl _
    · rw [preorder_eq n]
      exact fun x hx => List.mem_cons_of_mem _ (List.mem_flatMap.mpr ⟨c, hc, ih c hc hm hx⟩)

theorem mem_preorder_of_mem_children {n c : Node} (h : c ∈ n.children) : c ∈ n.preorder := by
  rw [preorder_eq]
  exact List.mem_cons_of_mem _ (List.mem_flatMap.mpr ⟨c, h, self_mem_preorder c⟩)

end Node

namespace Place

open Relation (ReflTransGen)

theorem preorderAll_eq (above : List Step) (parent : Node) (i : Nat) (ns : List Node) :
    preorderAll above parent i ns =
      (ns.zipIdx i).flatMap fun x => preorder (⟨parent, x.2⟩ :: above) x.1 := by
  induction ns generalizing i with
  | nil => rw [preorderAll, List.zipIdx_nil, List.flatMap_nil]
  | cons n ns ih => rw [preorderAll, ih, List.zipIdx_cons, List.flatMap_cons]

theorem preorder_eq (above : List Step) (n : Node) :
    preorder above n = ⟨n, above⟩ ::
      n.children.zipIdx.flatMap fun x => preorder (⟨n, x.2⟩ :: above) x.1 := by
  cases n
  rw [preorder, preorderAll_eq]

theorem mem_preorder {above : List Step} {n : Node} {q : Place} :
    q ∈ preorder above n ↔ q = ⟨n, above⟩ ∨
      ∃ i c, n.children[i]? = some c ∧ q ∈ preorder (⟨n, i⟩ :: above) c := by
  rw [preorder_eq, List.mem_cons, List.mem_flatMap]
  refine or_congr_right ⟨?_, ?_⟩
  · rintro ⟨⟨c, i⟩, hx, hq⟩
    exact ⟨i, c, List.mk_mem_zipIdx_iff_getElem?.mp hx, hq⟩
  · rintro ⟨i, c, hc, hq⟩
    exact ⟨(c, i), List.mk_mem_zipIdx_iff_getElem?.mpr hc, hq⟩

theorem self_mem_preorder (above : List Step) (n : Node) : ⟨n, above⟩ ∈ preorder above n :=
  mem_preorder.mpr (.inl rfl)

/-- The way up from a place of a tree goes through the root of the tree. -/
theorem suffix_above {above : List Step} {n : Node} {q : Place} (h : q ∈ preorder above n) :
    above <:+ q.above := by
  induction n using Node.inductionOn generalizing above with
  | step n ih =>
    rcases mem_preorder.mp h with rfl | ⟨i, c, hc, hq⟩
    · exact List.suffix_rfl
    · exact (List.suffix_cons _ _).trans (ih c (List.mem_of_getElem? hc) hq)

/-- Every node of a tree has its own place. -/
theorem nodup_preorder (above : List Step) (n : Node) : (preorder above n).Nodup := by
  induction n using Node.inductionOn generalizing above with
  | step n ih =>
    rw [preorder_eq, List.nodup_cons, List.nodup_flatMap]
    refine ⟨fun hmem => ?_, fun x hx => ?_, ?_⟩
    · obtain ⟨x, _, hx⟩ := List.mem_flatMap.mp hmem
      have hlength : above.length + 1 ≤ above.length := (suffix_above hx).length_le
      omega
    · exact ih x.1 (List.fst_mem_of_mem_zipIdx hx) _
    · have hindex : (n.children.zipIdx.map Prod.snd).Nodup := by
        rw [List.zipIdx_map_snd]
        exact List.nodup_range'
      refine (List.pairwise_map.mp hindex).imp fun {x y} hne q hx hy => hne ?_
      -- The step right below the node tells the children apart.
      have hsuffix :=
        List.suffix_of_suffix_length_le (suffix_above hx) (suffix_above hy) (Nat.le_refl _)
      have hstep := (List.cons.inj (hsuffix.eq_of_length rfl)).1
      exact (Step.mk.inj hstep).2

theorem child?_eq_some_iff {p q : Place} {i : Nat} :
    p.child? i = some q ↔ ∃ c, p.node.children[i]? = some c ∧ q = ⟨c, ⟨p.node, i⟩ :: p.above⟩ := by
  rw [child?, Option.map_eq_some_iff]
  exact exists_congr fun c => and_congr_right fun _ => eq_comm

/-- A place of a tree other than its root is a child of a place of the tree. -/
theorem parent_mem_preorder {above : List Step} {n : Node} {q : Place}
    (h : q ∈ preorder above n) (hne : q ≠ ⟨n, above⟩) :
    ∃ step rest, q.above = step :: rest ∧ ⟨step.parent, rest⟩ ∈ preorder above n ∧
      (Place.mk step.parent rest).child? step.index = some q := by
  induction n using Node.inductionOn generalizing above with
  | step n ih =>
    rcases mem_preorder.mp h with rfl | ⟨i, c, hc, hq⟩
    · exact absurd rfl hne
    · by_cases htop : q = ⟨c, ⟨n, i⟩ :: above⟩
      · subst htop
        exact ⟨⟨n, i⟩, above, rfl, self_mem_preorder above n,
          child?_eq_some_iff.mpr ⟨c, hc, rfl⟩⟩
      · obtain ⟨step, rest, habove, hmem, hchild⟩ := ih c (List.mem_of_getElem? hc) hq htop
        exact ⟨step, rest, habove, mem_preorder.mpr (.inr ⟨i, c, hc, hmem⟩), hchild⟩

theorem child_mem_preorder {above : List Step} {n : Node} {p q : Place} {i : Nat}
    (hp : p ∈ preorder above n) (h : p.child? i = some q) : q ∈ preorder above n := by
  obtain ⟨c, hc, rfl⟩ := child?_eq_some_iff.mp h
  induction n using Node.inductionOn generalizing above with
  | step n ih =>
    rcases mem_preorder.mp hp with rfl | ⟨j, d, hd, hp⟩
    · exact mem_preorder.mpr (.inr ⟨i, c, hc, self_mem_preorder _ c⟩)
    · exact mem_preorder.mpr (.inr ⟨j, d, hd, ih d (List.mem_of_getElem? hd) hp⟩)

/-- The nodes at the places of a tree are the nodes of the tree. -/
theorem map_node_preorder (above : List Step) (n : Node) :
    (preorder above n).map (·.node) = n.preorder := by
  induction n using Node.inductionOn generalizing above with
  | step n ih =>
    rw [preorder_eq, Node.preorder_eq, List.map_cons, List.map_flatMap]
    conv_rhs => rw [← List.zipIdx_map_fst 0 n.children, List.flatMap_map]
    congr 1
    exact List.flatMap_congr fun x hx => ih x.1 (List.fst_mem_of_mem_zipIdx hx) _

/-- The place inside all wrappers. -/
def unwrap (p : Place) : Place :=
  if p.node.isWrapper then
    match _h : p.node.children.zipIdx.filter (·.1.named) with
    | [x] => unwrap ⟨x.1, ⟨p.node, x.2⟩ :: p.above⟩
    | _ => p
  else p
termination_by sizeOf p.node
decreasing_by
  have hmem : x ∈ p.node.children.zipIdx.filter (·.1.named) := _h ▸ List.mem_singleton_self x
  exact Node.sizeOf_lt_of_mem_children (List.fst_mem_of_mem_zipIdx (List.mem_filter.mp hmem).1)

theorem namedChildren_eq (n : Node) :
    n.namedChildren = (n.children.zipIdx.filter (·.1.named)).map (·.1) := by
  have hfst : (n.children.zipIdx.map (·.1)).filter (·.named) =
      (n.children.zipIdx.filter (·.1.named)).map (·.1) := List.filter_map
  rw [← hfst, List.zipIdx_map_fst]
  rfl

/-- Places are unwrapped as their nodes are. -/
theorem node_unwrap (p : Place) : p.unwrap.node = p.node.unwrap := by
  fun_induction unwrap p with
  | case1 p hwrapper x hx ih =>
    have hone : p.node.namedChildren = [x.1] := by rw [namedChildren_eq, hx, List.map_singleton]
    rw [ih]
    conv_rhs => rw [Node.unwrap, if_pos hwrapper]
    split
    next c hc => rw [(List.cons.inj (hc.symm.trans hone)).1]
    next hc => exact absurd hone (hc x.1)
  | case2 p hwrapper hx =>
    rw [Node.unwrap, if_pos hwrapper]
    split
    next c hc =>
      rw [namedChildren_eq] at hc
      obtain ⟨x, hone, _⟩ := List.map_eq_singleton_iff.mp hc
      exact absurd hone (hx x)
    next => rfl
  | case3 p hwrapper => rw [Node.unwrap, if_neg hwrapper]

/-- Unwrapping goes on from a wrapper to its only named child. -/
def Opens (p q : Place) : Prop :=
  p.node.isWrapper ∧ ∃ x, p.node.children.zipIdx.filter (·.1.named) = [x] ∧
    q = ⟨x.1, ⟨p.node, x.2⟩ :: p.above⟩

theorem Opens.unwrap_eq {p q : Place} (h : Opens p q) : p.unwrap = q.unwrap := by
  obtain ⟨hwrapper, x, hx, rfl⟩ := h
  rw [unwrap, if_pos hwrapper]
  split
  next y hy => rw [(List.cons.inj (hy.symm.trans hx)).1]
  next hy => exact absurd hx (hy x)

/-- Unwrapping ends where it cannot go on. -/
theorem unwrap_eq_iff {p q : Place} :
    p.unwrap = q ↔ ReflTransGen Opens p q ∧ ∀ r, ¬ Opens q r := by
  have hend {p : Place} (h : ∀ r, ¬ Opens p r) : p.unwrap = p := by
    rw [unwrap]
    split_ifs with hwrapper
    · split
      next x hx => exact absurd ⟨hwrapper, x, hx, rfl⟩ (h _)
      next => rfl
    · rfl
  constructor
  · rintro rfl
    fun_induction unwrap p with
    | case1 p hwrapper x hx ih => exact ⟨.head ⟨hwrapper, x, hx, rfl⟩ ih.1, ih.2⟩
    | case2 p _ hx => exact ⟨.refl, fun _ h => h.2.elim fun x h => hx x h.1⟩
    | case3 p hwrapper => exact ⟨.refl, fun _ h => hwrapper h.1⟩
  · rintro ⟨hway, hq⟩
    induction hway using ReflTransGen.head_induction_on with
    | refl => exact hend hq
    | head hopens _ ih => exact hopens.unwrap_eq.trans ih

/-- The callee of a call, inside all wrappers. -/
def callee? (call : Place) : Option Place :=
  ((call.node.fieldIndex? .function).bind call.child?).map unwrap

/-- The callee's place holds the callee's node. -/
theorem map_node_callee? (call : Place) :
    call.callee?.map (·.node) = (call.node.childByField? .function).map Node.unwrap := by
  rw [callee?, Node.childByField?, Node.fieldIndex?, List.find?_eq_bind_findIdx?_getElem?,
    Option.map_map, Option.map_bind, Option.map_bind]
  congr 1
  funext i
  simp [child?, Function.comp_def, node_unwrap]

/-- What the grammar says of the nodes it puts around expressions: each holds one expression. -/
def HoldsSingleExpressions (root : Node) : Prop :=
  ∀ n ∈ root.preorder, n.kind = "expression" → ∃ c, n.children = [c] ∧ c.named

/-- An expression wrapper stands right above a place. -/
def Wraps (p q : Place) : Prop := p.node.kind = "expression" ∧ ∃ i, p.child? i = some q

theorem Wraps.enclosingCall?_eq {p q : Place} (h : Wraps p q) :
    q.enclosingCall? = p.enclosingCall? := by
  obtain ⟨hkind, i, hchild⟩ := h
  obtain ⟨c, _, rfl⟩ := child?_eq_some_iff.mp hchild
  rw [enclosingCall?, callAbove?, if_pos hkind]
  rfl

/-- Climbing ends at a call, over expression wrappers only, and from the child that the call has for
its function. -/
theorem enclosingCall?_eq_some_iff {root : Node} {q call : Place} (hq : q ∈ preorder [] root) :
    q.enclosingCall? = some call ↔ call ∈ preorder [] root ∧ call.node.kind = "call_expression" ∧
      ∃ i f, call.node.fieldIndex? .function = some i ∧ call.child? i = some f ∧
        ReflTransGen Wraps f q := by
  constructor
  · intro h
    obtain ⟨node, above⟩ := q
    induction above generalizing node with
    | nil => cases h
    | cons step rest ih =>
      obtain ⟨_, _, habove, hparent, hchild⟩ := parent_mem_preorder hq (by simp)
      obtain ⟨rfl, rfl⟩ := List.cons.inj habove
      rw [enclosingCall?, callAbove?] at h
      split_ifs at h with hwrapper hcall
      · obtain ⟨hmem, hkind, i, f, hindex, hf, hway⟩ := ih step.parent hparent h
        exact ⟨hmem, hkind, i, f, hindex, hf, hway.tail ⟨hwrapper, _, hchild⟩⟩
      · obtain rfl := Option.some.inj h
        exact ⟨hparent, hcall.1, step.index, _, hcall.2, hchild, .refl⟩
  · rintro ⟨_, hkind, i, f, hindex, hf, hway⟩
    clear hq
    induction hway with
    | refl =>
      obtain ⟨c, _, rfl⟩ := child?_eq_some_iff.mp hf
      rw [enclosingCall?, callAbove?, if_neg (by simp [hkind]), if_pos ⟨hkind, hindex⟩]
    | tail _ hwraps ih => exact hwraps.enclosingCall?_eq.trans ih

/-- An expression wrapper with one named child opens on what it holds, if that is named. -/
theorem Wraps.opens {p q : Place} (h : Wraps p q) {c : Node} (hone : p.node.namedChildren = [c])
    (hnamed : q.node.named) : Opens p q := by
  obtain ⟨hkind, i, hchild⟩ := h
  obtain ⟨d, hd, rfl⟩ := child?_eq_some_iff.mp hchild
  rw [namedChildren_eq] at hone
  obtain ⟨x, hx, _⟩ := List.map_eq_singleton_iff.mp hone
  have hmem : (d, i) ∈ p.node.children.zipIdx.filter (·.1.named) :=
    List.mem_filter.mpr ⟨List.mk_mem_zipIdx_iff_getElem?.mpr hd, hnamed⟩
  obtain rfl : (d, i) = x := List.mem_singleton.mp (hx ▸ hmem)
  exact ⟨by simp [Node.isWrapper, hkind], _, hx, rfl⟩

/-- The way up from a place ends at a call of the tree, and the way down from the call comes back
to the place, if no wrapper on it holds anything else. -/
theorem enclosingCall?_spec {body : Node} {q call : Place} (hq : q ∈ preorder [] body)
    (h : q.enclosingCall? = some call) :
    call ∈ preorder [] body ∧ call.node.kind = "call_expression" ∧
      (HoldsSingleExpressions body → call.callee? = some q.unwrap) := by
  obtain ⟨hmem, hkind, i, f, hindex, hf, hway⟩ := (enclosingCall?_eq_some_iff hq).mp h
  refine ⟨hmem, hkind, fun hsingle => ?_⟩
  have hunwrap : q ∈ preorder [] body ∧ f.unwrap = q.unwrap := by
    clear hq h
    induction hway with
    | refl => exact ⟨child_mem_preorder hmem hf, rfl⟩
    | @tail p q _ hwraps ih =>
      obtain ⟨hp, hsame⟩ := ih
      have hnode : p.node ∈ body.preorder := by
        rw [← map_node_preorder [] body]
        exact List.mem_map_of_mem hp
      obtain ⟨c, hone, hnamed⟩ := hsingle p.node hnode hwraps.1
      obtain ⟨_, hchild⟩ := hwraps.2
      obtain ⟨d, hd, rfl⟩ := child?_eq_some_iff.mp hchild
      obtain rfl : d = c := List.mem_singleton.mp (hone ▸ List.mem_of_getElem? hd)
      have hopens := hwraps.opens (c := d) (by simp [Node.namedChildren, hone, hnamed]) hnamed
      exact ⟨child_mem_preorder hp hchild, hsame.trans hopens.unwrap_eq⟩
  rw [callee?, hindex, Option.bind_some, hf, Option.map_some, hunwrap.2]

end Place
end SolidityCalls
