import SolidityCalls.Proofs.Link.Invocations

/-! Which member expression has the arguments of a call. A member looks for its call by climbing, a
call for its callee by unwrapping. Climbing leaves expressions only, and unwrapping takes arguments
off too; where no callee is an argument, both ways are the same. -/
namespace SolidityCalls

open Relation (ReflTransGen)

namespace Place

/-- Unwrapping the callee of a call goes on from a place. -/
def OpensFor (call p : Place) : Prop :=
  ∃ i f, call.node.fieldIndex? .function = some i ∧ call.child? i = some f ∧
    ReflTransGen Opens f p ∧ ∃ q, Opens p q

/-- Expressions and members are named, expressions hold one named node each, and no call has an
argument around its callee. -/
structure HasPlainCallees (root : Node) : Prop where
  named : ∀ p ∈ preorder [] root,
    p.node.kind = "expression" ∨ p.node.kind = "member_expression" → p.node.named
  single : ∀ p ∈ preorder [] root, p.node.kind = "expression" → p.node.namedChildren.length = 1
  no_argument : ∀ call ∈ preorder [] root, call.node.kind = "call_expression" →
    ∀ p, call.OpensFor p → p.node.kind ≠ "call_argument"

variable {root : Node} {call f m : Place}

/-- Expressions around a member are all taken off by unwrapping. -/
theorem HasPlainCallees.opens_of_wraps (h : HasPlainCallees root) (hf : f ∈ preorder [] root)
    (hm : m.node.kind = "member_expression") (hway : ReflTransGen Wraps f m) :
    ReflTransGen Opens f m := by
  induction hway using ReflTransGen.head_induction_on with
  | refl => exact .refl
  | @head p q hwraps hrest ih =>
    obtain ⟨i, hchild⟩ := hwraps.2
    have hq := child_mem_preorder hf hchild
    obtain ⟨c, hone⟩ := List.length_eq_one_iff.mp (h.single p hf hwraps.1)
    -- What stands below an expression on the way is the member or the next expression.
    have hkind : q.node.kind = "expression" ∨ q.node.kind = "member_expression" := by
      rcases hrest.cases_head with rfl | ⟨_, hnext, _⟩
      · exact .inr hm
      · exact .inl hnext.1
    exact .head (hwraps.opens hone (h.named q hq hkind)) (ih hq)

/-- What unwrapping takes off on the way to a callee are expressions around it. -/
theorem HasPlainCallees.wraps_of_opens (h : HasPlainCallees root) (hcall : call ∈ preorder [] root)
    (hkind : call.node.kind = "call_expression") {i : Nat}
    (hindex : call.node.fieldIndex? .function = some i) (hf : call.child? i = some f)
    (hway : ReflTransGen Opens f m) : ReflTransGen Wraps f m := by
  induction hway with
  | refl => exact .refl
  | @tail p q hbefore hopens ih =>
    have hargument := h.no_argument call hcall hkind p ⟨i, f, hindex, hf, hbefore, q, hopens⟩
    obtain ⟨hwrapper, x, hx, rfl⟩ := hopens
    have hexpression : p.node.kind = "expression" := by
      simpa [Node.isWrapper, hargument] using hwrapper
    have hmem : x ∈ p.node.children.zipIdx :=
      (List.mem_filter.mp (hx ▸ List.mem_singleton_self x)).1
    refine ih.tail ⟨hexpression, x.2, ?_⟩
    exact child?_eq_some_iff.mpr ⟨x.1, List.mem_zipIdx_iff_getElem?.mp hmem, rfl⟩

theorem callee?_eq_some_iff : call.callee? = some m ↔ ∃ i f,
    call.node.fieldIndex? .function = some i ∧ call.child? i = some f ∧ f.unwrap = m := by
  rw [callee?, Option.map_eq_some_iff]
  simp only [Option.bind_eq_some_iff]
  constructor
  · rintro ⟨f, ⟨i, hindex, hf⟩, hm⟩
    exact ⟨i, f, hindex, hf, hm⟩
  · rintro ⟨i, f, hindex, hf, hm⟩
    exact ⟨f, ⟨i, hindex, hf⟩, hm⟩

/-- Climbing from a member comes to the call whose callee it is, and to no other. -/
theorem HasPlainCallees.enclosingCall?_iff_callee? (h : HasPlainCallees root)
    (hm : m ∈ preorder [] root) (hmember : m.node.kind = "member_expression") :
    m.enclosingCall? = some call ↔ call ∈ preorder [] root ∧
      call.node.kind = "call_expression" ∧ call.callee? = some m := by
  have hend : ∀ r, ¬ Opens m r := fun r hopens => by
    simpa [Node.isWrapper, hmember] using hopens.1
  rw [enclosingCall?_eq_some_iff hm, callee?_eq_some_iff]
  refine and_congr_right fun hcall => and_congr_right fun hkind => ?_
  constructor
  · rintro ⟨i, f, hindex, hf, hway⟩
    have hopens := h.opens_of_wraps (child_mem_preorder hcall hf) hmember hway
    exact ⟨i, f, hindex, hf, unwrap_eq_iff.mpr ⟨hopens, hend⟩⟩
  · rintro ⟨i, f, hindex, hf, hunwrap⟩
    have hopens := (unwrap_eq_iff.mp hunwrap).1
    exact ⟨i, f, hindex, hf, h.wraps_of_opens hcall hkind hindex hf hopens⟩

end Place

namespace Extract

open Place

/-- Climbing from a member to its call and unwrapping the callee of the call agree. So the arguments
of a call go to one member at most, and to none if the call is recorded as one of a plain name. -/
theorem climbing_agrees_with_unwrapping {root : Node} (h : HasPlainCallees root) :
    (∀ m ∈ preorder [] root, ∀ call ∈ preorder [] root, m.node.kind = "member_expression" →
      call.node.kind = "call_expression" →
        (m.enclosingCall? = some call ↔ call.callee? = some m)) ∧
    (∀ m ∈ preorder [] root, ∀ m' ∈ preorder [] root, m.node.kind = "member_expression" →
      m'.node.kind = "member_expression" → ∀ call, m.enclosingCall? = some call →
        m'.enclosingCall? = some call → m = m') ∧
    ∀ (scope : Scope) (call : Place) (k : Call), directCall? scope call.node = some k →
      ∀ m ∈ preorder [] root, m.node.kind = "member_expression" →
        m.enclosingCall? ≠ some call := by
  refine ⟨?agree, ?once, ?direct⟩
  case agree =>
    intro m hm call hcall hmember hkind
    rw [h.enclosingCall?_iff_callee? hm hmember, and_iff_right hcall, and_iff_right hkind]
  case once =>
    intro m hm m' hm' hmember hmember' call hcall hcall'
    obtain ⟨_, _, hcallee⟩ := (h.enclosingCall?_iff_callee? hm hmember).mp hcall
    obtain ⟨_, _, hcallee'⟩ := (h.enclosingCall?_iff_callee? hm' hmember').mp hcall'
    exact Option.some.inj (hcallee.symm.trans hcallee')
  case direct =>
    intro scope call k hdirect m hm hmember hcall
    obtain ⟨_, _, hcallee⟩ := (h.enclosingCall?_iff_callee? hm hmember).mp hcall
    obtain ⟨p, hp, hidentifier, _⟩ := directCall?_callee hdirect
    obtain rfl := Option.some.inj (hcallee.symm.trans hp)
    exact absurd (hmember.symm.trans hidentifier) (by decide)

end Extract

namespace Sources

open Place

/-- The callee `object.property` of a call, in an expression. -/
def memberCallee (object : Node) (property : String) : Node :=
  sampleNode "expression" (some .function) "" [sampleNode "member_expression" none ""
    [{ object with field := some .object }, sampleNode "identifier" (some .property) property []]]

/-- A call with one argument. -/
def callWith (callee : Node) (argument : Node) : Node :=
  sampleNode "call_expression" none "" [callee, sampleNode "call_argument" none ""
    [sampleNode "expression" none "" [argument]]]

/-- The calls `a.b(x).c(y.z(x))`: one is the object of the callee of another, one its argument. -/
def chainedCalls : Node :=
  let x := sampleNode "identifier" none "x" []
  let first := callWith (memberCallee (sampleNode "identifier" none "a" []) "b") x
  let argument := callWith (memberCallee (sampleNode "identifier" none "y" []) "z") x
  callWith (memberCallee (sampleNode "expression" none "" [first]) "c") argument

/-- The callee is no argument and no wrapper around one. -/
def IsShallow (call : Node) : Prop :=
  ∀ f ∈ call.children, f.field = some .function →
    f.kind ≠ "call_argument" ∧ ∀ c ∈ f.children, ¬ c.isWrapper

theorem kind_of_opensFor {call p : Place} (hshallow : IsShallow call.node) (h : call.OpensFor p) :
    p.node.kind ≠ "call_argument" := by
  obtain ⟨i, f, hindex, hf, hway, q, hopens⟩ := h
  obtain ⟨c, hc, rfl⟩ := child?_eq_some_iff.mp hf
  have hfield : c.field = some .function := by
    obtain ⟨hi, hfield, _⟩ := List.findIdx?_eq_some_iff_getElem.mp hindex
    obtain ⟨_, rfl⟩ := List.getElem?_eq_some_iff.mp hc
    simpa using hfield
  obtain ⟨hkind, hinner⟩ := hshallow c (List.mem_of_getElem? hc) hfield
  rcases hway.cases_head with rfl | ⟨r, ⟨_, x, hx, rfl⟩, hrest⟩
  · exact hkind
  · have hplain : ¬ x.1.isWrapper := hinner x.1
      (List.fst_mem_of_mem_zipIdx (List.mem_filter.mp (hx ▸ List.mem_singleton_self x)).1)
    rcases hrest.cases_head with rfl | ⟨_, hnext, _⟩
    · exact absurd hopens.1 hplain
    · exact absurd hnext.1 hplain

theorem hasPlainCallees_chainedCalls : HasPlainCallees chainedCalls where
  named := by decide
  single := by decide
  no_argument call hcall hkind p := by
    have hshallow : ∀ call ∈ preorder [] chainedCalls, call.node.kind = "call_expression" →
        IsShallow call.node := by
      unfold IsShallow
      decide
    exact kind_of_opensFor (hshallow call hcall hkind)

theorem climbing_agrees_chainedCalls :
    ∃ m ∈ preorder [] chainedCalls, m.node.kind = "member_expression" ∧
      m.node.property = "c" ∧ m.enclosingCall? = some ⟨chainedCalls, []⟩ := by
  have hroot := self_mem_preorder [] chainedCalls
  have hexpression := child_mem_preorder hroot (i := 0) rfl
  have hmember := child_mem_preorder hexpression (i := 0) rfl
  refine ⟨_, hmember, rfl, by decide, ?_⟩
  obtain ⟨hagree, _⟩ := Extract.climbing_agrees_with_unwrapping hasPlainCallees_chainedCalls
  refine (hagree _ hmember _ hroot rfl rfl).mpr (callee?_eq_some_iff.mpr ⟨0, _, rfl, rfl, ?_⟩)
  exact (Opens.unwrap_eq ⟨rfl, (_, 0), rfl, rfl⟩).trans (Extract.unwrap_of_member rfl)

end Sources
end SolidityCalls
