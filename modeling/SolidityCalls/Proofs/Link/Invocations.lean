import SolidityCalls.Proofs.Link.Callees
import SolidityCalls.Proofs.SyntaxTree.Places
import Mathlib.Data.Fintype.Card

/-! Recorded calls and the calls of the source. A call of a plain name is recorded at the call, a
member expression where it stands, invoked or not. The calls recorded from what some call expression
invokes have a call expression each to stand for; the others are members that are only read, of a
contract, of the base or of an object that is no plain name. -/
namespace SolidityCalls

/-- The elements that a partial function keeps, listed by what it makes of them. -/
theorem exists_kept_of_filterMap {α β : Type} (f : α → Option β) {xs : List α} (hxs : xs.Nodup) :
    ∃ kept : Fin (xs.filterMap f).length → α, Function.Injective kept ∧
      ∀ i, kept i ∈ xs ∧ f (kept i) = some (xs.filterMap f)[i] := by
  have hmap : (xs.filter fun x => (f x).isSome).map f = (xs.filterMap f).map some := by
    induction xs with
    | nil => rfl
    | cons x xs ih =>
      have ih := ih hxs.of_cons
      cases hx : f x with
      | none => simpa [hx] using ih
      | some y => simpa [hx] using ih
  have hlength : (xs.filterMap f).length = (xs.filter fun x => (f x).isSome).length := by
    simpa using (congrArg List.length hmap).symm
  refine ⟨fun i => (xs.filter fun x => (f x).isSome)[i.val], fun i j hij => ?_, fun i => ⟨?_, ?_⟩⟩
  · exact Fin.ext ((hxs.filter _).getElem_inj_iff.mp hij)
  · exact List.mem_of_mem_filter (List.getElem_mem _)
  · have hi := List.getElem_of_eq hmap (by rw [List.length_map, ← hlength]; exact i.isLt)
    rwa [List.getElem_map, List.getElem_map] at hi

namespace Extract

/-- What a call recorded at a place is recorded from: at a call its callee, else what stands
there. -/
def origin? (site : Place) : Option Place :=
  if site.node.kind = "call_expression" then site.callee? else some site

/-- The name of a recorded call is that of the identifier or member expression at a place. -/
def IsNamedAt (k : Call) (p : Place) : Prop :=
  (p.node.kind = "identifier" ∧ k.calleeName = Text.strip p.node.text) ∨
    (p.node.kind = "member_expression" ∧ k.calleeName = p.node.property)

/-- A call expression of a body that invokes what stands at a place. -/
structure IsInvocation (body : Node) (call callee : Place) : Prop where
  mem : call ∈ Place.preorder [] body
  kind : call.node.kind = "call_expression"
  callee : call.callee? = some callee

/-- A member expression that is recorded though nothing invokes it. Where wrappers hold one
expression each, it has no arguments, and its object is a contract, the base, or no plain name. -/
structure IsUninvoked (known : KnownNames) (body : Node) (k : Call) (p : Place) : Prop where
  kind : p.node.kind = "member_expression"
  not_invoked : ∀ call, ¬ IsInvocation body call p
  read : Place.HoldsSingleExpressions body → k.args = [] ∧
    ∃ target, (p.node.childByField? .object).map Node.unwrap = some target ∧
      target.kind ≠ "array_access" ∧
      (target.kind = "identifier" →
        Text.strip target.text ∈ known.contracts ∨ Text.strip target.text = baseKeyword)

theorem directCall?_callee {scope : Scope} {site : Place} {k : Call}
    (h : directCall? scope site.node = some k) :
    ∃ p, site.callee? = some p ∧ p.node.kind = "identifier" ∧
      k.calleeName = Text.strip p.node.text := by
  unfold directCall? at h
  split at h
  next => cases h
  next callee hcallee =>
    rw [← Place.map_node_callee?] at hcallee
    obtain ⟨p, hp, rfl⟩ := Option.map_eq_some_iff.mp hcallee
    dsimp only at h
    split at h
    next hcond =>
      obtain rfl := Option.some.inj h
      exact ⟨p, hp, hcond.1, rfl⟩
    next => cases h

theorem memberCall?_args {scope : Scope} {p : Place} {k : Call} (h : memberCall? scope p = some k) :
    k.args = (p.enclosingCall?.map fun call => call.node.classifiedArguments).getD [] := by
  unfold memberCall? at h
  split at h
  next => cases h
  next =>
    dsimp only at h
    split at h
    next =>
      obtain rfl := Option.some.inj h
      rfl
    next => cases h

/-- An object makes a member that is not invoked a call if it is a contract, the base, or neither
a plain name nor an element. -/
theorem isReceiver_uninvoked {known : KnownNames} {locals : List String} {target : Node}
    (h : isReceiver known locals false target) :
    target.kind ≠ "array_access" ∧ (target.kind = "identifier" →
      Text.strip target.text ∈ known.contracts ∨ Text.strip target.text = baseKeyword) := by
  unfold isReceiver at h
  split_ifs at h with harray hplain
  · exact ⟨harray, fun hkind => absurd hkind hplain⟩
  · exact ⟨harray, fun _ => by simpa using h⟩

variable {known : KnownNames} {function body : Node} {functionName : String}

/-- A member expression is no wrapper. -/
theorem unwrap_of_member {p : Place} (hkind : p.node.kind = "member_expression") :
    p.unwrap = p := by
  rw [Place.unwrap, if_neg (by simp [Node.isWrapper, hkind])]

/-- A recorded member that no call expression invokes. -/
theorem isUninvoked_of_memberCall? {p : Place} {k : Call} (hp : p ∈ Place.preorder [] body)
    (hkind : p.node.kind = "member_expression")
    (h : memberCall? (scopeOf known function functionName body) p = some k)
    (hnone : ∀ call, ¬ IsInvocation body call p) : IsUninvoked known body k p := by
  refine ⟨hkind, hnone, fun hsingle => ?_⟩
  have houter : p.enclosingCall? = none := by
    cases hcall : p.enclosingCall? with
    | none => rfl
    | some call =>
      obtain ⟨hmem, hcallKind, hcallee⟩ := Place.enclosingCall?_spec hp hcall
      have hcallee := hcallee hsingle
      rw [unwrap_of_member hkind] at hcallee
      exact absurd ⟨hmem, hcallKind, hcallee⟩ (hnone call)
  obtain ⟨target, htarget, hreceiver⟩ := (memberCall?_isRecorded hkind h).1.receiver
  rw [houter] at hreceiver
  exact ⟨by rw [memberCall?_args h, houter]; rfl, target, htarget, isReceiver_uninvoked hreceiver⟩

/-- How the call recorded at a site is read: what it is recorded from, and the call expression it
stands for, if anything invokes that. -/
structure IsReading (known : KnownNames) (body : Node) (site : Place) (k : Call) (origin : Place)
    (invocation : Option Place) : Prop where
  recordedFrom : origin? site = some origin
  named : IsNamedAt k origin
  invoked : ∀ call, invocation = some call → IsInvocation body call origin
  site_or_member : (origin.node.kind = "identifier" ∧ invocation = some site) ∨
    (origin.node.kind = "member_expression" ∧ site = origin)
  uninvoked : invocation = none → IsUninvoked known body k origin

/-- The call of a plain name stands for the call expression it is recorded at, a member for any that
invokes it. -/
theorem exists_isReading {site : Place} {k : Call} (hsite : site ∈ Place.preorder [] body)
    (h : callAt? (scopeOf known function functionName body) site = some k) :
    ∃ origin invocation, IsReading known body site k origin invocation := by
  unfold callAt? at h
  split_ifs at h with hcall hmember
  · obtain ⟨p, hcallee, hkind, hname⟩ := directCall?_callee h
    refine ⟨p, some site, by rw [origin?, if_pos hcall, hcallee], .inl ⟨hkind, hname⟩,
      fun call hsome => ?_, .inl ⟨hkind, rfl⟩, fun hnone => absurd hnone (by simp)⟩
    obtain rfl := Option.some.inj hsome
    exact ⟨hsite, hcall, hcallee⟩
  · have horigin : origin? site = some site := by rw [origin?, if_neg hcall]
    have hnamed : IsNamedAt k site := .inr ⟨hmember, (memberCall?_isRecorded hmember h).2⟩
    by_cases hinvoked : ∃ call, IsInvocation body call site
    · obtain ⟨call, hinvocation⟩ := hinvoked
      refine ⟨site, some call, horigin, hnamed, fun other hsome => ?_, .inr ⟨hmember, rfl⟩,
        fun hnone => absurd hnone (by simp)⟩
      obtain rfl := Option.some.inj hsome
      exact hinvocation
    · refine ⟨site, none, horigin, hnamed, fun _ hsome => absurd hsome (by simp),
        .inr ⟨hmember, rfl⟩, fun _ => ?_⟩
      exact isUninvoked_of_memberCall? hsite hmember h fun call hcall => hinvoked ⟨call, hcall⟩

/-- Calls that stand for one call expression are recorded at one site: the expression has one
callee, which is either an identifier or a member. -/
theorem IsReading.site_eq {site site' origin origin' call : Place} {k k' : Call}
    (h : IsReading known body site k origin (some call))
    (h' : IsReading known body site' k' origin' (some call)) : site = site' := by
  have hcallee := (h.invoked call rfl).callee
  rw [(h'.invoked call rfl).callee] at hcallee
  obtain rfl := Option.some.inj hcallee
  rcases h.site_or_member with ⟨hkind, hsite⟩ | ⟨hkind, hsite⟩ <;>
    rcases h'.site_or_member with ⟨hkind', hsite'⟩ | ⟨hkind', hsite'⟩
  · exact Option.some.inj (hsite.symm.trans hsite')
  · exact absurd (hkind.symm.trans hkind') (by decide)
  · exact absurd (hkind.symm.trans hkind') (by decide)
  · exact hsite.trans hsite'.symm

/-- The calls of a body, one place for each, are as many as its call expressions. -/
theorem length_ofKinds_eq (body : Node) :
    (body.ofKinds ["call_expression"]).length =
      ((Place.preorder [] body).filter fun p => p.node.kind = "call_expression").length := by
  rw [Node.ofKinds, ← Place.map_node_preorder [] body, List.filter_map, List.length_map]
  congr 2
  funext p
  simp

/-- Places that are told apart by the call expression that stands for them are no more than the
call expressions. -/
theorem card_invoked_le {n : Nat} {origin : Fin n → Place} {invocation : Fin n → Option Place}
    (hinvocation : ∀ i call, invocation i = some call → IsInvocation body call (origin i))
    (hinjective : ∀ i j call, invocation i = some call → invocation j = some call → i = j) :
    (Finset.univ.filter fun i => (invocation i).isSome).card ≤
      (body.ofKinds ["call_expression"]).length := by
  classical
  have hcard : ((Finset.univ.filter fun i => (invocation i).isSome).image invocation).card =
      (Finset.univ.filter fun i => (invocation i).isSome).card := by
    refine Finset.card_image_of_injOn fun i hi j _ hij => ?_
    obtain ⟨call, hcall⟩ := Option.isSome_iff_exists.mp (Finset.mem_filter.mp hi).2
    exact hinjective i j call hcall (hij.symm.trans hcall)
  let places := (Place.preorder [] body).filter fun p => p.node.kind = "call_expression"
  have hsubset : (Finset.univ.filter fun i => (invocation i).isSome).image invocation ⊆
      (places.map some).toFinset := by
    intro found hfound
    obtain ⟨i, hi, rfl⟩ := Finset.mem_image.mp hfound
    obtain ⟨call, hcall⟩ := Option.isSome_iff_exists.mp (Finset.mem_filter.mp hi).2
    have hspec := hinvocation i call hcall
    rw [hcall, List.mem_toFinset, List.mem_map]
    exact ⟨call, List.mem_filter.mpr ⟨hspec.mem, decide_eq_true hspec.kind⟩, rfl⟩
  calc (Finset.univ.filter fun i => (invocation i).isSome).card
      = ((Finset.univ.filter fun i => (invocation i).isSome).image invocation).card := hcard.symm
    _ ≤ (places.map some).toFinset.card := Finset.card_le_card hsubset
    _ ≤ (places.map some).length := List.toFinset_card_le _
    _ = (body.ofKinds ["call_expression"]).length := by rw [List.length_map, length_ofKinds_eq]

/-- Every recorded call is recorded at its own place of the body and named by what stands there. A
call that is recorded from what some call expression invokes stands for one such call expression,
and no two stand for the same; every other is recorded from a member expression that nothing
invokes. So no more calls stand for an invocation than the body has call expressions. -/
theorem calls_stand_for_invocations (known : KnownNames) (function : Node) (functionName : String)
    (body : Node) :
    let recorded := calls known function functionName body
    ∃ (site origin : Fin recorded.length → Place) (invocation : Fin recorded.length → Option Place),
      Function.Injective site ∧
      (∀ i, site i ∈ Place.preorder [] body ∧
        callAt? (scopeOf known function functionName body) (site i) = some recorded[i] ∧
        origin? (site i) = some (origin i) ∧ IsNamedAt recorded[i] (origin i)) ∧
      (∀ i call, invocation i = some call → IsInvocation body call (origin i)) ∧
      (∀ i j call, invocation i = some call → invocation j = some call → i = j) ∧
      (∀ i, invocation i = none → IsUninvoked known body recorded[i] (origin i)) ∧
      (Finset.univ.filter fun i => (invocation i).isSome).card ≤
        (body.ofKinds ["call_expression"]).length := by
  intro recorded
  obtain ⟨site, hsite, hrecorded⟩ := exists_kept_of_filterMap
    (callAt? (scopeOf known function functionName body)) (Place.nodup_preorder [] body)
  choose origin invocation hreading using fun i => exists_isReading (hrecorded i).1 (hrecorded i).2
  have hinvoked (i call) (hi : invocation i = some call) : IsInvocation body call (origin i) :=
    (hreading i).invoked call hi
  have hinjective (i j call) (hi : invocation i = some call) (hj : invocation j = some call) :
      i = j :=
    hsite ((hi ▸ hreading i).site_eq (hj ▸ hreading j))
  refine ⟨site, origin, invocation, hsite, fun i => ?_, hinvoked, hinjective,
    fun i hnone => (hreading i).uninvoked hnone, card_invoked_le hinvoked hinjective⟩
  exact ⟨(hrecorded i).1, (hrecorded i).2, (hreading i).recordedFrom, (hreading i).named⟩

end Extract

namespace Sources

/-- A body that reads a constant of a library and invokes nothing. -/
def constantBody : Node :=
  sampleNode "function_body" (some .body) "{ return L.ID; }"
    [sampleNode "return_statement" none "return L.ID;"
      [sampleNode "expression" none "L.ID"
        [sampleNode "member_expression" none "L.ID"
          [sampleNode "identifier" (some .object) "L" [],
            sampleNode "identifier" (some .property) "ID" []]]]]

/-- The function with this body. -/
def constantReader : Node :=
  sampleNode "function_definition" none "function f() { return L.ID; }"
    [sampleNode "identifier" (some .name) "f" [], constantBody]

/-- The constant is recorded as a call, with no call expression to stand for. -/
theorem constant_recorded_as_call :
    (constantBody.ofKinds ["call_expression"]).length <
      (Extract.calls ⟨[], ["L"]⟩ constantReader "f" constantBody).length := by
  have hnone : constantBody.ofKinds ["call_expression"] = [] := by cbv
  have hread : Extract.calls ⟨[], ["L"]⟩ constantReader "f" constantBody =
      [⟨"ID", [], none⟩] := by cbv
  rw [hnone, hread]
  exact Nat.zero_lt_one

end Sources
end SolidityCalls
