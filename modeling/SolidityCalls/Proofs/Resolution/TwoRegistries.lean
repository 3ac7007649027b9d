import SolidityCalls.Proofs.Resolution.Reachability
import Mathlib.Data.List.Forall2

/-! Resolution of the same contracts with two registries. The search for a definer does not ask
the registry, so a call has the same target both times; only the types that plain names stand for
may differ. -/
namespace SolidityCalls

/-- What one argument adds to an identifier with each of two registries. -/
structure SegmentPair where
  argument : Argument
  first : String
  second : String

/-- A call resolved with two registries. It is unresolved both times, or its identifiers name the
same contract, one of `names`, and the same callee. Then they have as many further segments, those
of the same arguments, and the segments differ only for plain names. -/
structure Call.Agree (names : List String) (k₁ k₂ : Call) : Prop where
  calleeName : k₁.calleeName = k₂.calleeName
  args : k₁.args = k₂.args
  unresolved_iff :
    k₁.resolvedId = some unresolvedMark ↔ k₂.resolvedId = some unresolvedMark
  resolved : k₁.resolvedId ≠ some unresolvedMark →
    ∃ name ∈ names, ∃ segments : List SegmentPair,
      (segments.map (·.argument)).Sublist k₁.args ∧
      (∀ s ∈ segments, s.argument.kind ≠ .identifier → s.first = s.second) ∧
      k₁.resolvedId =
        some (":".intercalate (name :: k₁.calleeName :: segments.map (·.first))) ∧
      k₂.resolvedId =
        some (":".intercalate (name :: k₂.calleeName :: segments.map (·.second)))

/-- A function whose calls agree, and which is the same otherwise. -/
structure ContractFunction.Agree (names : List String) (f₁ f₂ : ContractFunction) : Prop where
  name : f₁.name = f₂.name
  signatureId : f₁.signatureId = f₂.signatureId
  calls : List.Forall₂ (Call.Agree names) f₁.calls f₂.calls

/-- A contract whose calls agree, and which is the same otherwise. -/
structure Contract.Agree (names : List String) (c₁ c₂ : Contract) : Prop where
  name : c₁.name = c₂.name
  kind : c₁.kind = c₂.kind
  sourcePath : c₁.sourcePath = c₂.sourcePath
  baseNames : c₁.baseNames = c₂.baseNames
  importPaths : c₁.importPaths = c₂.importPaths
  functions : List.Forall₂ (ContractFunction.Agree names) c₁.functions c₂.functions

namespace Call

/-- Whether an argument adds a segment does not depend on the registry. -/
theorem isSome_segment? (r₁ r₂ : Registry) (a : Argument) :
    (segment? r₁ a).isSome = (segment? r₂ a).isSome := by
  unfold segment?
  split <;> rfl

theorem segment?_eq_of_ne {r₁ r₂ : Registry} {a : Argument} (h : a.kind ≠ .identifier) :
    segment? r₁ a = segment? r₂ a := by
  unfold segment?
  split
  next hkind => exact absurd hkind h
  next => rfl
  next => rfl

/-- The segments that an argument adds with two registries. -/
def segmentPair? (r₁ r₂ : Registry) (a : Argument) : Option SegmentPair :=
  match segment? r₁ a, segment? r₂ a with
  | some first, some second => some ⟨a, first, second⟩
  | _, _ => none

theorem map_first_segmentPair? (r₁ r₂ : Registry) (a : Argument) :
    (segmentPair? r₁ r₂ a).map (·.first) = segment? r₁ a := by
  have h := isSome_segment? r₁ r₂ a
  unfold segmentPair?
  cases h₁ : segment? r₁ a <;> cases h₂ : segment? r₂ a <;> simp_all

theorem map_second_segmentPair? (r₁ r₂ : Registry) (a : Argument) :
    (segmentPair? r₁ r₂ a).map (·.second) = segment? r₂ a := by
  have h := isSome_segment? r₁ r₂ a
  unfold segmentPair?
  cases h₁ : segment? r₁ a <;> cases h₂ : segment? r₂ a <;> simp_all

theorem segmentPair?_spec {r₁ r₂ : Registry} {a : Argument} {s : SegmentPair}
    (h : segmentPair? r₁ r₂ a = some s) :
    s.argument = a ∧ segment? r₁ a = some s.first ∧ segment? r₂ a = some s.second := by
  unfold segmentPair? at h
  split at h
  next h₁ h₂ =>
    obtain rfl := Option.some.inj h
    exact ⟨rfl, h₁, h₂⟩
  next => cases h

/-- All segments of a call with two registries. -/
def segmentPairs (call : Call) (r₁ r₂ : Registry) : List SegmentPair :=
  call.args.filterMap (segmentPair? r₁ r₂)

theorem identifier_eq_first (call : Call) (r₁ r₂ : Registry) (name : String) :
    call.identifier r₁ name = ":".intercalate
      (name :: call.calleeName :: (call.segmentPairs r₁ r₂).map (·.first)) := by
  simp only [identifier, segmentPairs, List.map_filterMap, map_first_segmentPair?]

theorem identifier_eq_second (call : Call) (r₁ r₂ : Registry) (name : String) :
    call.identifier r₂ name = ":".intercalate
      (name :: call.calleeName :: (call.segmentPairs r₁ r₂).map (·.second)) := by
  simp only [identifier, segmentPairs, List.map_filterMap, map_second_segmentPair?]

theorem sublist_segmentPairs (call : Call) (r₁ r₂ : Registry) :
    ((call.segmentPairs r₁ r₂).map (·.argument)).Sublist call.args := by
  unfold segmentPairs
  induction call.args with
  | nil => exact .slnil
  | cons a args ih =>
    cases h : segmentPair? r₁ r₂ a with
    | none =>
      rw [List.filterMap_cons_none h]
      exact ih.cons a
    | some s =>
      rw [List.filterMap_cons_some h, List.map_cons, (segmentPair?_spec h).1]
      exact ih.cons_cons a

theorem first_eq_second_of_mem {call : Call} {r₁ r₂ : Registry} {s : SegmentPair}
    (hs : s ∈ call.segmentPairs r₁ r₂) (h : s.argument.kind ≠ .identifier) :
    s.first = s.second := by
  obtain ⟨a, _, hpair⟩ := List.mem_filterMap.mp hs
  obtain ⟨rfl, hfirst, hsecond⟩ := segmentPair?_spec hpair
  rw [segment?_eq_of_ne h, hsecond] at hfirst
  exact (Option.some.inj hfirst).symm

theorem colon_mem_identifier (call : Call) (r : Registry) (name : String) :
    ':' ∈ (call.identifier r name).toList := by
  simp [identifier, String.intercalate_cons_cons]

/-- An identifier holds a colon, so it is not the mark of unresolved calls. -/
theorem identifier_ne_unresolvedMark (call : Call) (r : Registry) (name : String) :
    call.identifier r name ≠ unresolvedMark := by
  intro h
  have hcolon := call.colon_mem_identifier r name
  rw [h] at hcolon
  exact absurd hcolon (by decide)

end Call

namespace Resolution

theorem mem_of_definer? {u : List Contract} {callee : String} {guard : List String}
    {c d : Contract} (hc : c ∈ u) (h : definer? u callee guard c = some d) : d ∈ u :=
  mem_of_reachable hc (definer?_spec h).1

theorem agree_resolveCall {u : List Contract} {c : Contract} (hc : c ∈ u) (r₁ r₂ : Registry)
    (call : Call) :
    Call.Agree (u.map (·.name)) (resolveCall u r₁ c call) (resolveCall u r₂ c call) := by
  cases h : definer? u call.calleeName [] c with
  | none =>
    have hnone (r : Registry) : (resolveCall u r c call).resolvedId = some unresolvedMark := by
      simp [resolveCall, resolve?, h]
    exact ⟨rfl, rfl, by simp only [hnone], fun hne => absurd (hnone r₁) hne⟩
  | some d =>
    have hsome (r : Registry) :
        (resolveCall u r c call).resolvedId = some (call.identifier r d.name) := by
      simp [resolveCall, resolve?, h]
    refine ⟨rfl, rfl, ?_, fun _ => ?_⟩
    · simp [hsome, Call.identifier_ne_unresolvedMark]
    · refine ⟨d.name, List.mem_map_of_mem (mem_of_definer? hc h), call.segmentPairs r₁ r₂,
        call.sublist_segmentPairs r₁ r₂, fun s hs => Call.first_eq_second_of_mem hs, ?_, ?_⟩
      · rw [hsome, call.identifier_eq_first r₁ r₂]
        rfl
      · rw [hsome, call.identifier_eq_second r₁ r₂]
        rfl

theorem agree_resolveFunction {u : List Contract} {c : Contract} (hc : c ∈ u)
    (r₁ r₂ : Registry) (f : ContractFunction) :
    ContractFunction.Agree (u.map (·.name)) (resolveFunction u r₁ c f)
      (resolveFunction u r₂ c f) := by
  refine ⟨rfl, rfl, ?_⟩
  rw [resolveFunction, resolveFunction, List.forall₂_map_left_iff, List.forall₂_map_right_iff,
    List.forall₂_same]
  exact fun call _ => agree_resolveCall hc r₁ r₂ call

/-- Two registries give contracts that agree in everything but the types of plain names. -/
theorem agree_resolveAll (u : List Contract) (r₁ r₂ : Registry) :
    List.Forall₂ (Contract.Agree (u.map (·.name))) (resolveAll u r₁) (resolveAll u r₂) := by
  rw [resolveAll, resolveAll, List.forall₂_map_left_iff, List.forall₂_map_right_iff,
    List.forall₂_same]
  intro c hc
  refine ⟨rfl, rfl, rfl, rfl, rfl, ?_⟩
  rw [List.forall₂_map_left_iff, List.forall₂_map_right_iff, List.forall₂_same]
  exact fun f _ => agree_resolveFunction hc r₁ r₂ f

@[simp] theorem map_name_resolveAll (u : List Contract) (r : Registry) :
    (resolveAll u r).map (·.name) = u.map (·.name) := by
  simp [resolveAll, Function.comp_def]

end Resolution
end SolidityCalls
