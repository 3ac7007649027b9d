import SolidityCalls.Artifact.Bundle
import SolidityCalls.Artifact.Validation
import SolidityCalls.Proofs.Link.Callees
import SolidityCalls.Proofs.Link.Isolation

/-! The targets of recorded calls. A call is unresolved, or its target names a contract of the same
universe and the callee; such a target has the form that validation asks for when neither name
disturbs the colons. -/
namespace SolidityCalls

namespace Artifact

theorem isCallTarget_append {name rest : List Char} (hne : name ≠ []) (hname : ':' ∉ name)
    (hrest : rest ≠ []) (hhead : rest.head? ≠ some ':') : isCallTarget (name ++ ':' :: rest) := by
  have hcolon : ∀ c ∈ name, decide (c ≠ ':') = true := by
    intro c hc
    rw [decide_eq_true_eq]
    rintro rfl
    exact hname hc
  have htake : (name ++ ':' :: rest).takeWhile (· ≠ ':') = name := by
    rw [List.takeWhile_append_of_pos hcolon, List.takeWhile_cons_of_neg (by simp), List.append_nil]
  have hdrop : (name ++ ':' :: rest).dropWhile (· ≠ ':') = ':' :: rest := by
    rw [List.dropWhile_append_of_pos hcolon, List.dropWhile_cons_of_neg (by simp)]
  obtain ⟨c, cs, rfl⟩ := List.exists_cons_of_ne_nil hne
  obtain ⟨d, ds, rfl⟩ := List.exists_cons_of_ne_nil hrest
  have hd : d ≠ ':' := by simpa using hhead
  simp only [isCallTarget, htake, hdrop]
  simp [hd]

end Artifact

/-- A contract name that can stand in a target. -/
structure IsTargetName (name : String) : Prop where
  ne_empty : name ≠ ""
  no_colon : ':' ∉ name.toList

namespace Call

/-- What a recorded call that was resolved over some contracts looks like: its name is not empty,
and it has no target or that of a contract. -/
structure IsResolvedOver (names : List String) (k : Call) : Prop where
  callee_ne_empty : k.calleeName ≠ ""
  target : k.resolvedId = some unresolvedMark ∨
    ∃ name ∈ names, ∃ registry, k.resolvedId = some (k.identifier registry name)

theorem isCallTarget_identifier {k : Call} (registry : Registry) {name : String}
    (hname : IsTargetName name) (hcallee : k.calleeName ≠ "")
    (hhead : k.calleeName.toList.head? ≠ some ':') :
    Artifact.isCallTarget (k.identifier registry name).toList := by
  obtain ⟨c, cs, hc⟩ := List.exists_cons_of_ne_nil (mt String.toList_eq_nil_iff.mp hcallee)
  obtain ⟨tail, htail⟩ : ∃ tail, (":".intercalate (k.calleeName ::
      k.args.filterMap (segment? registry))).toList = k.calleeName.toList ++ tail := by
    cases k.args.filterMap (segment? registry) with
    | nil => exact ⟨[], by simp⟩
    | cons s segments => exact ⟨_, by rw [String.intercalate_cons_cons, String.toList_append,
        String.toList_append, List.append_assoc]⟩
  have hidentifier : (k.identifier registry name).toList =
      name.toList ++ ':' :: (k.calleeName.toList ++ tail) := by
    rw [identifier, String.intercalate_cons_cons, String.toList_append, String.toList_append,
      htail, List.append_assoc]
    rfl
  rw [hidentifier]
  refine Artifact.isCallTarget_append (mt String.toList_eq_nil_iff.mp hname.ne_empty)
    hname.no_colon ?_ ?_
  · simp [hc]
  · simpa [hc] using hhead

end Call

namespace Resolution

theorem isResolvedOver_resolveCall {u : List Contract} {c : Contract} (hc : c ∈ u)
    (registry : Registry) {k : Call} (hk : k.calleeName ≠ "") :
    (resolveCall u registry c k).IsResolvedOver (u.map (·.name)) := by
  refine ⟨hk, ?_⟩
  cases h : definer? u k.calleeName [] c with
  | none => exact .inl (by simp [resolveCall, resolve?, h])
  | some d =>
    refine .inr ⟨d.name, List.mem_map_of_mem (mem_of_definer? hc h), registry, ?_⟩
    simp only [resolveCall, resolve?, h, Option.map_some, Option.getD_some]
    rfl

end Resolution

namespace Universe
open Sources

theorem exists_extract_of_ofEntry {s : Sources} {entry : Path} {u : Universe}
    (h : ofEntry s entry = .ok u) :
    ∃ known entered, (s.extract known u.entryFile []).result = .ok (u.contracts, entered) := by
  obtain ⟨_, _, w, known, _, hw, hcontracts⟩ := exists_walks_of_ofEntry h
  exact ⟨known, w.visited, by rw [extract_of_walk hw, hcontracts]⟩

theorem calleeName_ne_empty_of_ofEntry {s : Sources} {entry : Path} {u : Universe}
    (h : ofEntry s entry = .ok u) {c : Contract} (hc : c ∈ u.contracts) {f : ContractFunction}
    (hf : f ∈ c.functions) {k : Call} (hk : k ∈ f.calls) : k.calleeName ≠ "" := by
  obtain ⟨known, entered, hextract⟩ := exists_extract_of_ofEntry h
  obtain ⟨_, _, _, _, _, _, m, _, _, rfl⟩ := exists_declaration_of_extract hextract hc hf
  obtain ⟨body, _, hk⟩ := Extract.mem_calls_functionOf.mp hk
  exact Extract.calleeName_ne_empty hk

/-- Every call of a run is resolved over the contracts of its universe. -/
theorem isResolvedOver_of_build {host : Host} {dependencies : Path} {tolerant : Bool}
    {entries : List Path} {universes : List Universe}
    (h : (build host dependencies tolerant entries).result = .ok universes) {u : Universe}
    (hu : u ∈ universes) {c : Contract} (hc : c ∈ u.contracts) {f : ContractFunction}
    (hf : f ∈ c.functions) {k : Call} (hk : k ∈ f.calls) :
    k.IsResolvedOver (u.contracts.map (·.name)) := by
  obtain ⟨root, registry, us, _, rfl, hall⟩ := forall₂_of_build h
  obtain ⟨u, hmem, rfl⟩ := List.mem_map.mp hu
  obtain ⟨i, hi, rfl⟩ := List.getElem_of_mem hmem
  have hone := hall.get (hall.length_eq ▸ hi) hi
  rw [resolve, Resolution.map_name_resolveAll]
  obtain ⟨c, hcmem, rfl⟩ := List.mem_map.mp hc
  obtain ⟨f, hfmem, rfl⟩ := List.mem_map.mp hf
  obtain ⟨k, hkmem, rfl⟩ := List.mem_map.mp hk
  exact Resolution.isResolvedOver_resolveCall hcmem registry
    (calleeName_ne_empty_of_ofEntry hone hcmem hfmem hkmem)

end Universe

namespace Artifact

/-- What validation asks of a call edge: the flag tells whether there is a target, and a target
has a contract and a callee. -/
structure CallEdge.IsSound (e : CallEdge) : Prop where
  flag : e.resolved ↔ e.callee ≠ unresolvedMark
  target : e.resolved → isCallTarget e.callee.toList

theorem CallEdge.IsSound.complaint? {e : CallEdge} (h : e.IsSound) : e.complaint? = none := by
  obtain ⟨hflag, htarget⟩ := h
  unfold CallEdge.complaint?
  cases hresolved : e.resolved with
  | true =>
    have hcallee := hflag.mp hresolved
    simp [hcallee, htarget hresolved]
  | false =>
    have hcallee : e.callee = unresolvedMark := by simpa [hresolved] using hflag
    simp [hcallee]

theorem target_of_resolvedId {k : Call} {id : String} (h : k.resolvedId = some id) (hid : id ≠ "") :
    target k = id := by
  simp only [target, h, if_neg hid]

theorem isSound_callEdge {names : List String} {k : Call} (hk : k.IsResolvedOver names)
    (hnames : ∀ name ∈ names, IsTargetName name) (hhead : k.calleeName.toList.head? ≠ some ':')
    (entryFile caller : String) (position index : Nat) :
    (callEdge entryFile caller position index k).IsSound := by
  refine ⟨by simp [callEdge], fun hresolved => ?_⟩
  have hne : target k ≠ unresolvedMark := by simpa [callEdge] using hresolved
  rcases hk.target with hmark | ⟨name, hname, registry, hid⟩
  · exact absurd (target_of_resolvedId hmark (by decide)) hne
  · have htarget := Call.isCallTarget_identifier registry (hnames name hname) hk.callee_ne_empty
      hhead
    have hid' : k.identifier registry name ≠ "" := by
      intro hempty
      rw [hempty] at htarget
      cases htarget
    show isCallTarget (target k).toList
    rw [target_of_resolvedId hid hid']
    exact htarget

end Artifact
end SolidityCalls
