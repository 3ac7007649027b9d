import SolidityCalls.Proofs.Link.Passes

/-! The names of recorded calls. Assertions, declarations whose uses look like calls, and contracts
are ruled out as callees. The call of a plain name is held against these names; a member
expression is not, so it is the one way in which a name that is ruled out is recorded. -/
namespace SolidityCalls

namespace Extract

/-- The name of an assertion, of a declaration whose uses look like calls, or of a contract. -/
def IsRuledOut (known : KnownNames) (name : String) : Prop :=
  name ∈ assertions ∨ name ∈ known.ignored ∨ name ∈ known.contracts

theorem isCountable_iff {known : KnownNames} {name : String} :
    isCountable known name ↔ name ≠ "" ∧ ¬ IsRuledOut known name := by
  simp only [isCountable, IsRuledOut, Bool.and_eq_true, decide_eq_true_eq, Bool.not_eq_true',
    List.contains_eq_mem, decide_eq_false_iff_not]
  tauto

/-- A member expression is recorded as a call: its object makes the member a call, and the member
is more than a value. -/
structure IsRecordedMember (known : KnownNames) (function : Node) (p : Place) : Prop where
  kind : p.node.kind = "member_expression"
  receiver : ∃ target, (p.node.childByField? .object).map Node.unwrap = some target ∧
    isReceiver known (localNames function) p.enclosingCall?.isSome target
  property_ne_empty : p.node.property ≠ ""
  property_not_value : p.node.property ∉ valueProperties

/-- The scope that the calls of a function are judged by. -/
def scopeOf (known : KnownNames) (function : Node) (functionName : String) (body : Node) : Scope :=
  ⟨known, functionName, localNames function, body.statementCount = 1⟩

theorem isCountable_of_directCall? {scope : Scope} {call : Node} {k : Call}
    (h : directCall? scope call = some k) : isCountable scope.known k.calleeName := by
  unfold directCall? at h
  split at h
  next => cases h
  next =>
    dsimp only at h
    split at h
    next hcond =>
      obtain rfl := Option.some.inj h
      exact hcond.2.1
    next => cases h

variable {known : KnownNames} {function body : Node} {functionName : String}

theorem memberCall?_isRecorded {p : Place} {k : Call} (hkind : p.node.kind = "member_expression")
    (h : memberCall? (scopeOf known function functionName body) p = some k) :
    IsRecordedMember known function p ∧ k.calleeName = p.node.property := by
  unfold memberCall? at h
  split at h
  next => cases h
  next target htarget =>
    dsimp only at h
    split at h
    next hcond =>
      obtain rfl := Option.some.inj h
      obtain ⟨hreceiver, hempty, hvalue⟩ := hcond
      exact ⟨⟨hkind, ⟨target, htarget, hreceiver⟩, hempty, by simpa using hvalue⟩, rfl⟩
    next => cases h

theorem exists_memberCall? (functionName : String) (body : Node) {p : Place}
    (h : IsRecordedMember known function p) :
    ∃ k, memberCall? (scopeOf known function functionName body) p = some k ∧
      k.calleeName = p.node.property := by
  obtain ⟨target, htarget, hreceiver⟩ := h.receiver
  have hcond : isReceiver known (localNames function) p.enclosingCall?.isSome target ∧
      p.node.property ≠ "" ∧ ¬ valueProperties.contains p.node.property :=
    ⟨hreceiver, h.property_ne_empty, by simpa using h.property_not_value⟩
  simp only [memberCall?, htarget]
  exact ⟨_, if_pos hcond, rfl⟩

theorem mem_calls {k : Call} :
    k ∈ calls known function functionName body ↔ ∃ p ∈ Place.preorder [] body,
      callAt? (scopeOf known function functionName body) p = some k :=
  List.mem_filterMap

/-- A recorded call is the call of a plain name that is not ruled out, or a recorded member. -/
theorem countable_or_member_of_mem_calls {k : Call}
    (h : k ∈ calls known function functionName body) :
    isCountable known k.calleeName ∨ ∃ p ∈ Place.preorder [] body,
      IsRecordedMember known function p ∧ k.calleeName = p.node.property := by
  obtain ⟨p, hp, hcall⟩ := mem_calls.mp h
  unfold callAt? at hcall
  split at hcall
  next => exact .inl (isCountable_of_directCall? hcall)
  next =>
    split at hcall
    next hkind => exact .inr ⟨p, hp, memberCall?_isRecorded hkind hcall⟩
    next => cases hcall

theorem exists_mem_calls_of_member (functionName : String) {p : Place}
    (hp : p ∈ Place.preorder [] body) (h : IsRecordedMember known function p) :
    ∃ k ∈ calls known function functionName body, k.calleeName = p.node.property := by
  obtain ⟨k, hk, hname⟩ := exists_memberCall? functionName body h
  refine ⟨k, mem_calls.mpr ⟨p, hp, ?_⟩, hname⟩
  rw [callAt?, if_neg (by simp [h.kind]), if_pos h.kind, hk]

/-- No call is recorded without a name. -/
theorem calleeName_ne_empty {k : Call} (h : k ∈ calls known function functionName body) :
    k.calleeName ≠ "" := by
  rcases countable_or_member_of_mem_calls h with hcount | ⟨p, _, hmember, hname⟩
  · exact (isCountable_iff.mp hcount).1
  · exact hname ▸ hmember.property_ne_empty

/-- The places of a function's body. -/
def bodyPlaces (function : Node) : List Place :=
  (function.functionBody?.map (Place.preorder [])).getD []

/-- The calls of an extracted function are those of its body. -/
theorem mem_calls_functionOf {contractName : String} {m : Node} {k : Call} :
    k ∈ (functionOf known contractName m).calls ↔ ∃ body, m.functionBody? = some body ∧
      k ∈ calls known m (functionOf known contractName m).name body := by
  unfold functionOf
  cases m.functionBody? with
  | none => simp
  | some body => simp

/-- A name that is ruled out is recorded exactly where it is the member of a recorded member
expression. -/
theorem ruledOut_mem_callees_iff {contractName name : String} {m : Node}
    (hname : IsRuledOut known name) :
    name ∈ (functionOf known contractName m).calls.map (·.calleeName) ↔
      ∃ p ∈ bodyPlaces m, IsRecordedMember known m p ∧ p.node.property = name := by
  constructor
  · intro h
    obtain ⟨k, hk, rfl⟩ := List.mem_map.mp h
    obtain ⟨body, hbody, hk⟩ := mem_calls_functionOf.mp hk
    rcases countable_or_member_of_mem_calls hk with hcount | ⟨p, hp, hmember, hprop⟩
    · exact absurd hname (isCountable_iff.mp hcount).2
    · exact ⟨p, by simpa [bodyPlaces, hbody] using hp, hmember, hprop.symm⟩
  · rintro ⟨p, hp, hmember, rfl⟩
    cases hbody : m.functionBody? with
    | none => simp [bodyPlaces, hbody] at hp
    | some body =>
      have hp : p ∈ Place.preorder [] body := by simpa [bodyPlaces, hbody] using hp
      obtain ⟨k, hk, hcallee⟩ :=
        exists_mem_calls_of_member (functionOf known contractName m).name hp hmember
      exact List.mem_map.mpr ⟨k, mem_calls_functionOf.mpr ⟨body, hbody, hk⟩, hcallee⟩

theorem mem_of_lastNamed {contracts : List Node} {name : String} {node : Node}
    (h : lastNamed contracts name = some node) : node ∈ contracts ∧ node.declaredName = name :=
  ⟨List.mem_reverse.mp (List.mem_of_find?_eq_some h), by simpa using List.find?_some h⟩

/-- The functions of an extracted contract are members of a declaration of its name. -/
theorem exists_member_of_mem_functions {source : Source} {imports : List Path} {c : Contract}
    (hc : c ∈ contractsOf known source imports) {f : ContractFunction} (hf : f ∈ c.functions) :
    ∃ d ∈ source.tree.contractDeclarations, d.2.declaredName = c.name ∧
      ∃ m ∈ d.2.members, isFunction m ∧ f = functionOf known c.name m := by
  obtain ⟨d, hd, rfl⟩ := List.mem_map.mp hc
  dsimp only at hf ⊢
  -- The declaration shown is the last one of its name.
  obtain ⟨shown, hshown, hmem, hname⟩ : ∃ shown,
      (lastNamed (source.tree.contractDeclarations.map (·.2)) d.2.declaredName).getD d.2 = shown ∧
      shown ∈ source.tree.contractDeclarations.map (·.2) ∧
      shown.declaredName = d.2.declaredName := by
    cases hlast : lastNamed (source.tree.contractDeclarations.map (·.2)) d.2.declaredName with
    | none => exact ⟨d.2, rfl, List.mem_map_of_mem hd, rfl⟩
    | some shown => exact ⟨shown, rfl, mem_of_lastNamed hlast⟩
  rw [hshown, functionsOf] at hf
  obtain ⟨m, hm, rfl⟩ := List.mem_map.mp hf
  obtain ⟨hm, hkind⟩ := List.mem_filter.mp hm
  obtain ⟨e, he, rfl⟩ := List.mem_map.mp hmem
  exact ⟨e, he, hname, m, hm, (Bool.and_eq_true_iff.mp hkind).2, by rw [hname]⟩

end Extract

namespace Sources
open Extract

/-- Every function of an extracted contract is a member of a declaration in the contract's file. -/
theorem exists_declaration_of_extract {s : Sources} {known : KnownNames} {file : Path}
    {visited entered : NameSet} {contracts : List Contract}
    (h : (s.extract known file visited).result = .ok (contracts, entered)) {c : Contract}
    (hc : c ∈ contracts) {f : ContractFunction} (hf : f ∈ c.functions) :
    ∃ source, s.load source.path = .ok source ∧ source.path.render = c.sourcePath ∧
      ∃ d ∈ source.tree.contractDeclarations, d.2.declaredName = c.name ∧
        ∃ m ∈ d.2.members, isFunction m ∧ f = functionOf known c.name m := by
  obtain ⟨w, hw, rfl⟩ := exists_walk_of_extract h
  obtain ⟨d, hd, hmem⟩ := List.mem_flatMap.mp hc
  have hclosed := (run_of_visit hw).isClosedIn Extract.order_isCovering (by simp) d hd
  exact ⟨d.1, hclosed.load, (sourcePath_of_mem_contractsOf hmem).symm,
    exists_member_of_mem_functions hmem hf⟩

/-- Every function of every extracted contract stems from a member of a declaration, and the names
that are ruled out among its callees are exactly those of the recorded member expressions in its
body. A call of a plain name is never recorded under such a name. -/
theorem extract_ruledOut_callees_from_members {s : Sources} {known : KnownNames} {file : Path}
    {visited entered : NameSet} {contracts : List Contract}
    (h : (s.extract known file visited).result = .ok (contracts, entered)) {c : Contract}
    (hc : c ∈ contracts) {f : ContractFunction} (hf : f ∈ c.functions) :
    ∃ source, s.load source.path = .ok source ∧ source.path.render = c.sourcePath ∧
      ∃ d ∈ source.tree.contractDeclarations, d.2.declaredName = c.name ∧
        ∃ m ∈ d.2.members, f = functionOf known c.name m ∧
          ∀ name, IsRuledOut known name →
            (name ∈ f.calls.map (·.calleeName) ↔
              ∃ p ∈ bodyPlaces m, IsRecordedMember known m p ∧ p.node.property = name) := by
  obtain ⟨source, hload, hpath, d, hd, hname, m, hm, _, rfl⟩ :=
    exists_declaration_of_extract h hc hf
  exact ⟨source, hload, hpath, d, hd, hname, m, hm, rfl, fun _ => ruledOut_mem_callees_iff⟩

/-- A contract that emits its own event under its qualified name. -/
def qualifiedEvent : Sources where
  host :=
    { files :=
        { entries := [(["p.sol"], sampleFile [] "P"
            [sampleNode "event_definition" none "" [sampleNode "identifier" (some .name) "Ev" []],
              sampleNode "function_definition" none ""
                [sampleNode "identifier" (some .name) "f" [],
                  sampleNode "function_body" (some .body) ""
                    [sampleNode "emit_statement" none ""
                      [sampleNode "member_expression" (some .name) "P.Ev"
                        [sampleNode "identifier" (some .object) "P" [],
                          sampleNode "identifier" (some .property) "Ev" []]]]]])]
          distinct := by decide }
      workingDirectory := []
      home := Path.absolute []
      accounts := [] }
  dependencies := Path.absolute ["lib"]
  tolerant := false

/-- The contract as it is extracted. -/
def qualifiedEventContract : Contract :=
  ⟨"P", .contract, "/p.sol", [], [], [⟨"f", "P:f", [⟨"Ev", [], none⟩]⟩]⟩

theorem extract_qualifiedEvent :
    (qualifiedEvent.extract ⟨["Ev"], ["P"]⟩ (Path.absolute ["p.sol"]) []).result =
      .ok ([qualifiedEventContract], ["/p.sol"]) := by
  cbv

theorem ruledOut_callee_of_qualifiedEvent :
    ∃ m, (⟨"f", "P:f", [⟨"Ev", [], none⟩]⟩ : ContractFunction) =
        functionOf ⟨["Ev"], ["P"]⟩ "P" m ∧
      ∃ p ∈ bodyPlaces m, IsRecordedMember ⟨["Ev"], ["P"]⟩ m p ∧ p.node.property = "Ev" := by
  obtain ⟨_, _, _, _, _, _, m, _, hf, hcallees⟩ :=
    extract_ruledOut_callees_from_members extract_qualifiedEvent (List.mem_singleton_self _)
      (List.mem_singleton_self _)
  exact ⟨m, hf, (hcallees "Ev" (.inr (.inl (List.mem_singleton_self _)))).mp
    (List.mem_singleton_self _)⟩

/-- The event is known to the profile, and yet it is recorded as a callee. -/
theorem event_recorded_as_callee :
    let run := qualifiedEvent.profile (Path.absolute ["p.sol"]) [] Profile.empty
    ∃ contracts visited,
      (qualifiedEvent.extract ⟨run.profile.ignored, run.profile.contractNames⟩
        (Path.absolute ["p.sol"]) []).result = .ok (contracts, visited) ∧
      ∃ c ∈ contracts, ∃ f ∈ c.functions, ∃ k ∈ f.calls, k.calleeName ∈ run.profile.ignored := by
  have hignored :
      (qualifiedEvent.profile (Path.absolute ["p.sol"]) [] Profile.empty).profile.ignored =
        ["Ev"] := by cbv
  have hnames :
      (qualifiedEvent.profile (Path.absolute ["p.sol"]) [] Profile.empty).profile.contractNames
        = ["P"] := by cbv
  dsimp only
  rw [hignored, hnames]
  exact ⟨_, _, extract_qualifiedEvent, _, List.mem_singleton_self _, _, List.mem_singleton_self _,
    _, List.mem_singleton_self _, List.mem_singleton_self _⟩

end Sources
end SolidityCalls
