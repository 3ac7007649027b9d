import Mathlib.Data.List.Forall2
import SolidityCalls.Proofs.Project.Generate

/-! The three artifacts of some universes agree: the calls are those of the functions of the
contracts, one after the other, and the summary counts what stands in the other two. -/
namespace SolidityCalls.Artifact

/-- A call of a contract record, with its place among the calls of its function and the place of
the function in the record. -/
structure CallSite where
  entry : ContractEntry
  position : Nat
  caller : ContractFunction
  index : Nat
  call : Call

/-- The calls of contract records: record by record, function by function, call by call. -/
def callSites (entries : List ContractEntry) : List CallSite :=
  entries.flatMap fun e => e.functions.zipIdx.flatMap fun (f, position) =>
    f.calls.zipIdx.map fun (call, index) => ⟨e, position, f, index, call⟩

/-- An edge shows a call: where it stands, what is called and with which arguments, and the target
if there is one. -/
structure CallSite.IsShownBy (s : CallSite) (e : CallEdge) : Prop where
  entryFile : e.entryFile = s.entry.entryFile
  caller : e.caller = s.caller.signatureId
  calleeName : e.calleeName = s.call.calleeName
  args : e.args = s.call.args.map fun a => ⟨a.kind.text, a.text⟩
  callee_of_none : s.call.resolvedId = none ∨ s.call.resolvedId = some "" →
    e.callee = "unresolved"
  callee_of_some : ∀ id, s.call.resolvedId = some id → id ≠ "" → e.callee = id
  resolved : e.resolved = true ↔ e.callee ≠ "unresolved"
  callId : e.callId = "call:" ++ s.entry.entryFile ++ "::" ++ s.caller.signatureId ++ "@" ++
    toString s.position ++ "#" ++ toString s.index ++ ":" ++ s.call.calleeName

/-- Edges for all calls of the contracts in order, and a summary that counts both. -/
structure Bundle.Agrees (b : Bundle) : Prop where
  calls : List.Forall₂ CallSite.IsShownBy (callSites b.contracts) b.calls
  contractCount : b.summary.contractCount = b.contracts.length
  functionCount : b.summary.functionCount = (b.contracts.flatMap (·.functions)).length
  callCount : b.summary.callCount = b.calls.length
  unresolvedCount : b.summary.unresolvedCount = (b.calls.filter fun e => !e.resolved).length

def CallSite.edge (s : CallSite) : CallEdge :=
  callEdge s.entry.entryFile s.caller.signatureId s.position s.index s.call

theorem CallSite.isShownBy_edge (s : CallSite) : s.IsShownBy s.edge where
  entryFile := rfl
  caller := rfl
  calleeName := rfl
  args := rfl
  callee_of_none h := by
    show target s.call = _
    rcases h with h | h <;> simp [target, h, unresolvedMark]
  callee_of_some id h hne := by
    show target s.call = _
    simp [target, h, hne]
  resolved := decide_eq_true_iff
  callId := rfl

theorem callEdges_eq_map_callSites (root : Path) (universes : List Universe) :
    callEdges root universes = (callSites (contractEntries root universes)).map CallSite.edge := by
  simp only [callEdges, callSites, contractEntries, List.map_flatMap, List.map_map,
    List.flatMap_assoc, List.flatMap_map]
  rfl

/-- The places put aside, the calls are those of all functions. -/
theorem map_call_callSites (entries : List ContractEntry) :
    (callSites entries).map (·.call) = (entries.flatMap (·.functions)).flatMap (·.calls) := by
  have hcalls (e : ContractEntry) (f : ContractFunction) (position : Nat) :
      (f.calls.zipIdx.map fun (call, index) => (⟨e, position, f, index, call⟩ : CallSite)).map
        (·.call) = f.calls := by
    rw [List.map_map]
    exact List.zipIdx_map_fst 0 f.calls
  have hfunctions (e : ContractEntry) : (e.functions.zipIdx.flatMap fun (f, _) => f.calls) =
      e.functions.flatMap (·.calls) := by
    conv_rhs => rw [← List.zipIdx_map_fst 0 e.functions, List.flatMap_map]
  simp only [callSites, List.map_flatMap, hcalls, hfunctions, List.flatMap_assoc]

/-- The calls of all functions of all contracts. -/
def allCalls (universes : List Universe) : List Call :=
  (universes.flatMap (·.contracts)).flatMap fun c => c.functions.flatMap (·.calls)

theorem functions_contractEntries (root : Path) (universes : List Universe) :
    (contractEntries root universes).flatMap (·.functions) =
      (universes.flatMap (·.contracts)).flatMap (·.functions) := by
  simp only [contractEntries, List.flatMap_assoc, List.flatMap_map]
  rfl

theorem map_call_contractEntries (root : Path) (universes : List Universe) :
    (callSites (contractEntries root universes)).map (·.call) = allCalls universes := by
  rw [map_call_callSites, functions_contractEntries, allCalls, List.flatMap_assoc]

/-- What the summary counts in some universes, one after the other. -/
theorem counts_foldl (root : Path) (universes : List Universe) (s : Summary × ImportGraph) :
    let t := (universes.foldl (Summary.add root) s).1
    t.contractCount = s.1.contractCount + (universes.flatMap (·.contracts)).length ∧
      t.functionCount = s.1.functionCount +
        ((universes.flatMap (·.contracts)).flatMap (·.functions)).length ∧
      t.callCount = s.1.callCount + (allCalls universes).length ∧
      t.unresolvedCount = s.1.unresolvedCount +
        ((allCalls universes).filter fun c => target c = unresolvedMark).length := by
  induction universes generalizing s with
  | nil => simp [allCalls]
  | cons u universes ih =>
    obtain ⟨hcontracts, hfunctions, hcalls, hunresolved⟩ := ih (Summary.add root s u)
    simp only [List.foldl_cons, hcontracts, hfunctions, hcalls, hunresolved]
    simp only [Summary.add, allCalls, List.flatMap_cons, List.flatMap_append, List.flatMap_assoc,
      List.filter_append, List.length_append]
    omega

theorem length_filter_callEdges (root : Path) (universes : List Universe) :
    ((callEdges root universes).filter fun e => !e.resolved).length =
      ((allCalls universes).filter fun c => target c = unresolvedMark).length := by
  rw [← map_call_contractEntries root, callEdges_eq_map_callSites, List.filter_map,
    List.filter_map, List.length_map, List.length_map]
  congr 2
  funext s
  simp [CallSite.edge, callEdge]

theorem length_callEdges (root : Path) (universes : List Universe) :
    (callEdges root universes).length = (allCalls universes).length := by
  rw [← map_call_contractEntries root, callEdges_eq_map_callSites, List.length_map, List.length_map]

theorem length_contractEntries (root : Path) (universes : List Universe) :
    (contractEntries root universes).length = (universes.flatMap (·.contracts)).length := by
  simp only [contractEntries, List.length_flatMap, List.length_map]

theorem Bundle.agrees_ofUniverses (root : Path) (universes : List Universe) :
    (Bundle.ofUniverses root universes).Agrees := by
  obtain ⟨hcontracts, hfunctions, hcalls, hunresolved⟩ :=
    counts_foldl root universes (⟨Artifact.schemaVersion, 0, 0, 0, 0, 0, []⟩, [])
  simp only [zero_add] at hcontracts hfunctions hcalls hunresolved
  exact {
    calls := by
      simp only [ofUniverses, callEdges_eq_map_callSites, List.forall₂_map_right_iff,
        List.forall₂_same]
      exact fun s _ => s.isShownBy_edge
    contractCount := by
      rw [ofUniverses, length_contractEntries]
      exact hcontracts
    functionCount := by
      rw [ofUniverses, functions_contractEntries]
      exact hfunctions
    callCount := by
      rw [ofUniverses, length_callEdges]
      exact hcalls
    unresolvedCount := by
      rw [ofUniverses, length_filter_callEdges]
      exact hunresolved }

/-- The artifacts of any universes agree, and a run that succeeds reports the counts of its own. -/
theorem artifacts_agree_and_counted :
    (∀ root universes, (Bundle.ofUniverses root universes).Agrees) ∧
      ∀ host r report, (Project.generate host r).result = .ok report →
        ∃ p, (Project.plan host r).result = .ok p ∧ p.bundle.Agrees ∧
          report.contractCount = p.bundle.contracts.length ∧
          report.callCount = p.bundle.calls.length ∧
          report.unresolvedCount = (p.bundle.calls.filter fun e => !e.resolved).length := by
  refine ⟨Bundle.agrees_ofUniverses, fun host r report h => ?_⟩
  obtain ⟨p, hplan⟩ := Project.exists_plan_of_generate h
  obtain ⟨_, _, rfl⟩ := Project.store_of_generate hplan h
  obtain ⟨project, _, _, universes, _, _, _, _, _, hbundle⟩ := Project.exists_of_plan hplan
  exact ⟨p, hplan, hbundle ▸ Bundle.agrees_ofUniverses project.root universes, rfl, rfl, rfl⟩

theorem counted_sampleRequest :
    ∃ report, (Project.generate Universe.twoEntries Project.sampleRequest).result = .ok report ∧
      report.contractCount = 1 ∧ report.callCount = 1 := by
  obtain ⟨p, hplan, hreport, hnames, hcallees, _⟩ := Project.generate_sampleRequest
  obtain ⟨p', hplan', _, hcontracts, hcalls, _⟩ := artifacts_agree_and_counted.2 _ _ _ hreport
  obtain rfl := Except.ok.inj (hplan.symm.trans hplan')
  have hone := congrArg List.length hnames
  have hone' := congrArg List.length hcallees
  rw [List.length_map] at hone hone'
  exact ⟨_, hreport, hcontracts.trans hone, hcalls.trans hone'⟩

end SolidityCalls.Artifact
