import Mathlib.Data.List.Nodup
import SolidityCalls.Proofs.Artifact.Target
import SolidityCalls.Proofs.Link.SharedRegistry

/-! The identifiers of calls tell all calls of a run apart. An identifier is read back from both
ends: the entry file ends at the first colon, the callee starts after the last one, and before it
stand two numbers. What is left is the caller, which starts with the name of its contract. -/
namespace SolidityCalls.Artifact

open Sources

/-- What stands around the first of a character. -/
theorem append_cons_inj_of_left {c : Char} {a a' b b' : List Char} (ha : c ∉ a) (ha' : c ∉ a')
    (h : a ++ c :: b = a' ++ c :: b') : a = a' ∧ b = b' := by
  induction a generalizing a' with
  | nil =>
    cases a' with
    | nil => exact ⟨rfl, (List.cons.inj h).2⟩
    | cons d a' => exact absurd ((List.cons.inj h).1 ▸ List.mem_cons_self) ha'
  | cons d a ih =>
    cases a' with
    | nil => exact absurd ((List.cons.inj h).1 ▸ List.mem_cons_self) ha
    | cons d' a' =>
      obtain ⟨rfl, htail⟩ := List.cons.inj h
      obtain ⟨rfl, hb⟩ := ih (fun hc => ha (List.mem_cons_of_mem _ hc))
        (fun hc => ha' (List.mem_cons_of_mem _ hc)) htail
      exact ⟨rfl, hb⟩

/-- What stands around the last of a character. -/
theorem append_cons_inj_of_right {c : Char} {a a' b b' : List Char} (hb : c ∉ b) (hb' : c ∉ b')
    (h : a ++ c :: b = a' ++ c :: b') : a = a' ∧ b = b' := by
  have hreverse := congrArg List.reverse h
  simp only [List.reverse_append, List.reverse_cons, List.append_assoc, List.singleton_append]
    at hreverse
  obtain ⟨hb, ha⟩ := append_cons_inj_of_left (List.mem_reverse.not.mpr hb)
    (List.mem_reverse.not.mpr hb') hreverse
  exact ⟨List.reverse_injective ha, List.reverse_injective hb⟩

theorem not_mem_toDigits {c : Char} (hc : ¬ c.isDigit) (n : Nat) : c ∉ Nat.toDigits 10 n :=
  fun h => hc (Nat.isDigit_of_mem_toDigits (by decide) (by decide) h)

theorem toDigits_injective {m n : Nat} (h : Nat.toDigits 10 m = Nat.toDigits 10 n) : m = n := by
  have hread (k : Nat) := Nat.ofDigitChars_toDigits (n := k) (by decide : 1 < 10) (by decide)
  rw [← hread m, h, hread]

theorem toList_callId (entryFile caller calleeName : String) (position index : Nat) :
    (callId entryFile caller position index calleeName).toList =
      "call:".toList ++ (entryFile.toList ++ ':' :: ':' ::
        (((caller.toList ++ '@' :: Nat.toDigits 10 position) ++ '#' :: Nat.toDigits 10 index) ++
          ':' :: calleeName.toList)) := by
  have hdigits (n : Nat) : (toString (n : Int)).toList = Nat.toDigits 10 n := by
    show (toString n).toList = _
    simp
  show ("call:" ++ entryFile ++ "::" ++ caller ++ "@" ++ toString (position : Int) ++ "#" ++
    toString (index : Int) ++ ":" ++ calleeName).toList = _
  simp only [String.toList_append, hdigits, List.append_assoc, List.cons_append]
  rfl

/-- All parts of an identifier can be read back, if the entry file and the callee have no colon. -/
theorem callId_inj {entryFile entryFile' caller caller' calleeName calleeName' : String}
    {position position' index index' : Nat} (hentry : ':' ∉ entryFile.toList)
    (hentry' : ':' ∉ entryFile'.toList) (hcallee : ':' ∉ calleeName.toList)
    (hcallee' : ':' ∉ calleeName'.toList)
    (h : callId entryFile caller position index calleeName =
      callId entryFile' caller' position' index' calleeName') :
    entryFile = entryFile' ∧ caller = caller' ∧ position = position' ∧ index = index' := by
  have hlist := congrArg String.toList h
  rw [toList_callId, toList_callId] at hlist
  obtain ⟨hentry, hrest⟩ :=
    append_cons_inj_of_left hentry hentry' (List.append_cancel_left hlist)
  obtain ⟨hrest, _⟩ := append_cons_inj_of_right hcallee hcallee' (List.cons.inj hrest).2
  obtain ⟨hrest, hindex⟩ := append_cons_inj_of_right (not_mem_toDigits (by decide) _)
    (not_mem_toDigits (by decide) _) hrest
  obtain ⟨hcaller, hposition⟩ := append_cons_inj_of_right (not_mem_toDigits (by decide) _)
    (not_mem_toDigits (by decide) _) hrest
  exact ⟨String.toList_inj.mp hentry, String.toList_inj.mp hcaller, toDigits_injective hposition,
    toDigits_injective hindex⟩

/-- Every caller starts with the name of its contract and a colon. -/
def NamesCallers (u : Universe) : Prop :=
  ∀ c ∈ u.contracts, ∀ f ∈ c.functions, ∃ rest, f.signatureId.toList = c.name.toList ++ ':' :: rest

/-- No colon in the names that an identifier is put together of. -/
structure HasPlainNames (root : Path) (u : Universe) : Prop where
  entryFile : ':' ∉ (u.entryFile.display root).toList
  contract : ∀ c ∈ u.contracts, ':' ∉ c.name.toList
  callee : ∀ c ∈ u.contracts, ∀ f ∈ c.functions, ∀ k ∈ f.calls, ':' ∉ k.calleeName.toList

instance (root : Path) (u : Universe) : Decidable (HasPlainNames root u) :=
  decidable_of_iff (_ ∧ _ ∧ _)
    ⟨fun ⟨hfile, hcontract, hcallee⟩ => ⟨hfile, hcontract, hcallee⟩,
      fun ⟨hfile, hcontract, hcallee⟩ => ⟨hfile, hcontract, hcallee⟩⟩

section Nodup

variable {root : Path} {u u' : Universe}

/-- The calls of one function. -/
def functionEdges (root : Path) (u : Universe) (x : ContractFunction × Nat) : List CallEdge :=
  x.1.calls.zipIdx.map fun (k, index) =>
    callEdge (u.entryFile.display root) x.1.signatureId x.2 index k

/-- The calls of one contract. -/
def contractEdges (root : Path) (u : Universe) (c : Contract) : List CallEdge :=
  c.functions.zipIdx.flatMap (functionEdges root u)

theorem callEdges_eq (root : Path) (universes : List Universe) :
    callEdges root universes =
      universes.flatMap fun u => u.contracts.flatMap (contractEdges root u) := rfl

/-- Calls that share an identifier have the same entry file, caller, position and index. -/
theorem eq_of_callId (hu : HasPlainNames root u) (hu' : HasPlainNames root u') {c c' : Contract}
    (hc : c ∈ u.contracts) (hc' : c' ∈ u'.contracts) {x x' : ContractFunction × Nat}
    (hx : x ∈ c.functions.zipIdx) (hx' : x' ∈ c'.functions.zipIdx) {y y' : Call × Nat}
    (hy : y ∈ x.1.calls.zipIdx) (hy' : y' ∈ x'.1.calls.zipIdx)
    (h : (callEdge (u.entryFile.display root) x.1.signatureId x.2 y.2 y.1).callId =
      (callEdge (u'.entryFile.display root) x'.1.signatureId x'.2 y'.2 y'.1).callId) :
    u.entryFile.display root = u'.entryFile.display root ∧
      x.1.signatureId = x'.1.signatureId ∧ x.2 = x'.2 ∧ y.2 = y'.2 :=
  callId_inj hu.entryFile hu'.entryFile
    (hu.callee c hc _ (List.fst_mem_of_mem_zipIdx hx) _ (List.fst_mem_of_mem_zipIdx hy))
    (hu'.callee c' hc' _ (List.fst_mem_of_mem_zipIdx hx') _ (List.fst_mem_of_mem_zipIdx hy')) h

theorem pairwise_snd_zipIdx {α : Type} (l : List α) : l.zipIdx.Pairwise fun x y => x.2 ≠ y.2 := by
  have hnodup : (l.zipIdx.map Prod.snd).Nodup := by
    rw [List.zipIdx_map_snd]
    exact List.nodup_range'
  exact List.pairwise_map.mp hnodup

theorem exists_of_mem_contractEdges {c : Contract} {e : CallEdge} (h : e ∈ contractEdges root u c) :
    ∃ x ∈ c.functions.zipIdx, ∃ y ∈ x.1.calls.zipIdx,
      e = callEdge (u.entryFile.display root) x.1.signatureId x.2 y.2 y.1 := by
  obtain ⟨x, hx, h⟩ := List.mem_flatMap.mp h
  obtain ⟨y, hy, rfl⟩ := List.mem_map.mp h
  exact ⟨x, hx, y, hy, rfl⟩

/-- The calls of a contract are told apart by the place of their function and their own place. -/
theorem pairwise_contractEdges (hu : HasPlainNames root u) {c : Contract} (hc : c ∈ u.contracts) :
    (contractEdges root u c).Pairwise fun e e' => e.callId ≠ e'.callId := by
  refine List.pairwise_flatMap.mpr ⟨fun x hx => ?_, ?_⟩
  · refine List.pairwise_map.mpr ((pairwise_snd_zipIdx x.1.calls).imp_of_mem ?_)
    intro y y' hy hy' hne h
    exact hne (eq_of_callId hu hu hc hc hx hx hy hy' h).2.2.2
  · refine (pairwise_snd_zipIdx c.functions).imp_of_mem ?_
    intro x x' hx hx' hne e he e' he' h
    obtain ⟨y, hy, rfl⟩ := List.mem_map.mp he
    obtain ⟨y', hy', rfl⟩ := List.mem_map.mp he'
    exact hne (eq_of_callId hu hu hc hc hx hx' hy hy' h).2.2.1

/-- Contracts that share an identifier share a caller, and hence a name. -/
theorem name_eq_of_callId (hu : HasPlainNames root u) (hcallers : NamesCallers u) {c c' : Contract}
    (hc : c ∈ u.contracts) (hc' : c' ∈ u.contracts) {e e' : CallEdge}
    (he : e ∈ contractEdges root u c) (he' : e' ∈ contractEdges root u c')
    (h : e.callId = e'.callId) : c.name = c'.name := by
  obtain ⟨x, hx, y, hy, rfl⟩ := exists_of_mem_contractEdges he
  obtain ⟨x', hx', y', hy', rfl⟩ := exists_of_mem_contractEdges he'
  obtain ⟨_, hcaller, _⟩ := eq_of_callId hu hu hc hc' hx hx' hy hy' h
  obtain ⟨rest, hrest⟩ := hcallers c hc _ (List.fst_mem_of_mem_zipIdx hx)
  obtain ⟨rest', hrest'⟩ := hcallers c' hc' _ (List.fst_mem_of_mem_zipIdx hx')
  have hlist : c.name.toList ++ ':' :: rest = c'.name.toList ++ ':' :: rest' := by
    rw [← hrest, ← hrest', hcaller]
  exact String.toList_inj.mp
    (append_cons_inj_of_left (hu.contract c hc) (hu.contract c' hc') hlist).1

theorem nodup_callId {universes : List Universe} (hplain : ∀ u ∈ universes, HasPlainNames root u)
    (hcallers : ∀ u ∈ universes, NamesCallers u)
    (hentries : universes.Pairwise fun u u' => u.entryFile.display root ≠ u'.entryFile.display root)
    (hnames : ∀ u ∈ universes, (u.contracts.map (·.name)).Nodup) :
    ((callEdges root universes).map (·.callId)).Nodup := by
  rw [callEdges_eq]
  refine List.pairwise_map.mpr (List.pairwise_flatMap.mpr ⟨fun u hu => ?_, ?_⟩)
  · refine List.pairwise_flatMap.mpr
      ⟨fun c hc => pairwise_contractEdges (hplain u hu) hc, ?_⟩
    refine (List.pairwise_map.mp (hnames u hu)).imp_of_mem ?_
    intro c c' hc hc' hne e he e' he' h
    exact hne (name_eq_of_callId (hplain u hu) (hcallers u hu) hc hc' he he' h)
  · refine hentries.imp_of_mem ?_
    intro u u' hu hu' hne e he e' he' h
    obtain ⟨c, hc, he⟩ := List.mem_flatMap.mp he
    obtain ⟨c', hc', he'⟩ := List.mem_flatMap.mp he'
    obtain ⟨x, hx, y, hy, rfl⟩ := exists_of_mem_contractEdges he
    obtain ⟨x', hx', y', hy', rfl⟩ := exists_of_mem_contractEdges he'
    exact hne (eq_of_callId (hplain u hu) (hplain u' hu') hc hc' hx hx' hy hy' h).1

end Nodup

theorem toList_signatureId (contractName functionName : String) (function : Node) :
    ∃ rest, (function.signatureId contractName functionName).toList =
      contractName.toList ++ ':' :: rest := by
  refine ⟨(":".intercalate (functionName :: function.parameters.map Node.declaredType)).toList, ?_⟩
  rw [Node.signatureId, String.intercalate_cons_cons, String.toList_append, String.toList_append,
    List.append_assoc]
  rfl

theorem namesCallers_of_ofEntry {s : Sources} {entry : Path} {u : Universe}
    (h : Universe.ofEntry s entry = .ok u) : NamesCallers u := by
  intro c hc f hf
  obtain ⟨known, entered, hextract⟩ := Universe.exists_extract_of_ofEntry h
  obtain ⟨_, _, _, _, _, _, m, _, _, rfl⟩ := Sources.exists_declaration_of_extract hextract hc hf
  exact toList_signatureId _ _ _

/-- Resolution changes neither names nor callers. -/
theorem NamesCallers.resolve {u : Universe} (h : NamesCallers u) (registry : Registry) :
    NamesCallers (u.resolve registry) := by
  intro c hc f hf
  obtain ⟨c, hcmem, rfl⟩ := List.mem_map.mp hc
  obtain ⟨f, hfmem, rfl⟩ := List.mem_map.mp hf
  exact h c hcmem f hfmem

/-- The identifiers of a run's calls are all different, if its entries resolve to different files
and the contracts of every universe have different names, and if entry files as shown, contracts
and callees have no colon in their names. -/
theorem nodup_callId_of_build {host : Host} {dependencies root : Path} {tolerant : Bool}
    {entries : List Path} {universes : List Universe}
    (h : (Universe.build host dependencies tolerant entries).result = .ok universes)
    (hw : ∀ c ∈ host.workingDirectory, IsComponent c) (hplain : ∀ entry ∈ entries, entry.IsPlain)
    (hentries : (entries.map host.resolve).Nodup)
    (hnames : ∀ u ∈ universes, (u.contracts.map (·.name)).Nodup)
    (hcolons : ∀ u ∈ universes, HasPlainNames root u) :
    ((callEdges root universes).map (·.callId)).Nodup := by
  obtain ⟨dependencyRoot, registry, us, _, rfl, hall⟩ := Universe.forall₂_of_build h
  have hfiles : entries.map host.resolve = us.map fun u => .ok u.entryFile := by
    rw [← List.forall₂_eq_eq_eq, List.forall₂_map_left_iff, List.forall₂_map_right_iff]
    exact hall.imp fun _ _ => Universe.entryFile_of_ofEntry
  have hresolved : ∀ u ∈ us, u.entryFile.IsResolved := by
    intro u hu
    obtain ⟨entry, hentry, hone⟩ := Universe.exists_of_forall₂_right hall hu
    exact host.resolve_isResolved (hplain entry hentry) (.inr hw)
      (Universe.entryFile_of_ofEntry hone)
  refine nodup_callId hcolons ?_ ?_ hnames
  · intro u hu
    obtain ⟨u, hmem, rfl⟩ := List.mem_map.mp hu
    obtain ⟨_, _, hone⟩ := Universe.exists_of_forall₂_right hall hmem
    exact (namesCallers_of_ofEntry hone).resolve registry
  · rw [hfiles] at hentries
    refine List.pairwise_map.mpr ((List.pairwise_map.mp hentries).imp_of_mem ?_)
    intro u u' hu hu' hne hshown
    exact hne (congrArg Except.ok ((hresolved u hu).display_injective (hresolved u' hu') hshown))

/-- A fallback function that calls `g` some times over. -/
def sampleReceiver (callCount : Nat) : Node :=
  sampleNode "fallback_receive_definition" none ""
    [sampleNode "function_body" (some .body) "" (List.replicate callCount
      (sampleNode "call_expression" none "" [sampleNode "identifier" (some .function) "g" []]))]

/-- Two files whose contracts have one name. All their functions have one signature. -/
def receivers : Host where
  files :=
    { entries :=
        [(["a.sol"], sampleFile [] "A" [sampleReceiver 2, sampleReceiver 1]),
          (["b.sol"], sampleFile [] "A" [sampleReceiver 1])]
      distinct := by decide }
  workingDirectory := []
  home := Path.absolute []
  accounts := []

def receiverUniverse (fileName : String) (callCounts : List Nat) : Universe where
  entryFile := Path.absolute [fileName]
  contracts :=
    [{ name := "A"
       kind := .contract
       sourcePath := "/" ++ fileName
       baseNames := []
       importPaths := []
       functions := callCounts.map fun n =>
         ⟨"", "A:", List.replicate n ⟨"g", [], some unresolvedMark⟩⟩ }]

theorem build_receivers :
    (Universe.build receivers (Path.absolute ["lib"]) false
      [Path.absolute ["a.sol"], Path.absolute ["b.sol"]]).result =
    .ok [receiverUniverse "a.sol" [2, 1], receiverUniverse "b.sol" [1]] := by
  cbv

theorem nodup_callId_receivers :
    let universes := [receiverUniverse "a.sol" [2, 1], receiverUniverse "b.sol" [1]]
    (callEdges (Path.absolute []) universes).length = 4 ∧
      ((callEdges (Path.absolute []) universes).map (·.callId)).Nodup := by
  have hentries : [Path.absolute ["a.sol"], Path.absolute ["b.sol"]].map receivers.resolve =
      [.ok (Path.absolute ["a.sol"]), .ok (Path.absolute ["b.sol"])] := by cbv
  refine ⟨by decide, nodup_callId_of_build build_receivers (by decide) (by decide) ?_
    (by decide) (by decide)⟩
  rw [hentries]
  decide

end SolidityCalls.Artifact
