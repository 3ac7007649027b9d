import SolidityCalls.Proofs.Resolution.Reachability

/-! Resolution where bases and imports go in no circle. A search never comes back to the contract
it has left, so the guard cuts nothing off, and the answer for a contract is put together of the
answers for its bases and imports. -/
namespace SolidityCalls.Resolution
open Relation

/-- No contract leads back to itself. A contract of an imported file that is also named as a base
is the same step once more, so it does not matter which of the two it counts as. -/
def IsAcyclic (u : List Contract) : Prop := ∀ c ∈ u, ¬ TransGen (Step u) c c

/-- The last answer of the bases that the universe has, in the order they are named, or else the
last one of the other contracts of imported files. -/
def lastAnswer {α : Type} (u : List Contract) (answer : Contract → Option α) (c : Contract) :
    Option α :=
  (lastSome (c.baseNames.map fun name => (u.find? fun d => d.name = name).bind answer)).or
    (lastSome ((c.importPaths.flatMap fun path =>
      u.filter fun d => d.sourcePath = path ∧ d.name ∉ c.baseNames).map answer))

/-- The answers of a search without a guard: that of a contract which defines the callee is its
own, any other one is that of its bases or imports. -/
def IsUnguardedSearch (u : List Contract) (registry : Registry) (call : Call)
    (answer : Contract → Option String) : Prop :=
  ∀ c ∈ u, answer c =
    if c.defines call.calleeName then some (call.identifier registry c.name)
    else lastAnswer u answer c

/-- Nothing that a search from `c` comes to is guarded. -/
def AvoidsGuard (u : List Contract) (guard : List String) (c : Contract) : Prop :=
  ∀ d, ReflTransGen (Step u) c d → d.name ∉ guard

theorem avoidsGuard_nil (u : List Contract) (c : Contract) : AvoidsGuard u [] c :=
  fun _ _ => List.not_mem_nil

section LastAnswer

variable {α β : Type} {u : List Contract} {c : Contract}

theorem lastAnswer_eq (u : List Contract) (answer : Contract → Option α) (c : Contract) :
    lastAnswer u answer c =
      (lastSome (c.baseNames.map fun name => (named? u name).bind fun d => answer d.1)).or
        (lastSome ((imported u c).map fun d => answer d.1)) := by
  simp only [lastAnswer, ← named?_map_val, ← imported_map_val, Option.bind_map, List.map_map,
    Function.comp_def]

theorem lastAnswer_congr {f g : Contract → Option α} (h : ∀ d, Step u c d → f d = g d) :
    lastAnswer u f c = lastAnswer u g c := by
  rw [lastAnswer_eq, lastAnswer_eq]
  refine congrArg₂ (fun bases imports => (lastSome bases).or (lastSome imports)) ?_ ?_
  · refine List.map_congr_left fun name hname => ?_
    exact Option.bind_congr fun d hd => h d (step_of_named? hname hd)
  · exact List.map_congr_left fun d hd => h d (step_of_mem_imported hd)

theorem lastSome_map_map (f : α → β) (xs : List (Option α)) :
    lastSome (xs.map (Option.map f)) = (lastSome xs).map f := by
  rw [lastSome_map, ← List.map_id xs, lastSome_map, List.map_id, List.map_findSome?]
  rfl

theorem lastAnswer_map (f : α → β) (answer : Contract → Option α) :
    lastAnswer u (fun d => (answer d).map f) c = (lastAnswer u answer c).map f := by
  simp only [lastAnswer, Option.map_or, ← lastSome_map_map, List.map_map, Function.comp_def,
    Option.map_bind]

end LastAnswer

section Acyclic

variable {u : List Contract} (hu : (u.map Contract.name).Nodup) (hacyclic : IsAcyclic u)
include hu hacyclic

/-- The search takes the contract it leaves to the guard, and never meets it again. -/
theorem AvoidsGuard.step {guard : List String} {c d : Contract} (hc : c ∈ u)
    (h : AvoidsGuard u guard c) (hs : Step u c d) : AvoidsGuard u (c.name :: guard) d := by
  intro e he hguarded
  rcases List.mem_cons.mp hguarded with hname | hguarded
  · obtain rfl := eq_of_name_eq hu (mem_of_reachable hs.1 he) hc hname
    exact hacyclic e hc (TransGen.head' hs he)
  · exact h e (.head hs he) hguarded

theorem linearization_eq_of_avoids {guard : List String} {c : Contract} (hc : c ∈ u)
    (h : AvoidsGuard u guard c) {guard' : List String} (h' : AvoidsGuard u guard' c) :
    linearization u guard c = linearization u guard' c := by
  induction guard, c using linearization.induct u generalizing guard' with
  | case1 guard c hg => exact absurd hg (h c .refl)
  | case2 guard c hg ih =>
    have hnext (d : { d // d ∈ u }) (hs : Step u c d.1) :
        linearization u (c.name :: guard) d.1 = linearization u (c.name :: guard') d.1 :=
      ih d d.2 (h.step hu hacyclic hc hs) (h'.step hu hacyclic hc hs)
    rw [linearization, linearization, dif_neg hg, dif_neg (h' c .refl)]
    congr 2
    · refine List.flatMap_congr fun name hname => ?_
      cases hd : named? u name with
      | none => rfl
      | some d => exact hnext d (step_of_named? (List.mem_reverse.mp hname) hd)
    · refine List.flatMap_congr fun d hd => ?_
      exact hnext d (step_of_mem_imported (List.mem_reverse.mp hd))

/-- The guard that a search has on its way is as good as none. -/
theorem definer?_of_step (callee : String) {c d : Contract} (hc : c ∈ u) (hs : Step u c d) :
    definer? u callee [c.name] d = definer? u callee [] d := by
  rw [definer?_eq_find?, definer?_eq_find?, linearization_eq_of_avoids hu hacyclic hs.1
    ((avoidsGuard_nil u c).step hu hacyclic hc hs) (avoidsGuard_nil u d)]

theorem definer?_eq_lastAnswer {callee : String} {c : Contract} (hc : c ∈ u)
    (hdef : ¬ c.defines callee) :
    definer? u callee [] c = lastAnswer u (definer? u callee []) c := by
  rw [definer?_of_notMem u callee List.not_mem_nil, if_neg hdef, ← lastAnswer_eq]
  exact lastAnswer_congr fun d hd => definer?_of_step hu hacyclic callee hc hd

theorem resolve?_eq_lastAnswer (registry : Registry) {call : Call} {c : Contract} (hc : c ∈ u)
    (hdef : ¬ c.defines call.calleeName) :
    resolve? u registry c call = lastAnswer u (resolve? u registry · call) c := by
  rw [resolve?, definer?_eq_lastAnswer hu hacyclic hc hdef, ← lastAnswer_map]
  rfl

theorem isUnguardedSearch_resolve? (registry : Registry) (call : Call) :
    IsUnguardedSearch u registry call (resolve? u registry · call) := by
  intro c hc
  split
  next hdef =>
    simp only [resolve?, definer?_of_notMem u call.calleeName List.not_mem_nil, if_pos hdef,
      Option.map_some]
  next hdef => exact resolve?_eq_lastAnswer hu hacyclic registry hc hdef

/-- A search without a guard has only one answer for each contract. The induction is the one along
the guarded search, whose guard is avoided all the way. -/
theorem IsUnguardedSearch.eq {registry : Registry} {call : Call}
    {answer answer' : Contract → Option String} (h : IsUnguardedSearch u registry call answer)
    (h' : IsUnguardedSearch u registry call answer') {guard : List String} {c : Contract}
    (hc : c ∈ u) (havoids : AvoidsGuard u guard c) : answer c = answer' c := by
  induction guard, c using linearization.induct u with
  | case1 guard c hg => exact absurd hg (havoids c .refl)
  | case2 guard c hg ih =>
    have hnext : lastAnswer u answer c = lastAnswer u answer' c :=
      lastAnswer_congr fun d hs =>
        ih ⟨d, hs.1⟩ hs.1 (havoids.step hu hacyclic hc hs)
    rw [h c hc, h' c hc, hnext]

end Acyclic

/-- Where bases and imports go in no circle, resolution is compositional: a contract that does not
define the callee has the last answer that fresh searches from its bases give, or else the last
one from its other imported contracts. So a search needs no guard: a search without one has these
answers and no others. -/
theorem resolve?_compositional {u : List Contract} (hu : (u.map Contract.name).Nodup)
    (hacyclic : IsAcyclic u) (registry : Registry) (call : Call) :
    (∀ c ∈ u, ¬ c.defines call.calleeName →
        resolve? u registry c call = lastAnswer u (resolve? u registry · call) c) ∧
      ∀ answer, IsUnguardedSearch u registry call answer ↔
        ∀ c ∈ u, answer c = resolve? u registry c call := by
  refine ⟨fun c hc hdef => resolve?_eq_lastAnswer hu hacyclic registry hc hdef,
    fun answer => ⟨fun h c hc => ?_, fun h c hc => ?_⟩⟩
  · exact h.eq hu hacyclic (isUnguardedSearch_resolve? hu hacyclic registry call) hc
      (avoidsGuard_nil u c)
  · have hnext : lastAnswer u answer c = lastAnswer u (resolve? u registry · call) c :=
      lastAnswer_congr fun d hs => h d hs.1
    rw [h c hc, hnext]
    exact isUnguardedSearch_resolve? hu hacyclic registry call c hc

/-- Contracts that only lead to contracts of a lower rank go in no circle. -/
theorem isAcyclic_of_rank {u : List Contract} (rank : Contract → Nat)
    (h : ∀ c ∈ u, ∀ d ∈ u, d.name ∈ c.baseNames ∨ d.sourcePath ∈ c.importPaths → rank d < rank c) :
    IsAcyclic u := by
  intro c hc hcircle
  have hrank {d : Contract} (hd : TransGen (Step u) c d) : d ∈ u ∧ rank d < rank c := by
    induction hd with
    | single hs => exact ⟨hs.1, h _ hc _ hs.1 hs.2⟩
    | tail _ hs ih => exact ⟨hs.1, Nat.lt_trans (h _ ih.1 _ hs.1 hs.2) ih.2⟩
  exact Nat.lt_irrefl _ (hrank hcircle).2

/-- Two bases of `D` have one base themselves, and the later of the two imports a library. -/
def diamond : List Contract :=
  [⟨"A", .contract, "/a.sol", [], [], [⟨"f", "A:f", []⟩]⟩,
    ⟨"L", .library, "/l.sol", [], [], [⟨"f", "L:f", []⟩, ⟨"g", "L:g", []⟩]⟩,
    ⟨"B", .contract, "/b.sol", ["A"], [], []⟩,
    ⟨"C", .contract, "/c.sol", ["A"], ["/l.sol"], []⟩,
    ⟨"D", .contract, "/d.sol", ["B", "C", "Gone"], ["/b.sol", "/l.sol"], []⟩]

theorem isAcyclic_diamond : IsAcyclic diamond :=
  isAcyclic_of_rank (fun c => ["A", "L", "B", "C", "D"].idxOf c.name) (by decide)

theorem compositional_diamond :
    (diamond.map Contract.name).Nodup ∧ IsAcyclic diamond ∧
      resolve? diamond [] diamond[4] ⟨"g", [], none⟩ =
        lastAnswer diamond (resolve? diamond [] · ⟨"g", [], none⟩) diamond[4] :=
  ⟨by decide, isAcyclic_diamond,
    (resolve?_compositional (by decide) isAcyclic_diamond [] ⟨"g", [], none⟩).1 _ (by decide)
      (by decide)⟩

example : resolve? diamond [] diamond[4] ⟨"g", [], none⟩ = some "L:g" := by
  cbv

end SolidityCalls.Resolution
