import SolidityCalls.Proofs.Resolution.TwoRegistries

/-! Resolution as a rewriting of calls one by one, in the records that are searched for every
later call. A search reads no target, so the targets that stand in the records before it do not
matter, nor does the order in which the calls are taken. -/
namespace SolidityCalls

def Call.untargeted (k : Call) : Call := { k with resolvedId := none }

def ContractFunction.untargeted (f : ContractFunction) : ContractFunction :=
  { f with calls := f.calls.map Call.untargeted }

/-- A contract without the targets of its calls. -/
def Contract.untargeted (c : Contract) : Contract :=
  { c with functions := c.functions.map ContractFunction.untargeted }

theorem Contract.defines_untargeted (c : Contract) (callee : String) :
    c.untargeted.defines callee = c.defines callee := by
  simp only [defines, untargeted, List.any_map]
  rfl

namespace Resolution

section Search

variable (u : List Contract)

theorem find?_untargeted (name : String) :
    ((u.map Contract.untargeted).find? fun d => d.name = name) =
      ((named? u name).map (·.1)).map Contract.untargeted := by
  rw [named?_map_val, List.find?_map]
  rfl

theorem imported_untargeted (c : Contract) :
    (c.untargeted.importPaths.flatMap fun path => (u.map Contract.untargeted).filter
        fun d => d.sourcePath = path ∧ d.name ∉ c.untargeted.baseNames) =
      ((imported u c).map (·.1)).map Contract.untargeted := by
  rw [imported_map_val, List.map_flatMap]
  simp only [List.filter_map]
  rfl

/-- The order of a search does not read targets. -/
theorem linearization_untargeted (guard : List String) (c : Contract) :
    linearization (u.map Contract.untargeted) guard c.untargeted =
      (linearization u guard c).map Contract.untargeted := by
  induction guard, c using linearization.induct u with
  | case1 guard c hg =>
    rw [linearization, linearization, dif_pos hg, dif_pos (show c.untargeted.name ∈ guard from hg)]
    rfl
  | case2 guard c hg ih =>
    have hbase (name : String) : ((((named? u name).map (·.1)).map Contract.untargeted).map
        (linearization (u.map Contract.untargeted) (c.name :: guard))).getD [] =
        (((named? u name).map fun d => linearization u (c.name :: guard) d.1).getD []).map
          Contract.untargeted := by
      cases named? u name with
      | none => rfl
      | some d => exact ih d
    have himport : ((((imported u c).map (·.1)).map Contract.untargeted).reverse.flatMap
        (linearization (u.map Contract.untargeted) (c.name :: guard))) =
        ((imported u c).reverse.flatMap fun d => linearization u (c.name :: guard) d.1).map
          Contract.untargeted := by
      simp only [← List.map_reverse, List.flatMap_map, List.map_flatMap, ih]
    have hg' : c.untargeted.name ∉ guard := hg
    rw [linearization_isLinearization, linearization, if_neg hg', dif_neg hg,
      imported_untargeted, List.map_cons, List.map_append, List.map_flatMap]
    simp only [find?_untargeted]
    exact congrArg₂ (fun bases imports => c.untargeted :: (bases ++ imports))
      (congrArg (List.flatMap · _) (funext hbase)) himport

theorem definer?_untargeted (callee : String) (guard : List String) (c : Contract) :
    definer? (u.map Contract.untargeted) callee guard c.untargeted =
      (definer? u callee guard c).map Contract.untargeted := by
  rw [definer?_eq_find?, definer?_eq_find?, linearization_untargeted, List.find?_map]
  simp only [Function.comp_def, Contract.defines_untargeted]

theorem resolve?_untargeted (registry : Registry) (c : Contract) (k : Call) :
    resolve? (u.map Contract.untargeted) registry c.untargeted k.untargeted =
      resolve? u registry c k := by
  rw [resolve?, resolve?]
  show (definer? _ k.calleeName [] c.untargeted).map _ = _
  rw [definer?_untargeted, Option.map_map]
  rfl

end Search

/-- Where a call stands: its contract, the function in the contract, the call in the function. -/
structure CallPlace where
  contract : Nat
  function : Nat
  call : Nat
  deriving DecidableEq

def callAt? (u : List Contract) (p : CallPlace) : Option Call :=
  u[p.contract]?.bind fun c => c.functions[p.function]?.bind fun f => f.calls[p.call]?

/-- The places of all calls: contract by contract, function by function, call by call. -/
def places (u : List Contract) : List CallPlace :=
  u.zipIdx.flatMap fun (c, i) => c.functions.zipIdx.flatMap fun (f, j) =>
    f.calls.zipIdx.map fun (_, k) => ⟨i, j, k⟩

/-- Writes a target into the record of a call. -/
def setTarget (u : List Contract) (p : CallPlace) (id : String) : List Contract :=
  u.modify p.contract fun c => { c with functions := c.functions.modify p.function fun f =>
    { f with calls := f.calls.modify p.call fun k => { k with resolvedId := some id } } }

/-- What a search over the records answers for the call at a place. -/
def answerAt? (u : List Contract) (registry : Registry) (p : CallPlace) :
    Option (Option String) :=
  u[p.contract]?.bind fun c => (callAt? u p).map (resolve? u registry c)

/-- Rewrites one call with the answer over the records as they are now, and counts a call that
gets no target. -/
def resolveAt (registry : Registry) (s : List Contract × Nat) (p : CallPlace) :
    List Contract × Nat :=
  match answerAt? s.1 registry p with
  | none => s
  | some none => (setTarget s.1 p unresolvedMark, s.2 + 1)
  | some (some id) => (setTarget s.1 p id, s.2)

theorem callAt?_untargeted (u : List Contract) (p : CallPlace) :
    callAt? (u.map Contract.untargeted) p = (callAt? u p).map Call.untargeted := by
  simp only [callAt?, List.getElem?_map, Option.bind_map, Function.comp_def, Contract.untargeted,
    ContractFunction.untargeted, Option.map_bind]

theorem answerAt?_untargeted (u : List Contract) (registry : Registry) (p : CallPlace) :
    answerAt? (u.map Contract.untargeted) registry p = answerAt? u registry p := by
  simp only [answerAt?, callAt?_untargeted, List.getElem?_map, Option.bind_map, Option.map_map,
    Function.comp_def, resolve?_untargeted]

theorem answerAt?_eq_none {u : List Contract} {registry : Registry} {p : CallPlace}
    (h : answerAt? u registry p = none) : callAt? u p = none := by
  unfold answerAt? at h
  cases hc : u[p.contract]? with
  | none => simp [callAt?, hc]
  | some c => simpa [hc] using h

theorem map_modify {α β : Type} {f : α → β} {g : α → α} (h : ∀ a, f (g a) = f a) (l : List α)
    (i : Nat) : (l.modify i g).map f = l.map f := by
  refine List.ext_getElem? fun j => ?_
  rw [List.getElem?_map, List.getElem?_map, List.getElem?_modify]
  cases l[j]? with
  | none => rfl
  | some a => by_cases hij : i = j <;> simp [hij, h]

theorem exists_answer {u : List Contract} {p : CallPlace} {k : Call} (h : callAt? u p = some k)
    (registry : Registry) : ∃ c ∈ u, answerAt? u registry p = some (resolve? u registry c k) := by
  obtain ⟨c, hc, _⟩ := Option.bind_eq_some_iff.mp h
  exact ⟨c, List.mem_of_getElem? hc, by simp [answerAt?, hc, h]⟩

theorem ne_unresolvedMark_of_resolve? {u : List Contract} {registry : Registry} {c : Contract}
    {k : Call} {id : String} (h : resolve? u registry c k = some id) : id ≠ unresolvedMark := by
  obtain ⟨d, _, rfl⟩ := Option.map_eq_some_iff.mp h
  exact k.identifier_ne_unresolvedMark registry d.name

theorem setTarget_untargeted (u : List Contract) (p : CallPlace) (id : String) :
    (setTarget u p id).map Contract.untargeted = u.map Contract.untargeted := by
  refine map_modify (fun c => ?_) u p.contract
  simp only [Contract.untargeted]
  rw [map_modify (fun f => ?_) c.functions p.function]
  simp only [ContractFunction.untargeted]
  rw [map_modify (fun k => ?_) f.calls p.call]
  rfl

theorem callAt?_setTarget (u : List Contract) (p q : CallPlace) (id : String) :
    callAt? (setTarget u p id) q =
      if p = q then (callAt? u q).map fun k => { k with resolvedId := some id }
      else callAt? u q := by
  obtain ⟨i, j, k⟩ := p
  obtain ⟨i', j', k'⟩ := q
  simp only [callAt?, setTarget, List.getElem?_modify, CallPlace.mk.injEq]
  cases u[i']? with
  | none => simp
  | some c =>
    by_cases hi : i = i'
    · cases hf : c.functions[j']? with
      | none => simp [hi, hf, List.getElem?_modify]
      | some f =>
        by_cases hj : j = j'
        · cases hk : f.calls[k']? <;> by_cases hk' : k = k' <;> simp [hi, hj, hk, hk', hf]
        · simp [hi, hj, hf]
    · simp [hi]

theorem eq_of_forall_getElem? {α β : Type} {f : α → β} {l m : List α} (h : l.map f = m.map f)
    (heq : ∀ (i : Nat) a b, l[i]? = some a → m[i]? = some b → f a = f b → a = b) : l = m := by
  refine List.ext_getElem? fun i => ?_
  have hi := congrArg (·[i]?) h
  simp only [List.getElem?_map] at hi
  cases hl : l[i]? with
  | none => cases hm : m[i]? with
    | none => rfl
    | some b => simp [hl, hm] at hi
  | some a => cases hm : m[i]? with
    | none => simp [hl, hm] at hi
    | some b => exact congrArg some (heq i a b hl hm (by simpa [hl, hm] using hi))

/-- Records with the same calls at the same places are the same. -/
theorem eq_of_callAt? {u v : List Contract}
    (h : u.map Contract.untargeted = v.map Contract.untargeted)
    (hcalls : ∀ p, callAt? u p = callAt? v p) : u = v := by
  refine eq_of_forall_getElem? h fun i c d hc hd heq => ?_
  simp only [Contract.untargeted, Contract.mk.injEq] at heq
  obtain ⟨hname, hkind, hsource, hbases, himports, hfunctions⟩ := heq
  have hsame : c.functions = d.functions := by
    refine eq_of_forall_getElem? hfunctions fun j f g hf hg heq => ?_
    simp only [ContractFunction.untargeted, ContractFunction.mk.injEq] at heq
    obtain ⟨hname, hsignature, _⟩ := heq
    have hsame : f.calls = g.calls := by
      refine List.ext_getElem? fun k => ?_
      simpa [callAt?, hc, hd, hf, hg] using hcalls ⟨i, j, k⟩
    cases f
    cases g
    simp_all
  cases c
  cases d
  simp_all

section Run

variable (u : List Contract) (registry : Registry)

/-- A call with the answer that a search gives at its place. -/
def settled (p : CallPlace) (k : Call) : Call :=
  { k with resolvedId := some ((answerAt? u registry p).join.getD unresolvedMark) }

variable {u}

/-- What one rewriting does to records that differ from `u` only in targets. -/
theorem resolveAt_spec {s : List Contract × Nat}
    (hs : s.1.map Contract.untargeted = u.map Contract.untargeted) (p : CallPlace) :
    (resolveAt registry s p).1.map Contract.untargeted = u.map Contract.untargeted ∧
      (∀ q, callAt? (resolveAt registry s p).1 q =
        if p = q then (callAt? s.1 q).map (settled u registry q) else callAt? s.1 q) ∧
      (resolveAt registry s p).2 =
        s.2 + if answerAt? u registry p = some none then 1 else 0 := by
  have hanswer : answerAt? s.1 registry p = answerAt? u registry p := by
    rw [← answerAt?_untargeted s.1, hs, answerAt?_untargeted]
  have hset (id : String) (hid : (answerAt? u registry p).join.getD unresolvedMark = id)
      (q : CallPlace) : callAt? (setTarget s.1 p id) q =
        if p = q then (callAt? s.1 q).map (settled u registry q) else callAt? s.1 q := by
    rw [callAt?_setTarget, ← hid]
    split
    next hpq => rw [hpq]; rfl
    next => rfl
  unfold resolveAt
  rw [hanswer]
  cases h : answerAt? u registry p with
  | none =>
    refine ⟨hs, fun q => ?_, by simp⟩
    by_cases hpq : p = q
    · obtain rfl := hpq
      simp [answerAt?_eq_none (hanswer.trans h)]
    · simp [hpq]
  | some answer =>
    cases answer with
    | none => exact ⟨(setTarget_untargeted _ _ _).trans hs, hset _ (by simp [h]), by simp⟩
    | some id => exact ⟨(setTarget_untargeted _ _ _).trans hs, hset _ (by simp [h]), by simp⟩

/-- What a run of rewritings does, in any order and whatever targets stand in the records. -/
theorem foldl_resolveAt_spec (order : List CallPlace) {s : List Contract × Nat}
    (hs : s.1.map Contract.untargeted = u.map Contract.untargeted) :
    (order.foldl (resolveAt registry) s).1.map Contract.untargeted = u.map Contract.untargeted ∧
      (∀ q, callAt? (order.foldl (resolveAt registry) s).1 q =
        if q ∈ order then (callAt? s.1 q).map (settled u registry q) else callAt? s.1 q) ∧
      (order.foldl (resolveAt registry) s).2 =
        s.2 + order.countP fun p => answerAt? u registry p = some none := by
  induction order generalizing s with
  | nil => exact ⟨hs, by simp, by simp⟩
  | cons p order ih =>
    obtain ⟨hsame, hcalls, hcount⟩ := resolveAt_spec registry hs p
    obtain ⟨hsame', hcalls', hcount'⟩ := ih hsame
    refine ⟨hsame', fun q => ?_, ?_⟩
    · rw [List.foldl_cons, hcalls', hcalls]
      by_cases hpq : p = q
      · by_cases hq : q ∈ order
        · simp only [hpq, hq, if_true, List.mem_cons, true_or, Option.map_map]
          rfl
        · simp [hpq, hq]
      · have hqp : q ≠ p := Ne.symm hpq
        simp [hpq, hqp]
    · rw [List.foldl_cons, hcount', hcount, List.countP_cons]
      simp only [decide_eq_true_eq]
      omega

end Run

section Whole

variable (u : List Contract) (registry : Registry)

/-- No field but the target of a call is changed. -/
theorem untargeted_resolveAll :
    (resolveAll u registry).map Contract.untargeted = u.map Contract.untargeted := by
  rw [resolveAll, List.map_map]
  refine List.map_congr_left fun c _ => ?_
  simp only [Function.comp_apply, Contract.untargeted, List.map_map]
  congr 1
  refine List.map_congr_left fun f _ => ?_
  simp only [Function.comp_apply, ContractFunction.untargeted, resolveFunction, List.map_map]
  rfl

theorem callAt?_resolveAll (p : CallPlace) :
    callAt? (resolveAll u registry) p = (callAt? u p).map (settled u registry p) := by
  cases hc : u[p.contract]? with
  | none => simp [callAt?, resolveAll, hc]
  | some c =>
    cases hk : callAt? u p with
    | none => simpa [callAt?, resolveAll, resolveFunction, hc] using hk
    | some k =>
      have hsettled : settled u registry p k = resolveCall u registry c k := by
        simp [settled, answerAt?, hc, hk, resolveCall]
      rw [callAt?, hc, Option.bind_some] at hk
      obtain ⟨f, hf, hk⟩ := Option.bind_eq_some_iff.mp hk
      rw [Option.map_some, hsettled]
      simp [callAt?, resolveAll, resolveFunction, hc, hf, hk]

/-- A list with the places of its items is the list itself, once the places have been used. -/
theorem flatMap_zipIdx {α β : Type} {l : List α} {F : α × Nat → List β} {G : α → List β}
    (h : ∀ a i, l[i]? = some a → F (a, i) = G a) : l.zipIdx.flatMap F = l.flatMap G := by
  conv_rhs => rw [← List.zipIdx_map_fst 0 l, List.flatMap_map]
  refine List.flatMap_congr fun x hx => ?_
  exact h x.1 x.2 (List.mk_mem_zipIdx_iff_getElem?.mp hx)

theorem filterMap_callAt?_places :
    (places u).filterMap (callAt? u) = u.flatMap fun c => c.functions.flatMap (·.calls) := by
  rw [places, List.filterMap_flatMap]
  refine flatMap_zipIdx fun c i hc => ?_
  rw [List.filterMap_flatMap]
  refine flatMap_zipIdx fun f j hf => ?_
  have hcall : ∀ x ∈ f.calls.zipIdx,
      (callAt? u ∘ fun x => ⟨i, j, x.2⟩) x = (some ∘ Prod.fst) x := by
    intro x hx
    simp [callAt?, hc, hf, List.mk_mem_zipIdx_iff_getElem?.mp hx]
  rw [List.filterMap_map, List.filterMap_congr hcall, List.filterMap_eq_map, List.zipIdx_map_fst]

theorem mem_places {p : CallPlace} {k : Call} (h : callAt? u p = some k) : p ∈ places u := by
  obtain ⟨c, hc, h⟩ := Option.bind_eq_some_iff.mp h
  obtain ⟨f, hf, h⟩ := Option.bind_eq_some_iff.mp h
  refine List.mem_flatMap.mpr ⟨(c, p.contract), List.mk_mem_zipIdx_iff_getElem?.mpr hc, ?_⟩
  refine List.mem_flatMap.mpr ⟨(f, p.function), List.mk_mem_zipIdx_iff_getElem?.mpr hf, ?_⟩
  exact List.mem_map.mpr ⟨(k, p.call), List.mk_mem_zipIdx_iff_getElem?.mpr h, rfl⟩

theorem places_untargeted : places (u.map Contract.untargeted) = places u := by
  simp only [places, List.zipIdx_map, List.flatMap_map, Prod.map, id_eq, Contract.untargeted,
    ContractFunction.untargeted, List.map_map, Function.comp_def]

theorem length_unresolved : (unresolved u).length =
    (u.flatMap fun c => c.functions.flatMap (·.calls)).countP
      fun k => k.resolvedId = some unresolvedMark := by
  simp only [unresolved, List.length_flatMap, List.length_map, List.countP_flatMap,
    Function.comp_def, ← List.countP_eq_length_filter]

/-- The calls left unresolved are those that a search has no answer for. -/
theorem length_unresolved_resolveAll : (unresolved (resolveAll u registry)).length =
    (places u).countP fun p => answerAt? u registry p = some none := by
  have hplaces : places (resolveAll u registry) = places u := by
    rw [← places_untargeted, untargeted_resolveAll, places_untargeted]
  rw [length_unresolved, ← filterMap_callAt?_places, hplaces, List.countP_filterMap]
  refine List.countP_congr fun p _ => ?_
  rw [callAt?_resolveAll]
  cases hk : callAt? u p with
  | none => simp [answerAt?, hk]
  | some k =>
    obtain ⟨c, _, hanswer⟩ := exists_answer hk registry
    cases hid : resolve? u registry c k with
    | none => simp [settled, hanswer, hid]
    | some id => simp [settled, hanswer, hid, ne_unresolvedMark_of_resolve? hid]

end Whole

/-- A call has no target, or that of its callee in a contract of one of the names. -/
def IsTargeted (names : List String) (k : Call) : Prop :=
  k.resolvedId = some unresolvedMark ∨
    k.resolvedId ≠ some unresolvedMark ∧ ∃ name ∈ names, ∃ segments : List String,
      k.resolvedId = some (":".intercalate (name :: k.calleeName :: segments))

theorem isTargeted_resolveCall {u : List Contract} {c : Contract} (hc : c ∈ u)
    (registry : Registry) (k : Call) :
    IsTargeted (u.map (·.name)) (resolveCall u registry c k) := by
  cases h : definer? u k.calleeName [] c with
  | none =>
    left
    simp [resolveCall, resolve?, h]
  | some d =>
    have hid : (resolveCall u registry c k).resolvedId = some (k.identifier registry d.name) := by
      simp [resolveCall, resolve?, h]
    refine .inr ⟨?_, d.name, List.mem_map_of_mem (mem_of_definer? hc h), _, hid⟩
    rw [hid]
    exact fun hmark => k.identifier_ne_unresolvedMark registry d.name (Option.some.inj hmark)

/-- Resolution gives every call a target in the universe or the mark of calls without one, and
changes nothing else. The same records and the same count come out if the calls are rewritten one
by one, in any order, from any targets that stood in the records before. -/
theorem resolveAll_eq_rewriting (u : List Contract) (registry : Registry) :
    (∀ c ∈ resolveAll u registry, ∀ f ∈ c.functions, ∀ k ∈ f.calls,
        IsTargeted (u.map (·.name)) k) ∧
      (resolveAll u registry).map Contract.untargeted = u.map Contract.untargeted ∧
      ∀ (before : List Contract) (order : List CallPlace),
        before.map Contract.untargeted = u.map Contract.untargeted → order.Perm (places u) →
        order.foldl (resolveAt registry) (before, 0) =
          (resolveAll u registry, (unresolved (resolveAll u registry)).length) := by
  refine ⟨fun c hc f hf k hk => ?_, untargeted_resolveAll u registry,
    fun before order hbefore horder => ?_⟩
  · obtain ⟨c, hmem, rfl⟩ := List.mem_map.mp hc
    obtain ⟨f, _, rfl⟩ := List.mem_map.mp hf
    obtain ⟨k, _, rfl⟩ := List.mem_map.mp hk
    exact isTargeted_resolveCall hmem registry k
  · obtain ⟨hsame, hcalls, hcount⟩ :=
      foldl_resolveAt_spec registry order (s := (before, 0)) hbefore
    refine Prod.ext ?_ ?_
    · refine eq_of_callAt? (hsame.trans (untargeted_resolveAll u registry).symm) fun p => ?_
      have hshape : (callAt? before p).map Call.untargeted = (callAt? u p).map Call.untargeted := by
        rw [← callAt?_untargeted, hbefore, callAt?_untargeted]
      have hsettled : (callAt? before p).map (settled u registry p) =
          (callAt? u p).map (settled u registry p) := by
        have h := congrArg (Option.map (settled u registry p)) hshape
        rwa [Option.map_map, Option.map_map] at h
      rw [hcalls, callAt?_resolveAll, ← hsettled]
      split
      next => rfl
      next hp =>
        have hnone : callAt? before p = none := by
          refine Option.eq_none_iff_forall_ne_some.mpr fun k hk => hp (horder.mem_iff.mpr ?_)
          rw [← places_untargeted, ← hbefore, places_untargeted]
          exact mem_places before hk
        rw [hnone]
        rfl
    · rw [hcount, length_unresolved_resolveAll, horder.countP_eq, Nat.zero_add]

/-- Two contracts that name each other as bases, with targets from elsewhere. -/
def mutualCallers : List Contract :=
  [⟨"A", .contract, "/a.sol", ["B"], [],
      [⟨"f", "A:f", [⟨"g", [], none⟩, ⟨"h", [], some "Z:h"⟩]⟩]⟩,
    ⟨"B", .contract, "/b.sol", ["A"], [], [⟨"g", "B:g", [⟨"f", [], some "unresolved"⟩]⟩]⟩]

/-- They are resolved again from the last call to the first. -/
theorem rewriting_mutualCallers :
    (places mutualCallers).reverse.foldl (resolveAt []) (resolveAll mutualCallers [], 0) =
      (resolveAll mutualCallers [], (unresolved (resolveAll mutualCallers [])).length) :=
  (resolveAll_eq_rewriting mutualCallers []).2.2 _ _ (untargeted_resolveAll _ _)
    (List.reverse_perm _)

example : (resolveAll mutualCallers []).map
    (fun c => c.functions.map fun f => f.calls.map (·.resolvedId)) =
      [[[some "B:g", some "unresolved"]], [[some "A:f"]]] := by
  cbv

end Resolution
end SolidityCalls
