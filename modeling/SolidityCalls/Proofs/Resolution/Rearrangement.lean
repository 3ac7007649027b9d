import SolidityCalls.Proofs.Resolution.Reachability

/-! What resolution takes from the order of a universe. Bases are looked up by name and imported
contracts by file, so only the order inside a file counts, and contracts that none of a universe
names or imports may stand anywhere. -/
namespace SolidityCalls.Resolution

/-- The same contracts, those of one file in the same order. -/
structure IsReordering (u w : List Contract) : Prop where
  perm : w.Perm u
  sameFile : ∀ path, (w.filter fun c => c.sourcePath = path) = u.filter fun c => c.sourcePath = path

/-- A contract that has the name of none of the universe, is no base and stands in no imported
file. -/
structure IsUnrelated (u : List Contract) (d : Contract) : Prop where
  name : d.name ∉ u.map Contract.name
  base : ∀ c ∈ u, d.name ∉ c.baseNames
  file : ∀ c ∈ u, d.sourcePath ∉ c.importPaths

/-- The second list is the first with further items, all of one kind, put in at any places. -/
inductive IsExtension {α : Type} (isFurther : α → Prop) : List α → List α → Prop where
  | nil : IsExtension isFurther [] []
  | keep {xs ys : List α} (x : α) (rest : IsExtension isFurther xs ys) :
      IsExtension isFurther (x :: xs) (x :: ys)
  | insert {xs ys : List α} {y : α} (hy : isFurther y) (rest : IsExtension isFurther xs ys) :
      IsExtension isFurther xs (y :: ys)

section Lists

variable {α : Type} {isFurther : α → Prop} {xs ys : List α}

theorem IsExtension.filter_eq (h : IsExtension isFurther xs ys) {p : α → Bool}
    (hp : ∀ y, isFurther y → p y = false) : ys.filter p = xs.filter p := by
  induction h with
  | nil => rfl
  | keep x _ ih => rw [List.filter_cons, List.filter_cons, ih]
  | insert hy _ ih => rw [List.filter_cons_of_neg (by simp [hp _ hy]), ih]

theorem IsExtension.find?_eq (h : IsExtension isFurther xs ys) {p : α → Bool}
    (hp : ∀ y, isFurther y → p y = false) : ys.find? p = xs.find? p := by
  rw [← List.head?_filter, h.filter_eq hp, List.head?_filter]

end Lists

section Rearranged

variable {u w v : List Contract}

theorem find?_name_eq_some_iff (hu : (u.map Contract.name).Nodup) {name : String} {d : Contract} :
    (u.find? fun c => c.name = name) = some d ↔ d ∈ u ∧ d.name = name := by
  constructor
  · intro h
    exact ⟨List.mem_of_find?_eq_some h, by simpa using List.find?_some h⟩
  · rintro ⟨hd, rfl⟩
    rw [← named?_map_val, named?_of_mem hu hd, Option.map_some]

/-- Where names are distinct, it does not matter where the contract of a name stands. -/
theorem find?_name_of_perm (hu : (u.map Contract.name).Nodup) (h : w.Perm u) (name : String) :
    (w.find? fun c => c.name = name) = u.find? fun c => c.name = name := by
  have hw : (w.map Contract.name).Nodup := (h.map Contract.name).nodup_iff.mpr hu
  refine Option.ext fun d => ?_
  rw [find?_name_eq_some_iff hw, find?_name_eq_some_iff hu, h.mem_iff]

variable (hw : IsReordering u w) (hv : IsExtension (IsUnrelated u) w v)
include hw hv

theorem find?_base_of_rearranged (hu : (u.map Contract.name).Nodup) {c : Contract} (hc : c ∈ u)
    {name : String} (hname : name ∈ c.baseNames) :
    (v.find? fun d => d.name = name) = u.find? fun d => d.name = name := by
  have hfurther : ∀ d, IsUnrelated u d → decide (d.name = name) = false := by
    intro d hd
    rw [decide_eq_false_iff_not]
    rintro rfl
    exact hd.base c hc hname
  rw [hv.find?_eq hfurther, find?_name_of_perm hu hw.perm]

theorem filter_imported_of_rearranged {c : Contract} (hc : c ∈ u) {path : String}
    (hpath : path ∈ c.importPaths) :
    (v.filter fun d => d.sourcePath = path ∧ d.name ∉ c.baseNames) =
      u.filter fun d => d.sourcePath = path ∧ d.name ∉ c.baseNames := by
  have hfurther : ∀ d, IsUnrelated u d → decide (d.sourcePath = path) = false := by
    intro d hd
    rw [decide_eq_false_iff_not]
    rintro rfl
    exact hd.file c hc hpath
  have hfile : (v.filter fun d => d.sourcePath = path) = u.filter fun d => d.sourcePath = path := by
    rw [hv.filter_eq hfurther, hw.sameFile path]
  have hboth := congrArg (List.filter fun d => decide (d.name ∉ c.baseNames)) hfile
  rw [List.filter_filter, List.filter_filter] at hboth
  simpa only [← Bool.decide_and, and_comm] using hboth

/-- The order of a search is the same in the rearranged universe. -/
theorem linearization_of_rearranged (hu : (u.map Contract.name).Nodup) (guard : List String)
    {c : Contract} (hc : c ∈ u) :
    linearization v guard c = linearization u guard c := by
  induction guard, c using linearization.induct u with
  | case1 guard c hg =>
    rw [linearization_isLinearization v, linearization_isLinearization u, if_pos hg, if_pos hg]
  | case2 guard c hg ih =>
    have hnext {d : Contract} (hd : d ∈ u) :
        linearization v (c.name :: guard) d = linearization u (c.name :: guard) d := ih ⟨d, hd⟩ hd
    have hbases : ∀ name ∈ c.baseNames.reverse,
        ((v.find? fun d => d.name = name).map (linearization v (c.name :: guard))).getD [] =
          ((u.find? fun d => d.name = name).map (linearization u (c.name :: guard))).getD [] := by
      intro name hname
      rw [find?_base_of_rearranged hw hv hu hc (List.mem_reverse.mp hname)]
      cases hd : u.find? fun d => d.name = name with
      | none => rfl
      | some d => exact hnext (List.mem_of_find?_eq_some hd)
    have himports : (c.importPaths.flatMap fun path =>
          v.filter fun d => d.sourcePath = path ∧ d.name ∉ c.baseNames) =
        c.importPaths.flatMap fun path =>
          u.filter fun d => d.sourcePath = path ∧ d.name ∉ c.baseNames :=
      List.flatMap_congr fun path hpath => filter_imported_of_rearranged hw hv hc hpath
    rw [linearization_isLinearization v, linearization_isLinearization u, if_neg hg, if_neg hg,
      List.flatMap_congr hbases, himports]
    refine congrArg (fun imports => c :: (_ ++ imports)) (List.flatMap_congr fun d hd => hnext ?_)
    obtain ⟨path, _, hd⟩ := List.mem_flatMap.mp (List.mem_reverse.mp hd)
    exact List.mem_of_mem_filter hd

end Rearranged

/-- Resolution gives the same for all contracts of a universe when these are put in another order
that keeps the order inside each file, and when further contracts are put in between whose names
are neither names nor bases and whose files are not imported. -/
theorem resolve?_of_rearranged {u w v : List Contract} (hu : (u.map Contract.name).Nodup)
    (hw : IsReordering u w) (hv : IsExtension (IsUnrelated u) w v) {c : Contract} (hc : c ∈ u)
    (registry : Registry) (call : Call) :
    resolve? v registry c call = resolve? u registry c call := by
  rw [resolve?, resolve?, definer?_eq_find?, definer?_eq_find?,
    linearization_of_rearranged hw hv hu [] hc]

/-- A base and two contracts of one imported file. -/
def twoInOneFile : List Contract :=
  [⟨"L", .library, "/l.sol", [], [], [⟨"f", "L:f", []⟩]⟩,
    ⟨"M", .library, "/l.sol", [], [], [⟨"f", "M:f", []⟩]⟩,
    ⟨"B", .contract, "/b.sol", [], [], []⟩,
    ⟨"C", .contract, "/c.sol", ["B", "Gone"], ["/l.sol"], []⟩]

/-- The same contracts in another order, and between them one that they do not lead to. -/
def twoInOneFileRearranged : List Contract :=
  [twoInOneFile[2], twoInOneFile[0], ⟨"X", .contract, "/x.sol", ["B"], [], [⟨"f", "X:f", []⟩]⟩,
    twoInOneFile[3], twoInOneFile[1]]

theorem rearranged_twoInOneFile :
    resolve? twoInOneFileRearranged [] twoInOneFile[3] ⟨"f", [], none⟩ =
      resolve? twoInOneFile [] twoInOneFile[3] ⟨"f", [], none⟩ := by
  have hfile (path : String) : path = "/l.sol" ∨ path = "/b.sol" ∨ path = "/c.sol" ∨
      ("/l.sol" ≠ path ∧ "/b.sol" ≠ path ∧ "/c.sol" ≠ path) := by tauto
  have hreordering : IsReordering twoInOneFile
      [twoInOneFile[2], twoInOneFile[0], twoInOneFile[3], twoInOneFile[1]] := by
    refine ⟨by decide, fun path => ?_⟩
    rcases hfile path with rfl | rfl | rfl | ⟨hl, hb, hc⟩
    · decide
    · decide
    · decide
    · simp [twoInOneFile, hl, hb, hc]
  have hunrelated : IsUnrelated twoInOneFile
      ⟨"X", .contract, "/x.sol", ["B"], [], [⟨"f", "X:f", []⟩]⟩ :=
    ⟨by decide, by decide, by decide⟩
  exact resolve?_of_rearranged (by decide) hreordering
    (.keep _ (.keep _ (.insert hunrelated (.keep _ (.keep _ .nil))))) (by decide) _ _

example : resolve? twoInOneFileRearranged [] twoInOneFile[3] ⟨"f", [], none⟩ = some "M:f" := by
  cbv

end SolidityCalls.Resolution
