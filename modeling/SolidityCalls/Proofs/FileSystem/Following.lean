import SolidityCalls.Proofs.FileSystem.Resolved

/-! Where components resolve to, as a relation: links are followed one after the other, and what is
missing is kept. Resolution remembers the links it is following and gives up when it meets one of
them again; the relation counts links instead. The link that is being followed costs more than
what is left to go, so where the relation ends resolution ends too, and at the same location. -/
namespace SolidityCalls.FileSystem

/-- Components resolve from one location to another, along the given number of links. -/
inductive ResolvesTo (fs : FileSystem) : Location → List String → Location → Nat → Prop where
  | stop {here : Location} : ResolvesTo fs here [] here 0
  | stay {here loc : Location} {c : String} {rest : List String} {n : Nat}
      (hc : c = "" ∨ c = ".") (next : ResolvesTo fs here rest loc n) :
      ResolvesTo fs here (c :: rest) loc n
  | up {here loc : Location} {rest : List String} {n : Nat}
      (next : ResolvesTo fs here.dropLast rest loc n) : ResolvesTo fs here (".." :: rest) loc n
  | down {here loc : Location} {c : String} {rest : List String} {n : Nat}
      (hc : ¬ (c = "" ∨ c = ".")) (hup : c ≠ "..")
      (hl : ∀ target, fs.entryAt? (here ++ [c]) ≠ some (.link target))
      (next : ResolvesTo fs (here ++ [c]) rest loc n) : ResolvesTo fs here (c :: rest) loc n
  | follow {here mid loc : Location} {c target : String} {rest : List String} {k n : Nat}
      (hc : ¬ (c = "" ∨ c = ".")) (hup : c ≠ "..")
      (he : fs.entryAt? (here ++ [c]) = some (.link target))
      (through : ResolvesTo fs (linkBase target here) (Path.pieces target) mid k)
      (next : ResolvesTo fs mid rest loc n) : ResolvesTo fs here (c :: rest) loc (k + n + 1)

variable {fs : FileSystem}

section Name

variable {active : List Reached} {relative : Bool} {here : Location} {c : String}
  {rest : List String} (hc : ¬ (c = "" ∨ c = ".")) (hup : c ≠ "..")
include hc hup

theorem resolveFrom_of_not_link
    (hlink : ∀ target, fs.entryAt? (here ++ [c]) ≠ some (.link target)) :
    fs.resolveFrom active relative here (c :: rest) =
      fs.resolveFrom active relative (here ++ [c]) rest := by
  rw [resolveFrom, if_neg hc, if_neg hup]
  split
  next target htarget => exact absurd htarget (hlink target)
  next => rfl

/-- A link is followed unless it is being followed already. -/
theorem resolveFrom_of_link {target : String}
    (he : fs.entryAt? (here ++ [c]) = some (.link target)) :
    fs.resolveFrom active relative here (c :: rest) =
      if (relative, here ++ [c]) ∈ active then .error (goOn (Path.absolute (here ++ [c])) rest)
      else
        match fs.resolveFrom ((relative, here ++ [c]) :: active)
            (relative && !target.startsWith "/") (linkBase target here) (Path.pieces target) with
        | .ok (relative, loc) => fs.resolveFrom active relative loc rest
        | .error left => .error (goOn left rest) := by
  rw [resolveFrom, if_neg hc, if_neg hup]
  split
  next target' htarget =>
    obtain rfl := Entry.link.inj (Option.some.inj (he.symm.trans htarget))
    rfl
  next hother => exact absurd he (hother target)

end Name

/-- Components resolve to one location only, and always along the same links. -/
theorem ResolvesTo.unique {here loc loc' : Location} {parts : List String} {n n' : Nat}
    (h : ResolvesTo fs here parts loc n) (h' : ResolvesTo fs here parts loc' n') :
    loc = loc' ∧ n = n' := by
  induction h generalizing loc' n' with
  | stop =>
    cases h'
    exact ⟨rfl, rfl⟩
  | stay hc _ ih =>
    cases h' with
    | stay _ next => exact ih next
    | up => simp at hc
    | down hc' => exact absurd hc hc'
    | follow hc' => exact absurd hc hc'
  | up _ ih =>
    cases h' with
    | stay hc' => simp at hc'
    | up next => exact ih next
    | down _ hup => exact absurd rfl hup
    | follow _ hup => exact absurd rfl hup
  | down hc hup hl _ ih =>
    cases h' with
    | stay hc' => exact absurd hc' hc
    | up => exact absurd rfl hup
    | down _ _ _ next => exact ih next
    | follow _ _ he' => exact absurd he' (hl _)
  | follow hc hup he _ _ iht ihn =>
    cases h' with
    | stay hc' => exact absurd hc' hc
    | up => exact absurd rfl hup
    | down _ _ hl => exact absurd he (hl _)
    | follow _ _ he' through next =>
      obtain rfl := Entry.link.inj (Option.some.inj (he.symm.trans he'))
      obtain ⟨rfl, rfl⟩ := iht through
      obtain ⟨rfl, rfl⟩ := ihn next
      exact ⟨rfl, rfl⟩

/-- The number of links on the way through the link that stands at a location. -/
def LinkCost (fs : FileSystem) (here : Location) (c : String) (k : Nat) : Prop :=
  ∃ target mid, fs.entryAt? (here ++ [c]) = some (.link target) ∧
    ResolvesTo fs (linkBase target here) (Path.pieces target) mid k

theorem LinkCost.unique {here : Location} {c : String} {k k' : Nat} (h : LinkCost fs here c k)
    (h' : LinkCost fs here c k') : k = k' := by
  obtain ⟨target, mid, he, hto⟩ := h
  obtain ⟨target', mid', he', hto'⟩ := h'
  obtain rfl := Entry.link.inj (Option.some.inj (he.symm.trans he'))
  exact (hto.unique hto').2

/-- Resolution ends where components resolve to. A link that is being followed costs at least as
many links as are left to go, so it is not met again. -/
theorem ResolvesTo.resolveFrom {here loc : Location} {parts : List String} {n : Nat}
    (h : ResolvesTo fs here parts loc n) (active : List Reached) (relative : Bool)
    (hactive : ∀ r dir c k, (r, dir ++ [c]) ∈ active → LinkCost fs dir c k → n ≤ k) :
    ∃ r, fs.resolveFrom active relative here parts = .ok (r, loc) ∧ (r → relative) := by
  induction h generalizing active relative with
  | stop => exact ⟨relative, by rw [FileSystem.resolveFrom], id⟩
  | stay hc _ ih =>
    rw [FileSystem.resolveFrom, if_pos hc]
    exact ih _ _ hactive
  | up _ ih =>
    rw [FileSystem.resolveFrom, if_neg (by simp), if_pos rfl]
    exact ih _ _ hactive
  | down hc hup hl _ ih =>
    rw [resolveFrom_of_not_link hc hup hl]
    exact ih _ _ hactive
  | @follow here mid loc c target rest k n hc hup he through next iht ihn =>
    have hcost : LinkCost fs here c k := ⟨target, mid, he, through⟩
    have hfresh : (relative, here ++ [c]) ∉ active := by
      intro hmem
      have := hactive relative here c k hmem hcost
      omega
    obtain ⟨r, hthrough, hr⟩ := iht ((relative, here ++ [c]) :: active)
      (relative && !target.startsWith "/") (by
        intro r dir d j hmem hj
        rcases List.mem_cons.mp hmem with heq | hmem
        · obtain ⟨rfl, rfl⟩ := List.append_singleton_inj.mp (Prod.mk.inj heq).2
          exact Nat.le_of_eq (hcost.unique hj)
        · have := hactive r dir d j hmem hj
          omega)
    obtain ⟨r', hnext, hr'⟩ := ihn active r (by
      intro r dir d j hmem hj
      have := hactive r dir d j hmem hj
      omega)
    refine ⟨r', ?_, fun hr'' => (Bool.and_eq_true_iff.mp (hr (hr' hr''))).1⟩
    rw [resolveFrom_of_link hc hup he, if_neg hfresh, hthrough]
    exact hnext

/-- Where resolution ends, components resolve to. -/
theorem exists_resolvesTo {active : List Reached} {relative r : Bool} {here loc : Location}
    {parts : List String} (h : fs.resolveFrom active relative here parts = .ok (r, loc)) :
    ∃ n, ResolvesTo fs here parts loc n := by
  fun_induction resolveFrom fs active relative here parts generalizing r loc with
  | case1 =>
    obtain ⟨_, rfl⟩ := Prod.mk.inj (Except.ok.inj h)
    exact ⟨0, .stop⟩
  | case2 _ _ here c rest hc ih =>
    obtain ⟨n, hn⟩ := ih h
    exact ⟨n, .stay hc hn⟩
  | case3 _ _ here rest _ ih =>
    obtain ⟨n, hn⟩ := ih h
    exact ⟨n, .up hn⟩
  | case5 _ _ here c rest hc hup target htarget _ _ mid hmid ihtarget ihrest =>
    obtain ⟨k, hk⟩ := ihtarget hmid
    obtain ⟨n, hn⟩ := ihrest h
    exact ⟨_, .follow hc hup htarget hk hn⟩
  | case7 _ _ here c rest hc hup hlink ih =>
    obtain ⟨n, hn⟩ := ih h
    exact ⟨n, .down hc hup hlink hn⟩
  | case4 | case6 => cases h

/-- No chain of links comes back to itself: each of them resolves to somewhere. -/
def IsLoopFree (fs : FileSystem) : Prop :=
  ∀ here c target, fs.entryAt? (here ++ [c]) = some (.link target) →
    ∃ mid k, ResolvesTo fs (linkBase target here) (Path.pieces target) mid k

theorem mem_entries {loc : Location} {e : Entry} (h : fs.entryAt? loc = some e) :
    loc = [] ∧ e = .directory ∨ (loc, e) ∈ fs.entries := by
  unfold entryAt? at h
  split at h
  next hroot => exact .inl ⟨hroot, (Option.some.inj h).symm⟩
  next =>
    obtain ⟨before, after, hsplit, _⟩ := List.lookup_eq_some_iff.mp h
    exact .inr (by simp [hsplit])

namespace IsLoopFree

theorem of_entries (h : ∀ loc target, (loc, .link target) ∈ fs.entries → ∃ reached,
      fs.resolveFrom [] false (linkBase target loc.dropLast) (Path.pieces target) = .ok reached) :
    IsLoopFree fs := by
  intro here c target he
  rcases mem_entries he with ⟨hroot, _⟩ | hmem
  · simp at hroot
  · obtain ⟨⟨_, mid⟩, hreached⟩ := h _ target hmem
    rw [List.dropLast_concat] at hreached
    exact ⟨mid, FileSystem.exists_resolvesTo hreached⟩

/-- Without loops, all components resolve to somewhere. -/
theorem exists_resolvesTo (h : IsLoopFree fs) (here : Location) (parts : List String) :
    ∃ loc n, ResolvesTo fs here parts loc n := by
  induction parts generalizing here with
  | nil => exact ⟨here, 0, .stop⟩
  | cons c rest ih =>
    by_cases hc : c = "" ∨ c = "."
    · obtain ⟨loc, n, hn⟩ := ih here
      exact ⟨loc, n, .stay hc hn⟩
    · by_cases hup : c = ".."
      · obtain ⟨loc, n, hn⟩ := ih here.dropLast
        exact ⟨loc, n, hup ▸ .up hn⟩
      · by_cases hl : ∃ target, fs.entryAt? (here ++ [c]) = some (.link target)
        · obtain ⟨target, he⟩ := hl
          obtain ⟨mid, k, hk⟩ := h here c target he
          obtain ⟨loc, n, hn⟩ := ih mid
          exact ⟨loc, _, .follow hc hup he hk hn⟩
        · obtain ⟨loc, n, hn⟩ := ih (here ++ [c])
          exact ⟨loc, n, .down hc hup (not_exists.mp hl) hn⟩

/-- Without loops, resolution ends. -/
theorem resolveFrom (h : IsLoopFree fs) (relative : Bool) (here : Location)
    (parts : List String) : ∃ reached, fs.resolveFrom [] relative here parts = .ok reached := by
  obtain ⟨loc, n, hn⟩ := h.exists_resolvesTo here parts
  obtain ⟨r, hr, _⟩ := hn.resolveFrom [] relative (by simp)
  exact ⟨(r, loc), hr⟩

end IsLoopFree

end SolidityCalls.FileSystem
