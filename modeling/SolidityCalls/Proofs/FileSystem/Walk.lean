import SolidityCalls.Proofs.FileSystem.Following

/-! Walking a path and resolving it agree: where a walk arrives at an entry, resolution of the
same components arrives at the same location. A walk gives up after a number of links and a
resolution when it meets a link again, so the argument counts the links that are followed. -/
namespace SolidityCalls.FileSystem

/-- Components lead from one location to another, over existing directories and along the given
number of links. -/
inductive Leads (fs : FileSystem) : Location → List String → Location → Nat → Prop where
  | stop {here : Location} : Leads fs here [] here 0
  | stay {here loc : Location} {c : String} {rest : List String} {n : Nat}
      (hd : fs.isDirectoryAt here) (hc : c = "" ∨ c = ".") (next : Leads fs here rest loc n) :
      Leads fs here (c :: rest) loc n
  | up {here loc : Location} {rest : List String} {n : Nat} (hd : fs.isDirectoryAt here)
      (next : Leads fs here.dropLast rest loc n) : Leads fs here (".." :: rest) loc n
  | down {here loc : Location} {c : String} {rest : List String} {n : Nat} {e : Entry}
      (hd : fs.isDirectoryAt here) (hc : ¬ (c = "" ∨ c = ".")) (hup : c ≠ "..")
      (he : fs.entryAt? (here ++ [c]) = some e) (hl : ∀ target, e ≠ .link target)
      (next : Leads fs (here ++ [c]) rest loc n) : Leads fs here (c :: rest) loc n
  | follow {here mid loc : Location} {c target : String} {rest : List String} {k n : Nat}
      (hd : fs.isDirectoryAt here) (hc : ¬ (c = "" ∨ c = ".")) (hup : c ≠ "..")
      (he : fs.entryAt? (here ++ [c]) = some (.link target))
      (through : Leads fs (linkBase target here) (Path.pieces target) mid k)
      (next : Leads fs mid rest loc n) : Leads fs here (c :: rest) loc (k + n + 1)

variable {fs : FileSystem}

/-- The first components lead somewhere on the way. -/
theorem Leads.split {here loc : Location} {before after : List String} {n : Nat}
    (h : Leads fs here (before ++ after) loc n) :
    ∃ mid k l, Leads fs here before mid k ∧ Leads fs mid after loc l ∧ n = k + l := by
  induction before generalizing here n with
  | nil => exact ⟨here, 0, n, .stop, h, (Nat.zero_add n).symm⟩
  | cons c before ih =>
    cases h with
    | stay hd hc next =>
      obtain ⟨mid, k, l, h1, h2, hn⟩ := ih next
      exact ⟨mid, k, l, .stay hd hc h1, h2, hn⟩
    | up hd next =>
      obtain ⟨mid, k, l, h1, h2, hn⟩ := ih next
      exact ⟨mid, k, l, .up hd h1, h2, hn⟩
    | down hd hc hup he hl next =>
      obtain ⟨mid, k, l, h1, h2, hn⟩ := ih next
      exact ⟨mid, k, l, .down hd hc hup he hl h1, h2, hn⟩
    | @follow _ _ _ _ _ _ j _ hd hc hup he through next =>
      obtain ⟨mid, k, l, h1, h2, hn⟩ := ih next
      exact ⟨mid, j + k + 1, l, .follow hd hc hup he through h1, h2, by omega⟩

/-- The last component is taken from a directory that the components before it lead to. -/
theorem Leads.parent {here loc : Location} {parts : List String} {n : Nat}
    (h : Leads fs here parts loc n) (hne : parts ≠ []) :
    ∃ mid k, Leads fs here parts.dropLast mid k ∧ fs.isDirectoryAt mid := by
  rw [← List.dropLast_append_getLast hne] at h
  obtain ⟨mid, k, _, hbefore, hlast, _⟩ := h.split
  refine ⟨mid, k, hbefore, ?_⟩
  generalize parts.getLast hne = last at hlast
  cases hlast <;> assumption

/-- A walk that ends at an entry is a way that leads there. -/
theorem leads_of_walk {links : Nat} {here loc : Location} {parts : List String} {e : Entry}
    (h : fs.walk false links here parts = .ok (loc, some e)) :
    (∃ n, Leads fs here parts loc n) ∧ fs.entryAt? loc = some e := by
  fun_induction walk fs false links here parts with
  | case1 _ here =>
    obtain ⟨rfl, he⟩ := Prod.mk.inj (Except.ok.inj h)
    exact ⟨⟨0, .stop⟩, he⟩
  | case3 _ here c rest hd hc ih =>
    obtain ⟨⟨n, hn⟩, he⟩ := ih h
    exact ⟨⟨n, .stay (by simpa using hd) hc hn⟩, he⟩
  | case4 _ here rest hd _ ih =>
    obtain ⟨⟨n, hn⟩, he⟩ := ih h
    exact ⟨⟨n, .up (by simpa using hd) hn⟩, he⟩
  | case10 here c rest hd hc hup _ _ target htarget _ ih =>
    obtain ⟨⟨n, hn⟩, he⟩ := ih h
    obtain ⟨mid, k, l, hthrough, hnext, _⟩ := hn.split
    exact ⟨⟨_, .follow (by simpa using hd) hc hup htarget hthrough hnext⟩, he⟩
  | case11 _ here c rest hd hc hup _ _ e' hl he' ih =>
    obtain ⟨⟨n, hn⟩, he⟩ := ih h
    exact ⟨⟨n, .down (by simpa using hd) hc hup he' hl hn⟩, he⟩
  | case2 | case5 | case6 | case7 | case8 | case9 => cases h

theorem leads_of_find {loc : Location} {parts : List String} {e : Entry}
    (h : fs.find parts = .ok (loc, e)) :
    (∃ n, Leads fs [] parts loc n) ∧ fs.entryAt? loc = some e := by
  unfold find at h
  split at h
  next hwalk =>
    obtain ⟨rfl, rfl⟩ := Prod.mk.inj (Except.ok.inj h)
    exact leads_of_walk hwalk
  next => cases h
  next => cases h

theorem Leads.resolvesTo {here loc : Location} {parts : List String} {n : Nat}
    (h : Leads fs here parts loc n) : ResolvesTo fs here parts loc n := by
  induction h with
  | stop => exact .stop
  | stay _ hc _ ih => exact .stay hc ih
  | up _ _ ih => exact .up ih
  | down _ hc hup he hl _ ih =>
    exact .down hc hup (fun target ht => hl target (Option.some.inj (he.symm.trans ht))) ih
  | follow _ hc hup he _ _ iht ihn => exact .follow hc hup he iht ihn

/-- Resolution goes where a way leads. -/
theorem Leads.resolveFrom {here loc : Location} {parts : List String} {n : Nat}
    (h : Leads fs here parts loc n) :
    fs.resolveFrom [] false here parts = .ok (false, loc) := by
  obtain ⟨r, hr, hfalse⟩ := h.resolvesTo.resolveFrom [] false (by simp)
  cases r with
  | false => exact hr
  | true => exact absurd (hfalse rfl) Bool.false_ne_true

/-- Resolution goes on from where the first components were resolved to. -/
theorem resolveFrom_append {active : List Reached} {relative relative' : Bool}
    {here loc : Location} {before : List String} (after : List String)
    (h : fs.resolveFrom active relative here before = .ok (relative', loc)) :
    fs.resolveFrom active relative here (before ++ after) =
      fs.resolveFrom active relative' loc after := by
  induction before generalizing relative here with
  | nil =>
    rw [FileSystem.resolveFrom] at h
    obtain ⟨rfl, rfl⟩ := Prod.mk.inj (Except.ok.inj h)
    rfl
  | cons c before ih =>
    rw [FileSystem.resolveFrom] at h
    rw [List.cons_append, FileSystem.resolveFrom]
    split at h
    next hc => rw [if_pos hc, ih h]
    next hc =>
      rw [if_neg hc]
      split at h
      next hup => rw [if_pos hup, ih h]
      next hup =>
        rw [if_neg hup]
        -- Both sides stand before the same entry, so one split serves them.
        split at h
        next =>
          split at h
          next => cases h
          next hfresh =>
            rw [if_neg hfresh]
            split at h
            next => exact ih h
            next => cases h
        next => exact ih h

/-- A relative text below a path is resolved from the location the path leads to. -/
theorem resolve_child {workingDirectory loc : Location} {p : Path} {n : Nat} {text : String}
    (habs : p.isAbsolute) (h : Leads fs [] p.parts loc n)
    (htext : (Path.parse text).anchor = .relative) :
    fs.resolve workingDirectory (p.child text) =
      fs.settle (fs.resolveFrom [] false loc (Path.parse text).parts) := by
  have hpath := h.resolveFrom
  have hchild : p.child text = ⟨p.anchor, p.parts ++ (Path.parse text).parts⟩ := by
    simp [Path.child, Path.join, htext]
  have hchildAbs : (p.child text).isAbsolute := by
    rw [hchild]
    exact habs
  rw [resolve, hchildAbs, hchild]
  exact congrArg fs.settle (resolveFrom_append _ hpath)

end SolidityCalls.FileSystem
