import SolidityCalls.Proofs.FileSystem.Edit
import Mathlib.Data.List.Induction

/-! Straight locations, which resolution leaves as they are: their components are names, and there
is no link on the way to them. Resolution without a loop ends at such a location. In a tree, where
everything stands in a directory, whatever stands at a location is found there. -/
namespace SolidityCalls.FileSystem

variable {fs : FileSystem}

structure IsStraight (fs : FileSystem) (loc : Location) : Prop where
  component : ∀ c ∈ loc, IsComponent c
  ne_up : ∀ c ∈ loc, c ≠ ".."
  not_link : ∀ {pre}, pre <+: loc → ∀ target, fs.entryAt? pre ≠ some (.link target)

namespace IsStraight

theorem root (fs : FileSystem) : IsStraight fs [] where
  component := by simp
  ne_up := by simp
  not_link hpre target h := by
    obtain rfl := List.prefix_nil.mp hpre
    cases h

theorem of_isPrefix {loc pre : Location} (h : IsStraight fs loc) (hpre : pre <+: loc) :
    IsStraight fs pre where
  component c hc := h.component c (hpre.subset hc)
  ne_up c hc := h.ne_up c (hpre.subset hc)
  not_link hpre' := h.not_link (hpre'.trans hpre)

theorem dropLast {loc : Location} (h : IsStraight fs loc) : IsStraight fs loc.dropLast :=
  h.of_isPrefix (List.dropLast_prefix loc)

theorem append {here : Location} (h : IsStraight fs here) {c : String} (hc : IsComponent c)
    (hup : c ≠ "..") (hl : ∀ target, fs.entryAt? (here ++ [c]) ≠ some (.link target)) :
    IsStraight fs (here ++ [c]) where
  component := List.forall_mem_append.mpr ⟨h.component, List.forall_mem_singleton.mpr hc⟩
  ne_up := List.forall_mem_append.mpr ⟨h.ne_up, List.forall_mem_singleton.mpr hup⟩
  not_link hpre := by
    rcases List.prefix_concat_iff.mp hpre with rfl | hpre
    · exact hl
    · exact h.not_link hpre

theorem linkBase {here : Location} (h : IsStraight fs here) (target : String) :
    IsStraight fs (linkBase target here) := by
  unfold FileSystem.linkBase
  split
  · exact .root fs
  · exact h

end IsStraight

/-- Where a resolution ends, there is no link on the way. -/
theorem resolveFrom_isStraight {active : List Reached} {relative relative' : Bool}
    {here loc : Location} {parts : List String} (hhere : IsStraight fs here)
    (hparts : ∀ c ∈ parts, '/' ∉ c.toList)
    (h : fs.resolveFrom active relative here parts = .ok (relative', loc)) :
    IsStraight fs loc := by
  fun_induction resolveFrom fs active relative here parts generalizing relative' loc with
  | case1 =>
    obtain ⟨_, rfl⟩ := Prod.mk.inj (Except.ok.inj h)
    exact hhere
  | case2 _ _ here c rest hc ih => exact ih hhere (List.forall_mem_cons.mp hparts).2 h
  | case3 _ _ here rest hc ih => exact ih hhere.dropLast (List.forall_mem_cons.mp hparts).2 h
  | case4 => cases h
  | case5 _ _ here c rest hc _ target _ _ _ mid hmid ihtarget ihrest =>
    have hloc := ihtarget (hhere.linkBase target) (fun d => Path.no_slash_of_mem_pieces) hmid
    exact ihrest hloc (List.forall_mem_cons.mp hparts).2 h
  | case6 => cases h
  | case7 _ _ here c rest hc hup hlink ih =>
    obtain ⟨hslash, hrest⟩ := List.forall_mem_cons.mp hparts
    have hcomponent : IsComponent c := ⟨fun he => hc (.inl he), fun he => hc (.inr he), hslash⟩
    exact ih (hhere.append hcomponent hup hlink) hrest h

/-- Resolution leaves a straight location as it is. -/
theorem resolveFrom_of_isStraight {active : List Reached} {relative : Bool} {here : Location}
    {parts : List String} (h : IsStraight fs (here ++ parts)) :
    fs.resolveFrom active relative here parts = .ok (relative, here ++ parts) := by
  induction parts generalizing here with
  | nil => rw [resolveFrom, List.append_nil]
  | cons c rest ih =>
    have hmem : c ∈ here ++ c :: rest := List.mem_append_right _ List.mem_cons_self
    have hcomponent := h.component c hmem
    have hstep : here ++ c :: rest = (here ++ [c]) ++ rest := by simp
    have hlink := h.not_link (hstep ▸ List.prefix_append (here ++ [c]) rest)
    rw [resolveFrom_of_not_link (not_or.mpr ⟨hcomponent.ne_empty, hcomponent.ne_dot⟩)
      (h.ne_up c hmem) hlink, hstep]
    exact ih (hstep ▸ h)

theorem resolve_absolute {loc : Location} (h : IsStraight fs loc) (workingDirectory : Location) :
    fs.resolve workingDirectory (Path.absolute loc) = .ok (Path.absolute loc) := by
  have hfrom : fs.resolveFrom [] false [] loc = .ok (false, [] ++ loc) :=
    resolveFrom_of_isStraight h
  exact congrArg fs.settle hfrom

theorem Leads.of_isStraight {here parts loc : Location} {n : Nat} (h : Leads fs here parts loc n)
    (hstraight : IsStraight fs (here ++ parts)) : loc = here ++ parts := by
  induction parts generalizing here n with
  | nil =>
    cases h
    rw [List.append_nil]
  | cons c rest ih =>
    have hmem : c ∈ here ++ c :: rest := List.mem_append_right _ List.mem_cons_self
    have hcomponent := hstraight.component c hmem
    have hstep : here ++ c :: rest = (here ++ [c]) ++ rest := by simp
    have hlink := hstraight.not_link (hstep ▸ List.prefix_append (here ++ [c]) rest)
    cases h with
    | stay _ hc => exact absurd hc (not_or.mpr ⟨hcomponent.ne_empty, hcomponent.ne_dot⟩)
    | up => exact absurd rfl (hstraight.ne_up ".." hmem)
    | down _ _ _ _ _ next => rw [hstep, ih next (hstep ▸ hstraight)]
    | follow _ _ _ he => exact absurd he (hlink _)

/-- What is found at a straight location stands there. -/
theorem find_of_isStraight {loc found : Location} {e : Entry} (hloc : IsStraight fs loc)
    (h : fs.find loc = .ok (found, e)) : found = loc ∧ fs.entryAt? loc = some e := by
  obtain ⟨⟨n, hleads⟩, he⟩ := leads_of_find h
  obtain rfl : found = loc := hleads.of_isStraight hloc
  exact ⟨rfl, he⟩

/-- Everything stands in a directory, under a name. -/
structure IsTree (fs : FileSystem) : Prop where
  parent : ∀ {loc c e}, fs.entryAt? (loc ++ [c]) = some e → fs.entryAt? loc = some .directory
  name : ∀ {loc e}, fs.entryAt? loc = some e → ∀ c ∈ loc, IsFileName c

namespace IsTree

theorem of_entries (hparent : ∀ x ∈ fs.entries, x.1 ≠ [] → fs.isDirectoryAt x.1.dropLast)
    (hname : ∀ x ∈ fs.entries, ∀ c ∈ x.1, IsFileName c) : IsTree fs where
  parent {loc c e} he := by
    rcases mem_entries he with ⟨hroot, _⟩ | hmem
    · simp at hroot
    · have hd := hparent _ hmem (by simp)
      rw [List.dropLast_concat] at hd
      exact isDirectoryAt_iff.mp hd
  name {loc e} he := by
    rcases mem_entries he with ⟨rfl, _⟩ | hmem
    · simp
    · exact hname _ hmem

theorem above (h : IsTree fs) {loc pre : Location} {e : Entry} (he : fs.entryAt? loc = some e)
    (hpre : pre <+: loc) (hne : pre ≠ loc) : fs.entryAt? pre = some .directory := by
  induction loc using List.reverseRecOn generalizing e with
  | nil => exact absurd (List.prefix_nil.mp hpre) hne
  | append_singleton loc c ih =>
    rcases List.prefix_concat_iff.mp hpre with heq | hpre
    · exact absurd heq hne
    · by_cases heq : pre = loc
      · exact heq ▸ h.parent he
      · exact ih (h.parent he) hpre heq

theorem isStraight (h : IsTree fs) {loc : Location} {e : Entry} (he : fs.entryAt? loc = some e)
    (hl : ∀ target, e ≠ .link target) : IsStraight fs loc where
  component c hc := (h.name he c hc).component
  ne_up c hc := (h.name he c hc).ne_up
  not_link {pre} hpre target htarget := by
    by_cases heq : pre = loc
    · exact hl target (Option.some.inj (he.symm.trans (heq ▸ htarget)))
    · rw [h.above he hpre heq] at htarget
      cases htarget

/-- What stands below a directory that is found is found with the way to it, unless it is a
link. -/
theorem find_append (h : IsTree fs) {parts : List String} {base rel : Location} {e : Entry}
    (hbase : fs.find parts = .ok (base, .directory)) (hne : rel ≠ [])
    (he : fs.entryAt? (base ++ rel) = some e) (hl : ∀ target, e ≠ .link target) :
    fs.find (parts ++ rel) = .ok (base ++ rel, e) := by
  induction rel using List.reverseRecOn generalizing e with
  | nil => exact absurd rfl hne
  | append_singleton rel c ih =>
    rw [← List.append_assoc] at he ⊢
    have hname := h.name he c (List.mem_append_right _ List.mem_cons_self)
    have hparent : fs.find (parts ++ rel) = .ok (base ++ rel, .directory) := by
      by_cases hrel : rel = []
      · rwa [hrel, List.append_nil, List.append_nil]
      · exact ih hrel (h.parent he) (by simp)
    rw [← List.append_assoc]
    exact find_child hparent hname he hl

/-- What stands at a location of a tree is found there, unless it is a link. -/
theorem find (h : IsTree fs) {loc : Location} {e : Entry} (he : fs.entryAt? loc = some e)
    (hl : ∀ target, e ≠ .link target) : fs.find loc = .ok (loc, e) := by
  have hroot : fs.find [] = .ok ([], .directory) := by
    rw [find_eq_ok_iff, walk_nil]
    rfl
  by_cases hloc : loc = []
  · subst hloc
    obtain rfl := Option.some.inj he
    exact hroot
  · exact h.find_append hroot hloc he hl

/-- A new entry in a directory leaves a tree. -/
theorem put (h : IsTree fs) {loc : Location} {name : String}
    (hdir : fs.entryAt? loc = some .directory) (hname : IsFileName name)
    (hnone : fs.entryAt? (loc ++ [name]) = none) (e : Entry) :
    IsTree (fs.put (loc ++ [name]) e) where
  parent {x c e'} he := by
    rw [entryAt?_put fs (by simp)] at he
    have hold : fs.entryAt? x = some .directory := by
      split at he
      next heq =>
        obtain ⟨rfl, _⟩ := List.append_singleton_inj.mp heq
        exact hdir
      next => exact h.parent he
    exact extends_put hnone e hold
  name {x e'} he := by
    rw [entryAt?_put fs (by simp)] at he
    split at he
    next heq =>
      rw [heq]
      exact List.forall_mem_append.mpr ⟨h.name hdir, List.forall_mem_singleton.mpr hname⟩
    next => exact h.name he

end IsTree

end SolidityCalls.FileSystem
