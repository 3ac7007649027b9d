import SolidityCalls.Proofs.FileSystem.Keeps
import SolidityCalls.Proofs.FileSystem.Resolved

/-! Making directories and writing files: what was made or written is found afterwards under the
path it was given, and everything else is kept. -/
namespace SolidityCalls.FileSystem

variable {fs : FileSystem}

/-- A location that is reached without links: directories stand above it, and it is no link. -/
structure IsSettled (fs : FileSystem) (loc : Location) : Prop where
  above : ∀ {pre}, pre <+: loc → pre ≠ loc → fs.isDirectoryAt pre
  not_link : ∀ target, fs.entryAt? loc ≠ some (.link target)

theorem isDirectoryAt_iff {loc : Location} :
    fs.isDirectoryAt loc ↔ fs.entryAt? loc = some .directory := by
  unfold isDirectoryAt
  split <;> simp_all

theorem IsSettled.root (fs : FileSystem) : IsSettled fs [] where
  above hpre hne := absurd (List.prefix_nil.mp hpre) hne
  not_link target h := by cases h

theorem IsSettled.dropLast {loc : Location} (h : IsSettled fs loc) : IsSettled fs loc.dropLast := by
  have hpre := List.dropLast_prefix loc
  by_cases heq : loc.dropLast = loc
  · rw [heq]
    exact h
  · refine ⟨fun {pre} hp hne => ?_, fun target htarget => ?_⟩
    · refine h.above (hp.trans hpre) ?_
      rintro rfl
      exact hne (hp.eq_of_length_le hpre.length_le)
    · have hd := isDirectoryAt_iff.mp (h.above hpre heq)
      rw [hd] at htarget
      cases htarget

theorem IsSettled.append {here : Location} (h : IsSettled fs here) (hd : fs.isDirectoryAt here)
    {c : String} (hl : ∀ target, fs.entryAt? (here ++ [c]) ≠ some (.link target)) :
    IsSettled fs (here ++ [c]) where
  above {pre} hpre hne := by
    rcases List.prefix_concat_iff.mp hpre with heq | hpre
    · exact absurd heq hne
    · by_cases heq : pre = here
      · exact heq ▸ hd
      · exact h.above hpre heq
  not_link := hl

theorem IsSettled.linkBase {here : Location} (h : IsSettled fs here) (target : String) :
    IsSettled fs (linkBase target here) := by
  unfold FileSystem.linkBase
  split
  · exact .root fs
  · exact h

/-- A walk ends at a settled location, and tells what stands there. -/
theorem walk_end {created : Bool} {links : Nat} {here loc : Location} {parts : List String}
    {e : Option Entry} (hhere : IsSettled fs here)
    (h : fs.walk created links here parts = .ok (loc, e)) :
    IsSettled fs loc ∧ fs.entryAt? loc = e := by
  fun_induction walk fs created links here parts with
  | case1 _ here =>
    obtain ⟨rfl, he⟩ := Prod.mk.inj (Except.ok.inj h)
    exact ⟨hhere, he⟩
  | case3 _ _ _ _ _ _ ih => exact ih hhere h
  | case4 _ _ _ _ _ ih => exact ih hhere.dropLast h
  | case7 _ here c hd _ _ _ hnone _ =>
    obtain ⟨rfl, rfl⟩ := Prod.mk.inj (Except.ok.inj h)
    refine ⟨hhere.append (by simpa using hd) fun target htarget => ?_, hnone⟩
    rw [hnone] at htarget
    cases htarget
  | case10 here _ _ _ _ _ _ _ target _ _ ih => exact ih (hhere.linkBase target) h
  | case11 _ here c rest hd _ _ _ _ e₀ hl he₀ ih =>
    refine ih (hhere.append (by simpa using hd) fun target htarget => ?_) h
    exact hl target (Option.some.inj (he₀.symm.trans htarget))
  | case2 | case5 | case6 | case8 | case9 => cases h

theorem find_eq_ok_iff {parts : List String} {loc : Location} {e : Entry} :
    fs.find parts = .ok (loc, e) ↔ fs.walk false maxLinks [] parts = .ok (loc, some e) := by
  unfold find
  split <;> simp_all

/-- A location where a file may be written: nothing stands there, or a file. -/
def IsFree (fs : FileSystem) (loc : Location) : Prop :=
  ∀ e, fs.entryAt? loc = some e → ∃ content, e = .file content

theorem IsFree.ne_nil {loc : Location} (h : IsFree fs loc) : loc ≠ [] := by
  rintro rfl
  obtain ⟨content, hcontent⟩ := h .directory rfl
  cases hcontent

theorem keeps_put_file {loc : Location} (h : IsFree fs loc) (content : Content) :
    Keeps fs (fs.put loc (.file content)) := by
  have hother : ∀ {x : Location} {e : Entry}, fs.entryAt? x = some e → (∀ c, e ≠ .file c) →
      (fs.put loc (.file content)).entryAt? x = some e := by
    intro x e hx hfile
    rw [entryAt?_put fs h.ne_nil, if_neg]
    · exact hx
    · rintro rfl
      obtain ⟨c, rfl⟩ := h e hx
      exact hfile c rfl
  refine ⟨fun hx => hother hx (by simp), fun hx => hother hx (by simp), fun {x c} hx => ?_⟩
  rw [entryAt?_put fs h.ne_nil]
  split
  · exact ⟨content, rfl⟩
  · exact ⟨c, hx⟩

/-- After a file was written where a walk ended, the walk ends at the file. -/
theorem walk_put_file {created : Bool} {links : Nat} {here loc : Location} {parts : List String}
    {e : Option Entry} (hfree : IsFree fs loc) (content : Content)
    (h : fs.walk created links here parts = .ok (loc, e)) :
    (fs.put loc (.file content)).walk false links here parts =
      .ok (loc, some (.file content)) := by
  have hkeeps := keeps_put_file hfree content
  have hloc : (fs.put loc (.file content)).entryAt? loc = some (.file content) := by
    rw [entryAt?_put fs hfree.ne_nil, if_pos rfl]
  have hname : ∀ {c : String} {rest : List String}, IsName created c rest → IsName false c rest :=
    fun h => ⟨h.ne_dot, h.ne_up, by simp, h.not_long⟩
  fun_induction walk fs created links here parts with
  | case1 _ here =>
    obtain ⟨rfl, _⟩ := Prod.mk.inj (Except.ok.inj h)
    rw [walk, hloc]
  | case3 _ here c rest hd hc ih =>
    exact (walk_stay (hkeeps.isDirectoryAt (by simpa using hd)) hc).trans (ih h)
  | case4 _ here rest hd _ ih =>
    exact (walk_up (hkeeps.isDirectoryAt (by simpa using hd))).trans (ih h)
  | case7 _ here c hd hc hup hlong hnone hslash =>
    obtain ⟨rfl, _⟩ := Prod.mk.inj (Except.ok.inj h)
    rw [walk_down (hkeeps.isDirectoryAt (by simpa using hd)) (hname ⟨hc, hup, hslash, hlong⟩) hloc
      (by simp), walk, hloc]
  | case10 here c rest hd hc hup hslash hlong target htarget links ih =>
    exact (walk_follow (hkeeps.isDirectoryAt (by simpa using hd))
      (hname ⟨hc, hup, hslash, hlong⟩) (hkeeps.link htarget)).trans (ih h)
  | case11 _ here c rest hd hc hup hslash hlong e₀ hl he₀ ih =>
    obtain ⟨e₁, he₁, hl₁⟩ := hkeeps.entryAt he₀
    exact (walk_down (hkeeps.isDirectoryAt (by simpa using hd))
      (hname ⟨hc, hup, hslash, hlong⟩) he₁ (hl₁ hl)).trans (ih h)
  | case2 | case5 | case6 | case8 | case9 => cases h

theorem walk_nil (created : Bool) (links : Nat) (here : Location) :
    fs.walk created links here [] = .ok (here, fs.entryAt? here) := by
  rw [walk]

theorem not_isTrailingSlash_concat (rest : List String) {name : String} (h : name ≠ "") :
    ¬ isTrailingSlash (rest ++ [name]) := by
  simp [isTrailingSlash, h]

/-- A walk goes on with one more name from the directory that the first components lead to. -/
theorem walk_concat {created : Bool} {links : Nat} {here loc : Location} {parts : List String}
    {name : String} (h : fs.walk false links here parts = .ok (loc, some .directory))
    (hname : name ≠ "") :
    ∃ left, fs.walk created links here (parts ++ [name]) = fs.walk created left loc [name] := by
  have hslash : ∀ rest : List String, ¬ (created && isTrailingSlash (rest ++ [name])) := by
    intro rest
    simp [not_isTrailingSlash_concat rest hname]
  fun_induction walk fs false links here parts with
  | case1 links here =>
    obtain ⟨rfl, _⟩ := Prod.mk.inj (Except.ok.inj h)
    exact ⟨links, rfl⟩
  | case3 _ here c rest hd hc ih =>
    obtain ⟨left, hleft⟩ := ih h
    exact ⟨left, (walk_stay (by simpa using hd) hc).trans hleft⟩
  | case4 _ here rest hd _ ih =>
    obtain ⟨left, hleft⟩ := ih h
    exact ⟨left, (walk_up (by simpa using hd)).trans hleft⟩
  | case10 here c rest hd hc hup _ hlong target htarget links ih =>
    obtain ⟨left, hleft⟩ := ih h
    refine ⟨left, ?_⟩
    rw [List.cons_append, walk_follow (by simpa using hd) ⟨hc, hup, hslash rest, hlong⟩ htarget,
      ← List.append_assoc, hleft]
  | case11 _ here c rest hd hc hup _ hlong e₀ hl₀ he₀ ih =>
    obtain ⟨left, hleft⟩ := ih h
    exact ⟨left, (walk_down (by simpa using hd) ⟨hc, hup, hslash rest, hlong⟩ he₀ hl₀).trans hleft⟩
  | case2 | case5 | case6 | case7 | case8 | case9 => cases h

/-- A name that can be given to a file. -/
structure IsFileName (name : String) : Prop where
  component : IsComponent name
  ne_up : name ≠ ".."
  not_long : ¬ isOverlong name

instance (name : String) : Decidable (IsFileName name) :=
  decidable_of_iff (IsComponent name ∧ name ≠ ".." ∧ ¬ isOverlong name)
    ⟨fun h => ⟨h.1, h.2.1, h.2.2⟩, fun h => ⟨h.component, h.ne_up, h.not_long⟩⟩

theorem IsFileName.isName {name : String} (h : IsFileName name) (created : Bool) :
    IsName created name [] :=
  ⟨not_or.mpr ⟨h.component.ne_empty, h.component.ne_dot⟩, h.ne_up, by simp [isTrailingSlash],
    h.not_long⟩

/-- What a walk finds under a name in a directory, unless a link stands there. -/
theorem walk_name {created : Bool} {links : Nat} {loc : Location} {name : String}
    (hd : fs.isDirectoryAt loc) (hname : IsFileName name)
    (hl : ∀ target, fs.entryAt? (loc ++ [name]) ≠ some (.link target)) :
    fs.walk created links loc [name] = .ok (loc ++ [name], fs.entryAt? (loc ++ [name])) := by
  cases he : fs.entryAt? (loc ++ [name]) with
  | some e =>
    have hlink : ∀ target, e ≠ .link target := fun target h => hl target (h ▸ he)
    rw [walk_down hd (hname.isName created) he hlink, walk_nil, he]
  | none =>
    have hc := hname.isName created
    rw [walk, if_neg (by simp [hd]), if_neg hc.ne_dot, if_neg hc.ne_up, if_neg hc.no_slash,
      if_neg hc.not_long]
    simp only [he, if_true]

theorem find_directory {parts : List String} {loc : Location}
    (h : fs.find parts = .ok (loc, .directory)) : fs.isDirectoryAt loc :=
  isDirectoryAt_iff.mpr (walk_end (.root fs) (find_eq_ok_iff.mp h)).2

theorem walk_child (created : Bool) {loc : Location} {parts : List String} {name : String}
    (h : fs.find parts = .ok (loc, .directory)) (hname : IsFileName name)
    (hl : ∀ target, fs.entryAt? (loc ++ [name]) ≠ some (.link target)) :
    fs.walk created maxLinks [] (parts ++ [name]) =
      .ok (loc ++ [name], fs.entryAt? (loc ++ [name])) := by
  obtain ⟨left, hleft⟩ := walk_concat (find_eq_ok_iff.mp h) hname.component.ne_empty
  rw [hleft, walk_name (find_directory h) hname hl]

/-- What stands under a name in a directory is found, unless it is a link. -/
theorem find_child {loc : Location} {parts : List String} {name : String} {e : Entry}
    (h : fs.find parts = .ok (loc, .directory)) (hname : IsFileName name)
    (he : fs.entryAt? (loc ++ [name]) = some e) (hl : ∀ target, e ≠ .link target) :
    fs.find (parts ++ [name]) = .ok (loc ++ [name], e) := by
  rw [find_eq_ok_iff, walk_child false h hname (fun target htarget => hl target ?_), he]
  exact Option.some.inj (he.symm.trans htarget)

/-- The components before the last one lead to a directory. -/
theorem walk_parent {links : Nat} {here loc : Location} {parts : List String} {c : String}
    {e : Entry} (h : fs.walk false links here (parts ++ [c]) = .ok (loc, some e)) :
    ∃ mid, fs.walk false links here parts = .ok (mid, some .directory) := by
  fun_induction walk fs false links here parts with
  | case1 _ here =>
    rw [List.nil_append, walk] at h
    split at h
    next => cases h
    next hd => exact ⟨here, by rw [isDirectoryAt_iff.mp (by simpa using hd)]⟩
  | case3 _ here _ rest hd hc ih =>
    rw [List.cons_append, walk_stay (by simpa using hd) hc] at h
    exact ih h
  | case4 _ here rest hd _ ih =>
    rw [List.cons_append, walk_up (by simpa using hd)] at h
    exact ih h
  | case10 here d rest hd hc hup _ hlong target htarget links ih =>
    rw [List.cons_append, walk_follow (by simpa using hd) ⟨hc, hup, by simp, hlong⟩ htarget,
      ← List.append_assoc] at h
    exact ih h
  | case11 _ here d rest hd hc hup _ hlong e₀ hl₀ he₀ ih =>
    rw [List.cons_append, walk_down (by simpa using hd) ⟨hc, hup, by simp, hlong⟩ he₀ hl₀] at h
    exact ih h
  | case2 _ here d rest hd =>
    rw [List.cons_append, walk, if_pos hd] at h
    cases h
  | case5 _ here d rest hd hc hup hslash => simp at hslash
  | case6 _ here d rest hd hc hup _ hlong =>
    rw [List.cons_append, walk, if_neg hd, if_neg hc, if_neg hup, if_neg (by simp),
      if_pos hlong] at h
    cases h
  | case7 _ here d hd hc hup hlong hnone _ =>
    rw [List.cons_append, walk, if_neg hd, if_neg hc, if_neg hup, if_neg (by simp),
      if_neg hlong] at h
    simp [hnone] at h
  | case8 _ here d rest hd hc hup _ hlong hnone _ =>
    rw [List.cons_append, walk, if_neg hd, if_neg hc, if_neg hup, if_neg (by simp),
      if_neg hlong] at h
    simp [hnone] at h
  | case9 here d rest hd hc hup _ hlong target htarget =>
    rw [List.cons_append, walk, if_neg hd, if_neg hc, if_neg hup, if_neg (by simp),
      if_neg hlong] at h
    simp [htarget] at h

/-- A walk that fails on its way fails with more components too. -/
theorem walk_append_of_error {links : Nat} {here : Location}
    {parts : List String} {e : SystemError} (h : fs.walk false links here parts = .error e)
    (more : List String) : fs.walk false links here (parts ++ more) = .error e := by
  fun_induction walk fs false links here parts with
  | case1 => cases h
  | case2 _ here c rest hd => rwa [List.cons_append, walk, if_pos hd]
  | case3 _ here _ rest hd hc ih =>
    rw [List.cons_append, walk_stay (by simpa using hd) hc]
    exact ih h
  | case4 _ here rest hd _ ih =>
    rw [List.cons_append, walk_up (by simpa using hd)]
    exact ih h
  | case5 _ here c rest hd hc hup hslash => simp at hslash
  | case6 _ here c rest hd hc hup _ hlong =>
    rwa [List.cons_append, walk, if_neg hd, if_neg hc, if_neg hup, if_neg (by simp),
      if_pos hlong]
  | case7 => cases h
  | case8 _ here c rest hd hc hup _ hlong hnone hrest =>
    rwa [List.cons_append, walk_missing (by simpa using hd) ⟨hc, hup, by simp, hlong⟩ hnone
      (List.append_ne_nil_of_left_ne_nil hrest more)]
  | case9 here c rest hd hc hup _ hlong target htarget =>
    rwa [List.cons_append, walk_exhausted (by simpa using hd) ⟨hc, hup, by simp, hlong⟩ htarget]
  | case10 here c rest hd hc hup _ hlong target htarget links ih =>
    rw [List.cons_append, walk_follow (by simpa using hd) ⟨hc, hup, by simp, hlong⟩ htarget,
      ← List.append_assoc]
    exact ih h
  | case11 _ here c rest hd hc hup _ hlong e₀ hl₀ he₀ ih =>
    rw [List.cons_append, walk_down (by simpa using hd) ⟨hc, hup, by simp, hlong⟩ he₀ hl₀]
    exact ih h

theorem find_append_of_nameTooLong {parts : List String}
    (h : fs.find parts = .error .nameTooLong) (more : List String) :
    fs.find (parts ++ more) = .error .nameTooLong := by
  have hwalk : fs.walk false maxLinks [] parts = .error .nameTooLong := by
    unfold find at h
    split at h
    next => cases h
    next => cases h
    next e hwalk => rw [hwalk, Except.error.inj h]
  rw [find, walk_append_of_error hwalk]

/-- A new directory stands where nothing stood, in a directory that was there. -/
theorem makeDirectory_spec {parts : List String} {fs' : FileSystem}
    (h : fs.makeDirectory parts = .ok fs') :
    ∃ above name loc, parts = above ++ [name] ∧ name ≠ ".." ∧ ¬ isOverlong name ∧
      fs.find above = .ok (loc, .directory) ∧ fs.entryAt? (loc ++ [name]) = none ∧
      fs' = fs.put (loc ++ [name]) .directory := by
  unfold makeDirectory at h
  split at h
  next => cases h
  next name hname =>
    have hparts : parts = parts.dropLast ++ [name] := by
      obtain ⟨ys, rfl⟩ := List.getLast?_eq_some_iff.mp hname
      simp
    split at h
    next => split at h <;> cases h
    next hup =>
      split at h
      next => cases h
      next loc hfind =>
        split at h
        next => cases h
        next hlong =>
          split at h
          next => cases h
          next hnone =>
            exact ⟨_, name, loc, hparts, hup, hlong, hfind, hnone, (Except.ok.inj h).symm⟩
      next => cases h

theorem makeDirectory_extends {parts : List String} {fs' : FileSystem}
    (h : fs.makeDirectory parts = .ok fs') : Extends fs fs' := by
  obtain ⟨_, _, _, _, _, _, _, hnone, rfl⟩ := makeDirectory_spec h
  exact extends_put hnone .directory

theorem makeDirectory_find {parts : List String} {fs' : FileSystem}
    (hparts : ∀ c ∈ parts, IsComponent c) (h : fs.makeDirectory parts = .ok fs') :
    ∃ loc, fs'.find parts = .ok (loc, .directory) := by
  obtain ⟨above, name, loc, rfl, hup, hlong, hfind, hnone, rfl⟩ := makeDirectory_spec h
  have hname : IsFileName name :=
    ⟨hparts name (List.mem_append_right _ List.mem_cons_self), hup, hlong⟩
  have hextends := extends_put hnone .directory
  obtain ⟨e', hwalk, he'⟩ := hextends.keeps.walk (find_eq_ok_iff.mp hfind)
  have hdir : fs.entryAt? loc = some .directory := (walk_end (.root fs) (find_eq_ok_iff.mp hfind)).2
  rw [hextends hdir] at he'
  obtain rfl := Option.some.inj he'
  have hnew : (fs.put (loc ++ [name]) .directory).entryAt? (loc ++ [name]) = some .directory := by
    rw [entryAt?_put fs (by simp), if_pos rfl]
  exact ⟨_, find_child (find_eq_ok_iff.mpr hwalk) hname hnew (by simp)⟩

theorem ensureDirectory_spec {parts : List String} {fs' : FileSystem}
    (h : fs.ensureDirectory parts = .ok fs') :
    fs.makeDirectory parts = .ok fs' ∨ fs' = fs ∧ ∃ loc, fs.find parts = .ok (loc, .directory) := by
  unfold ensureDirectory at h
  split at h
  next hmake => exact .inl (hmake.trans h)
  next => cases h
  next =>
    split at h
    next loc hfind => exact .inr ⟨(Except.ok.inj h).symm, loc, hfind⟩
    next => cases h
    next => cases h

/-- A directory that is there is not made again. -/
theorem ensureDirectory_of_find {parts : List String} {loc : Location}
    (hparts : ∀ c ∈ parts, IsComponent c) (h : fs.find parts = .ok (loc, .directory)) :
    fs.ensureDirectory parts = .ok fs := by
  unfold ensureDirectory
  split
  next fs' hmake =>
    obtain ⟨above, name, loc', rfl, hup, hlong, hfind, hnone, _⟩ := makeDirectory_spec hmake
    have hname : IsFileName name :=
      ⟨hparts name (List.mem_append_right _ List.mem_cons_self), hup, hlong⟩
    have hwalk := walk_child false hfind hname (by simp [hnone])
    rw [find_eq_ok_iff.mp h, hnone] at hwalk
    cases (Prod.mk.inj (Except.ok.inj hwalk)).2
  next hmake =>
    -- Neither the directory nor the one above it is missing.
    unfold makeDirectory at hmake
    split at hmake
    next => cases hmake
    next name hlast =>
      obtain ⟨above, rfl⟩ := List.getLast?_eq_some_iff.mp hlast
      obtain ⟨mid, hmid⟩ := walk_parent (find_eq_ok_iff.mp h)
      simp only [List.dropLast_concat, find_eq_ok_iff.mpr hmid, h] at hmake
      split_ifs at hmake
      all_goals try cases hmake
      split at hmake <;> cases hmake
  next => rw [h]

theorem ensureDirectories_of_find {base reversed : List String} {loc : Location}
    (hparts : ∀ c ∈ base ++ reversed.reverse, IsComponent c)
    (h : fs.find (base ++ reversed.reverse) = .ok (loc, .directory)) :
    fs.ensureDirectories base reversed = (fs, none) := by
  have hensure := ensureDirectory_of_find hparts h
  unfold ensureDirectories
  split
  next => simp [show fs.ensureDirectory base = .ok fs by simpa using hensure]
  next => simp only [hensure]

/-- Directories on the way to a target are made one after the other. -/
inductive MakesDirectories (target : List String) (fs : FileSystem) : FileSystem → Prop where
  | refl : MakesDirectories target fs fs
  | step {fs₁ fs₂ : FileSystem} {parts : List String} (before : MakesDirectories target fs fs₁)
      (onWay : parts <+: target) (make : fs₁.makeDirectory parts = .ok fs₂) :
      MakesDirectories target fs fs₂

namespace MakesDirectories

variable {target : List String} {fs' : FileSystem}

theorem trans {fs₁ fs₂ : FileSystem} (h₁ : MakesDirectories target fs fs₁)
    (h₂ : MakesDirectories target fs₁ fs₂) : MakesDirectories target fs fs₂ := by
  induction h₂ with
  | refl => exact h₁
  | step _ onWay make ih => exact .step ih onWay make

theorem further {target' : List String} (h : MakesDirectories target fs fs')
    (htarget : target <+: target') : MakesDirectories target' fs fs' := by
  induction h with
  | refl => exact .refl
  | step _ onWay make ih => exact .step ih (onWay.trans htarget) make

theorem toExtends (h : MakesDirectories target fs fs') : Extends fs fs' := by
  induction h with
  | refl => exact fun _ _ => id
  | step _ _ make ih => exact fun _ _ hloc => makeDirectory_extends make (ih hloc)

end MakesDirectories

theorem ensureDirectory_makes {parts : List String} {fs' : FileSystem}
    (h : fs.ensureDirectory parts = .ok fs') : MakesDirectories parts fs fs' := by
  rcases ensureDirectory_spec h with hmake | ⟨rfl, _⟩
  · exact .step .refl (List.prefix_refl parts) hmake
  · exact .refl

theorem ensureDirectory_find {parts : List String} {fs' : FileSystem}
    (hparts : ∀ c ∈ parts, IsComponent c) (h : fs.ensureDirectory parts = .ok fs') :
    ∃ loc, fs'.find parts = .ok (loc, .directory) := by
  rcases ensureDirectory_spec h with hmake | ⟨rfl, hfind⟩
  · exact makeDirectory_find hparts hmake
  · exact hfind

/-- Whatever the outcome, nothing but directories on the way is made. -/
theorem ensureDirectories_makes (fs : FileSystem) (base reversed : List String) :
    MakesDirectories (base ++ reversed.reverse) fs (fs.ensureDirectories base reversed).1 := by
  have hfurther : ∀ {name : String} {above : List String} {fs fs' : FileSystem},
      MakesDirectories (base ++ above.reverse) fs fs' →
      MakesDirectories (base ++ (name :: above).reverse) fs fs' := by
    intro name above fs fs' h
    refine h.further ?_
    rw [List.reverse_cons, ← List.append_assoc]
    exact List.prefix_append _ _
  fun_induction ensureDirectories fs base reversed with
  | case1 fs' h =>
    rw [List.reverse_nil, List.append_nil]
    exact ensureDirectory_makes h
  | case3 name above fs' h => exact ensureDirectory_makes h
  | case4 name above _ fs' e hrest ih =>
    rw [hrest] at ih
    exact hfurther ih
  | case5 name above _ fs' hrest fs'' hlast ih =>
    rw [hrest] at ih
    exact (hfurther ih).trans (ensureDirectory_makes hlast)
  | case6 name above _ fs' hrest e hlast ih =>
    rw [hrest] at ih
    exact hfurther ih
  | case2 | case7 => exact .refl

theorem ensureDirectories_find {base reversed : List String} {fs' : FileSystem}
    (hparts : ∀ c ∈ base ++ reversed.reverse, IsComponent c)
    (h : fs.ensureDirectories base reversed = (fs', none)) :
    ∃ loc, fs'.find (base ++ reversed.reverse) = .ok (loc, .directory) := by
  unfold ensureDirectories at h
  split at h
  next =>
    split at h
    next hbase =>
      obtain ⟨rfl, _⟩ := Prod.mk.inj h
      exact ensureDirectory_find hparts (by simpa using hbase)
    next => simp at h
  next name above =>
    split at h
    next hfirst =>
      obtain ⟨rfl, _⟩ := Prod.mk.inj h
      exact ensureDirectory_find hparts hfirst
    next =>
      split at h
      next => simp at h
      next =>
        split at h
        next hsecond =>
          obtain ⟨rfl, _⟩ := Prod.mk.inj h
          exact ensureDirectory_find hparts hsecond
        next => simp at h
    next => simp at h

/-- A written file is found, and it stands where nothing or a file stood. -/
theorem writeFile_spec {parts : List String} {content : Content} {fs' : FileSystem}
    (h : fs.writeFile parts content = .ok fs') :
    ∃ loc, IsFree fs loc ∧ fs' = fs.put loc (.file content) ∧
      fs'.find parts = .ok (loc, .file content) := by
  unfold writeFile at h
  split at h
  next => cases h
  next => cases h
  next loc e hdirectory hwalk =>
    obtain ⟨hsettled, hentry⟩ := walk_end (.root fs) hwalk
    have hfree : IsFree fs loc := by
      intro e' he'
      cases e' with
      | directory => exact absurd (hentry.symm.trans he') hdirectory
      | link target => exact absurd he' (hsettled.not_link target)
      | file content => exact ⟨content, rfl⟩
    obtain rfl := Except.ok.inj h
    exact ⟨loc, hfree, rfl, find_eq_ok_iff.mpr (walk_put_file hfree content hwalk)⟩

end SolidityCalls.FileSystem
