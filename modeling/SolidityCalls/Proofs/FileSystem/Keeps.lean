import SolidityCalls.FileSystem.Edit
import SolidityCalls.Proofs.FileSystem.Walk

/-! What changes to a file system leave as it was. Making directories and writing files keeps all
directories and links and leaves files where they are, so a walk that arrived somewhere still
arrives there. -/
namespace SolidityCalls.FileSystem

theorem entryAt?_nil (fs : FileSystem) : fs.entryAt? [] = some .directory := rfl

theorem lookup_filter_ne {α β : Type} [BEq α] [LawfulBEq α] [DecidableEq α] (xs : List (α × β))
    {k k' : α} (h : k ≠ k') : (xs.filter fun x => x.1 ≠ k').lookup k = xs.lookup k := by
  induction xs with
  | nil => rfl
  | cons x xs ih =>
    by_cases hx : x.1 = k'
    · rw [List.filter_cons_of_neg (by simpa using hx), ih, List.lookup_cons,
        beq_false_of_ne (hx ▸ h)]
    · rw [List.filter_cons_of_pos (by simpa using hx), List.lookup_cons, List.lookup_cons, ih]

/-- A change at one location shows there and nowhere else. -/
theorem entryAt?_put (fs : FileSystem) {loc : Location} (hloc : loc ≠ []) (e : Entry)
    (x : Location) : (fs.put loc e).entryAt? x = if x = loc then some e else fs.entryAt? x := by
  unfold entryAt? put
  by_cases hx : x = loc
  · subst hx
    have hnone : (fs.entries.filter fun y => y.1 ≠ x).lookup x = none := by
      rw [List.lookup_eq_none_iff]
      intro y hy
      have hne : y.1 ≠ x := by simpa using (List.mem_filter.mp hy).2
      simpa using hne.symm
    rw [if_neg hloc, if_pos rfl, List.lookup_append, hnone]
    simp
  · rw [if_neg hx]
    split
    next => rfl
    next =>
      rw [List.lookup_append, lookup_filter_ne _ hx, List.lookup_cons, beq_false_of_ne hx]
      simp

section Step

variable {fs : FileSystem} {created : Bool} {links : Nat} {here : Location} {c : String}
  {rest : List String}

theorem walk_stay (hd : fs.isDirectoryAt here) (hc : c = "" ∨ c = ".") :
    fs.walk created links here (c :: rest) = fs.walk created links here rest := by
  rw [walk, if_neg (by simp [hd]), if_pos hc]

theorem walk_up (hd : fs.isDirectoryAt here) :
    fs.walk created links here (".." :: rest) = fs.walk created links here.dropLast rest := by
  rw [walk, if_neg (by simp [hd]), if_neg (by simp), if_pos rfl]

/-- A component that names something in the directory it is looked up in. -/
structure IsName (created : Bool) (c : String) (rest : List String) : Prop where
  ne_dot : ¬ (c = "" ∨ c = ".")
  ne_up : c ≠ ".."
  no_slash : ¬ (created && isTrailingSlash rest)
  not_long : ¬ isOverlong c

theorem walk_down (hd : fs.isDirectoryAt here) (hc : IsName created c rest) {e : Entry}
    (he : fs.entryAt? (here ++ [c]) = some e) (hl : ∀ target, e ≠ .link target) :
    fs.walk created links here (c :: rest) = fs.walk created links (here ++ [c]) rest := by
  rw [walk, if_neg (by simp [hd]), if_neg hc.ne_dot, if_neg hc.ne_up, if_neg hc.no_slash,
    if_neg hc.not_long]
  cases e with
  | link target => exact absurd rfl (hl target)
  | directory => simp only [he]
  | file content => simp only [he]

theorem walk_follow (hd : fs.isDirectoryAt here) (hc : IsName created c rest) {target : String}
    (he : fs.entryAt? (here ++ [c]) = some (.link target)) :
    fs.walk created (links + 1) here (c :: rest) =
      fs.walk created links (linkBase target here) (Path.pieces target ++ rest) := by
  rw [walk, if_neg (by simp [hd]), if_neg hc.ne_dot, if_neg hc.ne_up, if_neg hc.no_slash,
    if_neg hc.not_long]
  simp only [he]

theorem walk_missing (hd : fs.isDirectoryAt here) (hc : IsName created c rest)
    (he : fs.entryAt? (here ++ [c]) = none) (hrest : rest ≠ []) :
    fs.walk created links here (c :: rest) = .error .notFound := by
  rw [walk, if_neg (by simp [hd]), if_neg hc.ne_dot, if_neg hc.ne_up, if_neg hc.no_slash,
    if_neg hc.not_long]
  simp only [he, hrest, if_false]

theorem walk_exhausted (hd : fs.isDirectoryAt here) (hc : IsName created c rest) {target : String}
    (he : fs.entryAt? (here ++ [c]) = some (.link target)) :
    fs.walk created 0 here (c :: rest) = .error .tooManyLinks := by
  rw [walk, if_neg (by simp [hd]), if_neg hc.ne_dot, if_neg hc.ne_up, if_neg hc.no_slash,
    if_neg hc.not_long]
  simp only [he]

end Step

/-- Directories and links are as they were, and where a file was there still is one. -/
structure Keeps (fs fs' : FileSystem) : Prop where
  directory : ∀ {loc}, fs.entryAt? loc = some .directory → fs'.entryAt? loc = some .directory
  link : ∀ {loc target}, fs.entryAt? loc = some (.link target) →
    fs'.entryAt? loc = some (.link target)
  file : ∀ {loc content}, fs.entryAt? loc = some (.file content) →
    ∃ content', fs'.entryAt? loc = some (.file content')

namespace Keeps

variable {fs fs' fs'' : FileSystem}

theorem refl (fs : FileSystem) : Keeps fs fs := ⟨id, id, fun h => ⟨_, h⟩⟩

theorem trans (h : Keeps fs fs') (h' : Keeps fs' fs'') : Keeps fs fs'' where
  directory hloc := h'.directory (h.directory hloc)
  link hloc := h'.link (h.link hloc)
  file hloc := by
    obtain ⟨content, hcontent⟩ := h.file hloc
    exact h'.file hcontent

/-- Something stands where something stood, and a link only where the same link stood. -/
theorem entryAt (h : Keeps fs fs') {loc : Location} {e : Entry} (he : fs.entryAt? loc = some e) :
    ∃ e', fs'.entryAt? loc = some e' ∧
      ((∀ target, e ≠ .link target) → ∀ target, e' ≠ .link target) := by
  cases e with
  | directory => exact ⟨_, h.directory he, fun _ _ => by simp⟩
  | link target => exact ⟨_, h.link he, fun hl => hl⟩
  | file content =>
    obtain ⟨content', hcontent⟩ := h.file he
    exact ⟨_, hcontent, fun _ _ => by simp⟩

theorem isDirectoryAt (h : Keeps fs fs') {loc : Location} (hd : fs.isDirectoryAt loc) :
    fs'.isDirectoryAt loc := by
  unfold FileSystem.isDirectoryAt at hd
  split at hd
  next hloc => simp only [FileSystem.isDirectoryAt, h.directory hloc]
  next => cases hd

/-- A walk that arrives at an entry arrives at the same location after the change. -/
theorem walk (h : Keeps fs fs') {created : Bool} {links : Nat} {here loc : Location}
    {parts : List String} {e : Entry}
    (hwalk : fs.walk created links here parts = .ok (loc, some e)) :
    ∃ e', fs'.walk created links here parts = .ok (loc, some e') ∧
      fs'.entryAt? loc = some e' := by
  fun_induction FileSystem.walk fs created links here parts with
  | case1 _ here =>
    obtain ⟨rfl, he⟩ := Prod.mk.inj (Except.ok.inj hwalk)
    obtain ⟨e', he', _⟩ := h.entryAt he
    exact ⟨e', by rw [FileSystem.walk, he'], he'⟩
  | case3 _ here c rest hd hc ih =>
    obtain ⟨e', hwalk', he'⟩ := ih hwalk
    exact ⟨e', (walk_stay (h.isDirectoryAt (by simpa using hd)) hc).trans hwalk', he'⟩
  | case4 _ here rest hd _ ih =>
    obtain ⟨e', hwalk', he'⟩ := ih hwalk
    exact ⟨e', (walk_up (h.isDirectoryAt (by simpa using hd))).trans hwalk', he'⟩
  | case10 here c rest hd hc hup hslash hlong target htarget links ih =>
    obtain ⟨e', hwalk', he'⟩ := ih hwalk
    have hname : IsName created c rest := ⟨hc, hup, hslash, hlong⟩
    exact ⟨e', (walk_follow (h.isDirectoryAt (by simpa using hd)) hname
      (h.link htarget)).trans hwalk', he'⟩
  | case11 _ here c rest hd hc hup hslash hlong e₀ hl he₀ ih =>
    obtain ⟨e', hwalk', he'⟩ := ih hwalk
    have hname : IsName created c rest := ⟨hc, hup, hslash, hlong⟩
    obtain ⟨e₁, he₁, hl₁⟩ := h.entryAt he₀
    exact ⟨e', (walk_down (h.isDirectoryAt (by simpa using hd)) hname he₁
      (hl₁ hl)).trans hwalk', he'⟩
  | case2 | case5 | case6 | case7 | case8 | case9 => cases hwalk

end Keeps

/-- Everything that stood anywhere stands there still. -/
def Extends (fs fs' : FileSystem) : Prop :=
  ∀ ⦃loc e⦄, fs.entryAt? loc = some e → fs'.entryAt? loc = some e

theorem Extends.keeps {fs fs' : FileSystem} (h : Extends fs fs') : Keeps fs fs' :=
  ⟨fun hloc => h hloc, fun hloc => h hloc, fun hloc => ⟨_, h hloc⟩⟩

theorem extends_put {fs : FileSystem} {loc : Location} (h : fs.entryAt? loc = none) (e : Entry) :
    Extends fs (fs.put loc e) := by
  have hloc : loc ≠ [] := by
    rintro rfl
    cases h
  intro x e' hx
  rw [entryAt?_put fs hloc, if_neg]
  · exact hx
  · rintro rfl
    rw [h] at hx
    cases hx

end SolidityCalls.FileSystem
