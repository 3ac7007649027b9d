import SolidityCalls.Proofs.FileSystem.Straight

/-! Growth of a file system: entries are added, none of them a link. Resolution follows links only,
so it does not notice; a walk notices where it came to a place at which nothing stood before. -/
namespace SolidityCalls.FileSystem

variable {fs fs' : FileSystem} {added : List (Location × Entry)}

structure Grows (fs fs' : FileSystem) (added : List (Location × Entry)) : Prop where
  entries : fs'.entries = fs.entries ++ added
  not_link : ∀ x ∈ added, ∀ target, x.2 ≠ .link target

namespace Grows

theorem refl (fs : FileSystem) : Grows fs fs [] := ⟨(List.append_nil _).symm, by simp⟩

theorem trans {fs'' : FileSystem} {more : List (Location × Entry)} (h : Grows fs fs' added)
    (h' : Grows fs' fs'' more) : Grows fs fs'' (added ++ more) where
  entries := by rw [h'.entries, h.entries, List.append_assoc]
  not_link := List.forall_mem_append.mpr ⟨h.not_link, h'.not_link⟩

theorem put {loc : Location} (hnone : fs.entryAt? loc = none) {e : Entry}
    (hl : ∀ target, e ≠ .link target) : Grows fs (fs.put loc e) [(loc, e)] where
  entries := by
    have hloc : loc ≠ [] := by
      rintro rfl
      cases hnone
    rw [entryAt?, if_neg hloc, List.lookup_eq_none_iff] at hnone
    refine congrArg (· ++ [(loc, e)]) (List.filter_eq_self.mpr fun x hx => ?_)
    have hne : loc ≠ x.1 := by simpa using hnone x hx
    simpa using hne.symm
  not_link := by simpa using hl

theorem entryAt? (h : Grows fs fs' added) (loc : Location) :
    fs'.entryAt? loc = (fs.entryAt? loc).or (added.lookup loc) := by
  unfold FileSystem.entryAt?
  split
  · rfl
  · rw [h.entries, List.lookup_append]

theorem toExtends (h : Grows fs fs' added) : Extends fs fs' := by
  intro loc e he
  rw [h.entryAt?, he, Option.some_or]

theorem mem_lookup {loc : Location} {e : Entry} (h : added.lookup loc = some e) :
    (loc, e) ∈ added := by
  obtain ⟨before, after, rfl, _⟩ := List.lookup_eq_some_iff.mp h
  simp

/-- What stands somewhere stood there before or was added. -/
theorem mem_added (h : Grows fs fs' added) {loc : Location} {e : Entry}
    (he : fs'.entryAt? loc = some e) (hnone : fs.entryAt? loc = none) : (loc, e) ∈ added := by
  rw [h.entryAt?, hnone, Option.none_or] at he
  exact mem_lookup he

theorem link_iff (h : Grows fs fs' added) {loc : Location} {target : String} :
    fs'.entryAt? loc = some (.link target) ↔ fs.entryAt? loc = some (.link target) := by
  refine ⟨fun he => ?_, fun he => h.toExtends he⟩
  cases hloc : fs.entryAt? loc with
  | some e => rw [← h.toExtends hloc, he]
  | none => exact absurd rfl (h.not_link _ (h.mem_added he hloc) target)

theorem isStraight_iff (h : Grows fs fs' added) {loc : Location} :
    IsStraight fs' loc ↔ IsStraight fs loc :=
  ⟨fun hs => ⟨hs.component, hs.ne_up, fun hpre _ ht => hs.not_link hpre _ (h.link_iff.mpr ht)⟩,
    fun hs => ⟨hs.component, hs.ne_up, fun hpre _ ht => hs.not_link hpre _ (h.link_iff.mp ht)⟩⟩

/-- Resolution does not notice what was added. -/
theorem resolveFrom (h : Grows fs fs' added) (active : List Reached) (relative : Bool)
    (here : Location) (parts : List String) :
    fs'.resolveFrom active relative here parts = fs.resolveFrom active relative here parts := by
  fun_induction FileSystem.resolveFrom fs active relative here parts with
  | case1 => rw [FileSystem.resolveFrom]
  | case2 _ _ here c rest hc ih => rw [FileSystem.resolveFrom, if_pos hc, ih]
  | case3 _ _ here rest hc ih => rw [FileSystem.resolveFrom, if_neg hc, if_pos rfl, ih]
  | case4 _ _ here c rest hc hup target htarget hactive =>
    rw [resolveFrom_of_link hc hup (h.link_iff.mpr htarget), if_pos hactive]
  | case5 _ _ here c rest hc hup target htarget hactive _ loc hmid ihtarget ihrest =>
    rw [resolveFrom_of_link hc hup (h.link_iff.mpr htarget), if_neg hactive, ihtarget, hmid]
    exact ihrest
  | case6 _ _ here c rest hc hup target htarget hactive left hleft ih =>
    rw [resolveFrom_of_link hc hup (h.link_iff.mpr htarget), if_neg hactive, ih, hleft]
  | case7 _ _ here c rest hc hup hother ih =>
    rw [resolveFrom_of_not_link hc hup fun target ht => hother target (h.link_iff.mp ht), ih]

/-- What was found is found in its place. -/
theorem find (h : Grows fs fs' added) {parts : List String} {loc : Location} {e : Entry}
    (hfind : fs.find parts = .ok (loc, e)) : fs'.find parts = .ok (loc, e) := by
  have hwalk := find_eq_ok_iff.mp hfind
  obtain ⟨e', hwalk', he'⟩ := h.toExtends.keeps.walk hwalk
  rw [h.toExtends (walk_end (.root fs) hwalk).2] at he'
  obtain rfl := Option.some.inj he'
  exact find_eq_ok_iff.mpr hwalk'

/-- A resolution settles as before, unless it met a loop and nothing stood where it ended. -/
theorem settle (h : Grows fs fs' added) {r : Except Path Reached} {q : Path}
    (hr : (∃ reached, r = .ok reached) ∨ ∃ found, fs.find q.parts = .ok found)
    (hq : fs.settle r = .ok q) : fs'.settle r = .ok q := by
  cases r with
  | ok reached => exact hq
  | error left =>
    rcases hr with ⟨_, hr⟩ | ⟨⟨loc, e⟩, hfound⟩
    · cases hr
    · simp only [FileSystem.settle] at hq ⊢
      split at hq
      next => cases hq
      next =>
        obtain rfl := Except.ok.inj hq
        rw [h.find hfound]

theorem below (h : Grows fs fs' added) (loc : Location) :
    fs'.below loc = fs.below loc ++ added.filterMap fun (key, e) =>
      if loc.isPrefixOf key ∧ loc.length < key.length then some (key.drop loc.length, e)
      else none := by
  rw [FileSystem.below, h.entries, List.filterMap_append]
  rfl

end Grows

/-- The entries below a location, with the way to each of them. -/
theorem mem_filterMap_below {entries : List (Location × Entry)} {loc rel : Location} {e : Entry} :
    ((rel, e) ∈ entries.filterMap fun (key, e) =>
      if loc.isPrefixOf key ∧ loc.length < key.length then some (key.drop loc.length, e)
      else none) ↔ rel ≠ [] ∧ (loc ++ rel, e) ∈ entries := by
  rw [List.mem_filterMap]
  constructor
  · rintro ⟨⟨key, e'⟩, hkey, heq⟩
    dsimp only at heq
    split at heq
    next hbelow =>
      obtain ⟨rfl, rfl⟩ := Prod.mk.inj (Option.some.inj heq)
      obtain ⟨rest, rfl⟩ := List.isPrefixOf_iff_prefix.mp hbelow.1
      rw [List.drop_left]
      refine ⟨?_, hkey⟩
      rintro rfl
      simp at hbelow
    next => cases heq
  · rintro ⟨hne, hmem⟩
    refine ⟨_, hmem, ?_⟩
    have hlength : loc.length < (loc ++ rel).length := by simpa using List.length_pos_iff.mpr hne
    dsimp only
    rw [if_pos ⟨List.isPrefixOf_iff_prefix.mpr (List.prefix_append loc rel), hlength⟩,
      List.drop_left]

/-- Components lead from a location to a name under which nothing stands. -/
inductive Misses (fs : FileSystem) : Location → List String → Location → Prop where
  | stop {here : Location} {c : String} {rest : List String} (hd : fs.isDirectoryAt here)
      (hc : ¬ (c = "" ∨ c = ".")) (hup : c ≠ "..") (hnone : fs.entryAt? (here ++ [c]) = none) :
      Misses fs here (c :: rest) (here ++ [c])
  | stay {here x : Location} {c : String} {rest : List String} (hd : fs.isDirectoryAt here)
      (hc : c = "" ∨ c = ".") (next : Misses fs here rest x) : Misses fs here (c :: rest) x
  | up {here x : Location} {rest : List String} (hd : fs.isDirectoryAt here)
      (next : Misses fs here.dropLast rest x) : Misses fs here (".." :: rest) x
  | down {here x : Location} {c : String} {rest : List String} {e : Entry}
      (hd : fs.isDirectoryAt here) (hc : ¬ (c = "" ∨ c = ".")) (hup : c ≠ "..")
      (he : fs.entryAt? (here ++ [c]) = some e) (hl : ∀ target, e ≠ .link target)
      (next : Misses fs (here ++ [c]) rest x) : Misses fs here (c :: rest) x
  | follow {here x : Location} {c target : String} {rest : List String}
      (hd : fs.isDirectoryAt here) (hc : ¬ (c = "" ∨ c = ".")) (hup : c ≠ "..")
      (he : fs.entryAt? (here ++ [c]) = some (.link target))
      (next : Misses fs (linkBase target here) (Path.pieces target ++ rest) x) :
      Misses fs here (c :: rest) x

theorem IsTree.exists_dropLast (htree : IsTree fs) {loc : Location}
    (h : ∃ e, fs.entryAt? loc = some e) : ∃ e, fs.entryAt? loc.dropLast = some e := by
  obtain ⟨e, he⟩ := h
  by_cases heq : loc.dropLast = loc
  · rw [heq]
    exact ⟨e, he⟩
  · exact ⟨_, htree.above he (List.dropLast_prefix loc) heq⟩

theorem Grows.isDirectoryAt (h : Grows fs fs' added) {here : Location}
    (hhere : ∃ e, fs.entryAt? here = some e) : fs'.isDirectoryAt here = fs.isDirectoryAt here := by
  obtain ⟨e, he⟩ := hhere
  unfold FileSystem.isDirectoryAt
  rw [he, h.toExtends he]

/-- A walk is as it was if nothing was added where it came to nothing. -/
theorem Grows.walk (h : Grows fs fs' added) (htree : IsTree fs) {created : Bool} {links : Nat}
    {here : Location} {parts : List String} (hhere : ∃ e, fs.entryAt? here = some e)
    (hmiss : ∀ x, Misses fs here parts x → fs'.entryAt? x = none) :
    fs'.walk created links here parts = fs.walk created links here parts := by
  have hdir : ∀ {here}, (∃ e, fs.entryAt? here = some e) →
      fs'.isDirectoryAt here = fs.isDirectoryAt here := h.isDirectoryAt
  fun_induction FileSystem.walk fs created links here parts with
  | case1 _ here =>
    obtain ⟨e, he⟩ := hhere
    rw [walk_nil, he, h.toExtends he]
  | case2 _ here c rest hd =>
    rw [FileSystem.walk, if_pos (by rwa [hdir hhere])]
  | case3 _ here c rest hd hc ih =>
    have hd : fs.isDirectoryAt here := by simpa using hd
    rw [walk_stay (by rwa [hdir hhere]) hc]
    exact ih hhere fun x hx => hmiss x (.stay hd hc hx)
  | case4 _ here rest hd _ ih =>
    have hd : fs.isDirectoryAt here := by simpa using hd
    rw [walk_up (by rwa [hdir hhere])]
    exact ih (htree.exists_dropLast hhere) fun x hx => hmiss x (.up hd hx)
  | case5 _ here c rest hd hc hup hslash =>
    rw [FileSystem.walk, if_neg (by rwa [hdir hhere]), if_neg hc, if_neg hup, if_pos hslash]
  | case6 _ here c rest hd hc hup hslash hlong =>
    rw [FileSystem.walk, if_neg (by rwa [hdir hhere]), if_neg hc, if_neg hup, if_neg hslash,
      if_pos hlong]
  | case7 _ here c hd hc hup hlong hnone hslash =>
    have hnone' := hmiss _ (.stop (by simpa using hd) hc hup hnone)
    rw [FileSystem.walk, if_neg (by rwa [hdir hhere]), if_neg hc, if_neg hup, if_neg hslash,
      if_neg hlong, hnone']
    rfl
  | case8 _ here c rest hd hc hup hslash hlong hnone hrest =>
    have hnone' := hmiss _ (.stop (by simpa using hd) hc hup hnone)
    rw [FileSystem.walk, if_neg (by rwa [hdir hhere]), if_neg hc, if_neg hup, if_neg hslash,
      if_neg hlong, hnone', if_neg hrest]
  | case9 here c rest hd hc hup hslash hlong target htarget =>
    rw [FileSystem.walk, if_neg (by rwa [hdir hhere]), if_neg hc, if_neg hup, if_neg hslash,
      if_neg hlong, h.toExtends htarget]
  | case10 here c rest hd hc hup hslash hlong target htarget links ih =>
    have hd : fs.isDirectoryAt here := by simpa using hd
    rw [walk_follow (by rwa [hdir hhere]) ⟨hc, hup, hslash, hlong⟩ (h.toExtends htarget)]
    refine ih ?_ fun x hx => hmiss x (.follow hd hc hup htarget hx)
    unfold linkBase
    split
    · exact ⟨_, entryAt?_nil fs⟩
    · exact hhere
  | case11 _ here c rest hd hc hup hslash hlong e₀ hl he₀ ih =>
    have hd : fs.isDirectoryAt here := by simpa using hd
    rw [walk_down (by rwa [hdir hhere]) ⟨hc, hup, hslash, hlong⟩ (h.toExtends he₀) hl]
    exact ih ⟨e₀, he₀⟩ fun x hx => hmiss x (.down hd hc hup he₀ hl hx)

end SolidityCalls.FileSystem
