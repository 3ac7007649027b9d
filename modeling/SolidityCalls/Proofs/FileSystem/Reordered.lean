import SolidityCalls.Proofs.Project.AfterStore

/-! File systems that keep the same entries in another order. What stands where, and so every walk
and every path that is found, is the same; what is below a location comes in another order. -/
namespace SolidityCalls.FileSystem

variable {fs fs' : FileSystem}

theorem entryAt?_of_perm (h : fs'.entries.Perm fs.entries) (loc : Location) :
    fs'.entryAt? loc = fs.entryAt? loc := by
  by_cases hloc : loc = []
  · subst hloc
    rfl
  · refine Option.ext fun e => ⟨fun he => ?_, fun he => ?_⟩
    · exact entryAt?_of_mem hloc (h.mem_iff.mp ((mem_entries he).resolve_left (hloc ·.1)))
    · exact entryAt?_of_mem hloc (h.mem_iff.mpr ((mem_entries he).resolve_left (hloc ·.1)))

theorem IsStraight.of_entryAt? (h : ∀ loc, fs'.entryAt? loc = fs.entryAt? loc) {loc : Location}
    (hs : IsStraight fs loc) : IsStraight fs' loc :=
  ⟨hs.component, hs.ne_up, fun hpre target ht => hs.not_link hpre target ((h _).symm.trans ht)⟩

/-- A walk sees nothing but what stands where. -/
theorem walk_of_entryAt? (h : ∀ loc, fs'.entryAt? loc = fs.entryAt? loc) (created : Bool)
    (links : Nat) (here : Location) (parts : List String) :
    fs'.walk created links here parts = fs.walk created links here parts := by
  have hdir : ∀ here, fs'.isDirectoryAt here = fs.isDirectoryAt here := by
    intro here
    rw [isDirectoryAt, isDirectoryAt, h]
  -- At every step both walks stand before the same entry.
  fun_induction walk fs created links here parts with
  | case1 => rw [walk, h]
  | _ => simp_all [walk]

theorem find_of_entryAt? (h : ∀ loc, fs'.entryAt? loc = fs.entryAt? loc) (parts : List String) :
    fs'.find parts = fs.find parts := by
  rw [find, find, walk_of_entryAt? h]

theorem below_perm (h : fs'.entries.Perm fs.entries) (loc : Location) :
    (fs'.below loc).Perm (fs.below loc) :=
  h.filterMap _

theorem mem_below_iff {base rel : Location} {e : Entry} :
    (rel, e) ∈ fs.below base ↔ rel ≠ [] ∧ fs.entryAt? (base ++ rel) = some e := by
  refine ⟨entryAt?_of_mem_below, fun ⟨hne, he⟩ => ?_⟩
  have hmem := (mem_entries he).resolve_left fun hroot => hne (List.append_eq_nil_iff.mp hroot.1).2
  exact mem_filterMap_below.mpr ⟨hne, hmem⟩

/-- No two entries below a location stand at the same place. -/
theorem below_pairwise (fs : FileSystem) (base : Location) :
    (fs.below base).Pairwise fun x y => x.1 ≠ y.1 := by
  have hkeys : fs.entries.Pairwise fun x y => x.1 ≠ y.1 := List.pairwise_map.mp fs.distinct
  refine hkeys.filterMap _ ?_
  rintro ⟨key, e⟩ ⟨key', e'⟩ hne x hx y hy heq
  dsimp only at hx hy
  split at hx
  next hpre =>
    split at hy
    next hpre' =>
      obtain ⟨rest, rfl⟩ := List.isPrefixOf_iff_prefix.mp hpre.1
      obtain ⟨rest', rfl⟩ := List.isPrefixOf_iff_prefix.mp hpre'.1
      obtain rfl := Option.some.inj hx
      obtain rfl := Option.some.inj hy
      simp only [List.drop_left] at heq
      exact hne (congrArg (base ++ ·) heq)
    next => cases hy
  next => cases hx

/-- Whichever entries below a location are kept, they are kept at different places. -/
theorem nodup_filterMap_below {keep : Location × Entry → Option Location}
    (hkeep : ∀ x rel, keep x = some rel → rel = x.1) (fs : FileSystem) (base : Location) :
    ((fs.below base).filterMap keep).Nodup := by
  refine (below_pairwise fs base).filterMap keep fun x y hne rel hrel rel' hrel' => ?_
  rw [hkeep x rel hrel, hkeep y rel' hrel']
  exact hne

end SolidityCalls.FileSystem

namespace SolidityCalls.Host

variable {host : Host} {files : FileSystem}

theorem find_of_entryAt? (h : ∀ loc, files.entryAt? loc = host.files.entryAt? loc) (p : Path) :
    (host.after files).find p = host.find p := by
  have hparts : (host.after files).parts p = host.parts p := rfl
  rw [find, find, hparts, FileSystem.find_of_entryAt? h]

theorem read_of_entryAt? (h : ∀ loc, files.entryAt? loc = host.files.entryAt? loc) (p : Path) :
    (host.after files).read p = host.read p := by
  rw [read, read, find_of_entryAt? h]

end SolidityCalls.Host
