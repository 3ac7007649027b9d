import SolidityCalls.Proofs.FileSystem.Growth
import SolidityCalls.Proofs.Project.Store

/-! Storing files in a directory that is missing. The directories on the way to it are made, the
files are put below it, and this is all that is added. -/
namespace SolidityCalls

namespace FileSystem

variable {fs fs' : FileSystem}

/-- Making directories adds directories on the way to the target that were missing. -/
theorem MakesDirectories.grows {target : Location} (h : MakesDirectories target fs fs')
    (htarget : IsStraight fs target) :
    ∃ dirs : List Location, Grows fs fs' (dirs.map (·, .directory)) ∧
      ∀ x ∈ dirs, x <+: target ∧ fs.entryAt? x = none := by
  induction h with
  | refl => exact ⟨[], .refl fs, by simp⟩
  | @step fs₁ fs₂ parts _ onWay make ih =>
    obtain ⟨dirs, hgrows, hdirs⟩ := ih
    obtain ⟨above, name, loc, rfl, _, _, hfind, hnone, rfl⟩ := makeDirectory_spec make
    have habove : IsStraight fs₁ above :=
      (hgrows.isStraight_iff.mpr htarget).of_isPrefix
        ((List.prefix_append above [name]).trans onWay)
    obtain ⟨rfl, _⟩ := find_of_isStraight habove hfind
    refine ⟨dirs ++ [loc ++ [name]], ?_, List.forall_mem_append.mpr ⟨hdirs, ?_⟩⟩
    · rw [List.map_append]
      exact hgrows.trans (.put hnone (by simp))
    · refine List.forall_mem_singleton.mpr ⟨onWay, Option.eq_none_iff_forall_ne_some.mpr ?_⟩
      intro e he
      rw [hgrows.toExtends he] at hnone
      cases hnone

end FileSystem

namespace Project
open FileSystem

/-- The entries of files below a location. -/
def fileEntries (loc : Location) (contents : List (String × Bytes)) : List (Location × Entry) :=
  contents.map fun f => (loc ++ [f.1], .file ⟨f.2, default⟩)

/-- Files were stored in a directory that had been missing; `dirs` are the directories that were
made for it. -/
structure Stored (fs fs' : FileSystem) (d : Location) (contents : List (String × Bytes))
    (dirs : List Location) : Prop where
  before : fs.IsTree
  after : fs'.IsTree
  straight : fs.IsStraight d
  grows : Grows fs fs' (dirs.map (·, .directory) ++ fileEntries d contents)
  onWay : ∀ x ∈ dirs, x <+: d ∧ fs.entryAt? x = none
  mem_dirs : d ∈ dirs
  path_valid : ∀ f ∈ contents, Host.fault? (Path.absolute (d ++ [f.1])) = none

variable {host : Host} {files : FileSystem} {contents : List (String × Bytes)} {d : Location}

/-- A run of stores finds its directory made from the start. -/
theorem store_after_made {directory : Path} {loc : Location} {made : FileSystem}
    (hne : contents ≠ []) (hp : directory.IsPlain)
    (hw : ∀ c ∈ host.workingDirectory, IsComponent c)
    (hmake : host.makeDirectories directory = (made, none))
    (hdir : (host.after made).find directory = .ok (loc, .directory)) :
    store (host.after made) directory contents = store host directory contents := by
  have hagain : (host.after made).makeDirectories directory = (made, none) :=
    Host.makeDirectories_of_find hp hw hdir
  cases contents with
  | nil => exact absurd rfl hne
  | cons f rest => rw [store, store, hmake, hagain]

/-- A directory whose name is free is made. -/
theorem makeDirectories_of_missing (htree : host.files.IsTree) {above : Location} {name : String}
    (habove : host.files.entryAt? above = some .directory) (hname : IsFileName name)
    (hnone : host.files.entryAt? (above ++ [name]) = none)
    (hfault : Host.fault? (Path.absolute (above ++ [name])) = none) :
    host.makeDirectories (Path.absolute (above ++ [name])) =
      (host.files.put (above ++ [name]) .directory, none) := by
  have hfind := htree.find habove (by simp)
  have hmake : host.files.makeDirectory (above ++ [name]) =
      .ok (host.files.put (above ++ [name]) .directory) := by
    simp only [makeDirectory, List.getLast?_concat, if_neg hname.ne_up, List.dropLast_concat, hfind,
      if_neg hname.not_long, hnone]
  have hensure : host.files.ensureDirectory (above ++ [name]) =
      .ok (host.files.put (above ++ [name]) .directory) := by
    simp only [ensureDirectory, hmake]
  have hreverse : (above ++ [name]).reverse = name :: above.reverse := by simp
  have hback : [] ++ (name :: above.reverse).reverse = above ++ [name] := by simp
  unfold Path.absolute at hfault ⊢
  simp only [Host.makeDirectories, hfault, hreverse, ensureDirectories, hback, hensure]

/-- Files can be stored in a missing directory if the one above it is there. -/
theorem exists_store (htree : host.files.IsTree)
    (hw : ∀ c ∈ host.workingDirectory, IsComponent c) {above : Location} {name : String}
    (habove : host.files.entryAt? above = some .directory) (hname : IsFileName name)
    (hnone : host.files.entryAt? (above ++ [name]) = none)
    (hfault : Host.fault? (Path.absolute (above ++ [name])) = none)
    (hnames : ∀ f ∈ contents, IsFileName f.1)
    (hfaults : ∀ f ∈ contents, Host.fault? (Path.absolute (above ++ [name] ++ [f.1])) = none) :
    ∃ files, store host (Path.absolute (above ++ [name])) contents = (files, none) := by
  by_cases hne : contents = []
  · exact ⟨host.files, hne ▸ rfl⟩
  · have hmake := makeDirectories_of_missing htree habove hname hnone hfault
    have hmade := htree.put habove hname hnone .directory
    have hentry : (host.files.put (above ++ [name]) .directory).entryAt? (above ++ [name]) =
        some .directory := by
      rw [entryAt?_put _ (by simp), if_pos rfl]
    have hp : (Path.absolute (above ++ [name])).IsPlain :=
      (hmade.isStraight hentry (by simp)).component
    have hdir : (host.after (host.files.put (above ++ [name]) .directory)).find
        (Path.absolute (above ++ [name])) = .ok (above ++ [name], .directory) :=
      Host.find_eq_ok_iff.mpr ⟨hfault, hmade.find hentry (by simp)⟩
    rw [← store_after_made hne hp hw hmake hdir]
    refine ⟨_, store_eq_putAll hp hw hdir hnames (fun f hf => ?_) fun f hf e he => ?_⟩
    · rw [Host.child_absolute _ (hnames f hf).component]
      exact hfaults f hf
    · -- Nothing stands below the new directory.
      have hold : host.files.entryAt? (above ++ [name] ++ [f.1]) = some e := by
        rw [entryAt?_put _ (by simp), if_neg (by simp)] at he
        exact he
      rw [htree.parent hold] at hnone
      cases hnone

end Project
end SolidityCalls
