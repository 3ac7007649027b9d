import SolidityCalls.Proofs.Discover.Failures
import SolidityCalls.Proofs.FileSystem.Reordered
import SolidityCalls.Proofs.Project.Pruning
import Mathlib.Data.List.Sort

/-! The listing of the source files below a directory. Whatever is ignored, it has exactly the
regular files that are looked for, in strict order of their paths, and it does not depend on the
order in which directories are read. Discovery gives this listing for the paths that some ignore
file ignores, unless a path that it asks for is too long. -/
namespace SolidityCalls

namespace Host
open FileSystem

variable {host : Host} {p : Path} {base : Location} {e : Entry}

/-- A path that is found resolves to where it is found. -/
theorem exists_resolveFrom_of_find (hw : host.files.IsStraight host.workingDirectory)
    (h : host.find p = .ok (base, e)) :
    ∃ r, host.files.resolveFrom [] (!p.isAbsolute)
      (if !p.isAbsolute then host.workingDirectory else []) p.parts =
        .ok (r, base) := by
  obtain ⟨⟨n, hleads⟩, _⟩ := leads_of_find (find_eq_ok_iff.mp h).2
  cases habsolute : p.isAbsolute with
  | true =>
    rw [host.parts_of_isAbsolute habsolute] at hleads
    obtain ⟨r, hr, _⟩ := hleads.resolvesTo.resolveFrom [] false (by simp)
    exact ⟨r, hr⟩
  | false =>
    have hparts : host.parts p = host.workingDirectory ++ p.parts := by
      have hanchor : p.anchor = .relative := by simpa [Path.isAbsolute] using habsolute
      rw [parts, hanchor]
    rw [hparts] at hleads
    obtain ⟨here, _, _, hbefore, hafter, _⟩ := hleads.split
    obtain rfl : here = host.workingDirectory := hbefore.of_isStraight hw
    obtain ⟨r, hr, _⟩ := hafter.resolvesTo.resolveFrom [] true (by simp)
    exact ⟨r, hr⟩

theorem files_resolve_of_find (hw : host.files.IsStraight host.workingDirectory)
    (h : host.find p = .ok (base, e)) :
    host.files.resolve host.workingDirectory p = .ok (Path.absolute base) := by
  obtain ⟨r, hr⟩ := exists_resolveFrom_of_find hw h
  rw [FileSystem.resolve, hr]
  rfl

/-- Below a directory that is found, straight names resolve to themselves. -/
theorem files_resolve_join (hw : host.files.IsStraight host.workingDirectory)
    (h : host.find p = .ok (base, e)) {rel : Location}
    (hrel : host.files.IsStraight (base ++ rel)) :
    host.files.resolve host.workingDirectory (p.join ⟨.relative, rel⟩) =
      .ok (Path.absolute (base ++ rel)) := by
  obtain ⟨r, hr⟩ := exists_resolveFrom_of_find hw h
  have happend := (resolveFrom_append rel hr).trans (resolveFrom_of_isStraight hrel)
  exact congrArg host.files.settle happend

theorem resolve_of_find (hw : host.files.IsStraight host.workingDirectory)
    (h : host.find p = .ok (base, e)) :
    host.resolve p = .ok (Path.absolute base) := by
  have hfault := (find_eq_ok_iff.mp h).1
  have hnul := (fault?_eq_none_iff.mp hfault).1
  rw [resolve, if_neg (by simp [hnul]), files_resolve_of_find hw h]

end Host

namespace Discover
open FileSystem

/-- The order of paths by their texts. -/
def Precedes (a b : Location) : Prop := posix a < posix b

instance : Std.Irrefl Precedes := ⟨fun a => Std.lt_irrefl (a := posix a)⟩

instance : Std.Antisymm Precedes :=
  ⟨fun _ _ hab hba => absurd (Std.lt_trans hab hba) Std.lt_irrefl⟩

/-- A regular file below a directory that discovery is after: it is there by its name, no link
leads to it, and nothing leaves it out. -/
structure IsEntryFile (fs : FileSystem) (base : Location) (s : Selection)
    (ignored : Location → Bool) (rel : Location) : Prop where
  ne_nil : rel ≠ []
  name : ∀ c ∈ rel, IsComponent c ∧ c ≠ ".."
  file : ∃ loc content, fs.find (base ++ rel) = .ok (loc, .file content)
  not_link : ∀ pre, pre <+: rel → pre ≠ [] → ∀ target,
    fs.entryAt? (base ++ pre) ≠ some (.link target)
  source : ∃ stem, rel.getLast? = some (stem ++ ".sol")
  not_skipped : ∀ name ∈ rel.dropLast, name ∉ s.skipDirs
  not_ignored : ¬ ignored rel
  included : s.includes ≠ [] → ∃ p ∈ s.includes, Glob.isMatch p (posix rel)
  not_excluded : ∀ p ∈ s.excludes, ¬ Glob.isMatch p (posix rel)

/-- The entry files in strict order of their paths. -/
structure IsListing (fs : FileSystem) (base : Location) (s : Selection)
    (ignored : Location → Bool) (rels : List Location) : Prop where
  increasing : rels.Pairwise Precedes
  mem_iff : ∀ rel, rel ∈ rels ↔ IsEntryFile fs base s ignored rel

/-- What discovery asks of a source, if it is known what is ignored. -/
def selects (s : Selection) (ignored : Location → Bool) (rel : Location) : Bool :=
  !(rel.dropLast.any fun part => s.skipDirs.contains part) && !ignored rel &&
    ((s.includes.isEmpty || s.includes.any fun p => Glob.isMatch p (posix rel)) &&
      !s.excludes.any fun p => Glob.isMatch p (posix rel))

def listed (fs : FileSystem) (base : Location) (s : Selection) (ignored : Location → Bool) :
    List Location :=
  sortedByPath ((candidates fs base).filter (selects s ignored))

/-- An ignore file ignores a path below its directory. It has nothing to say about others. -/
def IgnoreFile.matches (f : IgnoreFile) (rel : Location) : Bool :=
  f.directory.isPrefixOf rel &&
    (Ignore.ignores f.rules (posix (rel.drop f.directory.length))).toOption.getD false

section Order

variable {rels rels' : List Location}

/-- Paths that are told apart by their texts. -/
structure AreTold (rels : List Location) : Prop where
  nodup : rels.Nodup
  ne_nil : ∀ rel ∈ rels, rel ≠ []
  no_slash : ∀ rel ∈ rels, ∀ c ∈ rel, '/' ∉ c.toList

theorem AreTold.of_subset (h : AreTold rels) (hsub : rels' ⊆ rels) (hnodup : rels'.Nodup) :
    AreTold rels' :=
  ⟨hnodup, fun rel hrel => h.ne_nil rel (hsub hrel), fun rel hrel => h.no_slash rel (hsub hrel)⟩

theorem pairwise_sortedByPath (h : AreTold rels) : (sortedByPath rels).Pairwise Precedes := by
  have hsorted : (sortedByPath rels).Pairwise fun a b => posix a ≤ posix b := by
    refine (List.pairwise_mergeSort (fun a b c hab hbc => ?_) (fun a b => ?_) rels).imp
      of_decide_eq_true
    · exact decide_eq_true (Std.le_trans (of_decide_eq_true hab) (of_decide_eq_true hbc))
    · simpa using Std.le_total
  have hne : (sortedByPath rels).Pairwise (· ≠ ·) :=
    (List.mergeSort_perm rels _).nodup_iff.mpr h.nodup
  refine (hsorted.and hne).imp_of_mem fun {a b} ha hb hab => ?_
  have ha := List.mem_mergeSort.mp ha
  have hb := List.mem_mergeSort.mp hb
  refine Std.lt_of_le_of_ne hab.1 fun heq => hab.2 ?_
  exact Path.intercalate_injective (h.ne_nil a ha) (h.ne_nil b hb) (h.no_slash a ha)
    (h.no_slash b hb) heq

/-- Sorting forgets the order in which paths come. -/
theorem sortedByPath_of_perm (h : AreTold rels) (hperm : rels'.Perm rels) :
    sortedByPath rels' = sortedByPath rels := by
  have h' : AreTold rels' := h.of_subset hperm.subset (hperm.nodup_iff.mpr h.nodup)
  refine (pairwise_sortedByPath h').eq_of_mem_iff (pairwise_sortedByPath h) fun rel => ?_
  rw [sortedByPath, sortedByPath, List.mem_mergeSort, List.mem_mergeSort, hperm.mem_iff]

end Order

section Listing

variable {fs : FileSystem} {base rel : Location} {s : Selection} {ignored : Location → Bool}

theorem isSource_iff : isSource (rel.getLast?.getD "") ↔
    ∃ stem, rel.getLast? = some (stem ++ ".sol") := by
  have hsuffix (name : String) : isSource name ↔ ∃ stem, name = stem ++ ".sol" := by
    rw [isSource, List.isSuffixOf_iff_suffix]
    constructor
    · rintro ⟨pre, hpre⟩
      exact ⟨String.ofList pre, String.toList_injective (by simpa using hpre.symm)⟩
    · rintro ⟨stem, rfl⟩
      exact ⟨stem.toList, String.toList_append.symm⟩
  cases rel.getLast? with
  | none => simp [show isSource "" = false by decide]
  | some name => simp [hsuffix]

theorem selects_iff : selects s ignored rel ↔
    (∀ name ∈ rel.dropLast, name ∉ s.skipDirs) ∧ ¬ ignored rel ∧
      (s.includes ≠ [] → ∃ p ∈ s.includes, Glob.isMatch p (posix rel)) ∧
      ∀ p ∈ s.excludes, ¬ Glob.isMatch p (posix rel) := by
  simp [selects, and_assoc, or_iff_not_imp_left]

theorem areTold_candidates (htree : IsTree fs) (base : Location) :
    AreTold (candidates fs base) := by
  have hname : ∀ rel ∈ candidates fs base, rel ≠ [] ∧ ∀ c ∈ rel, '/' ∉ c.toList := by
    intro rel hrel
    obtain ⟨⟨content, hbelow⟩, _⟩ := mem_candidates.mp hrel
    obtain ⟨hne, he⟩ := mem_below_iff.mp hbelow
    exact ⟨hne, fun c hc => (htree.name he c (List.mem_append_right _ hc)).component.no_slash⟩
  refine ⟨?_, fun rel hrel => (hname rel hrel).1, fun rel hrel => (hname rel hrel).2⟩
  refine nodup_filterMap_below (fun x rel hrel => ?_) fs base
  obtain ⟨_, rfl, _⟩ := source?_eq_some_iff.mp hrel
  rfl

/-- Names below a straight location that are no links make a straight location. -/
theorem isStraight_append (hbase : IsStraight fs base)
    (hname : ∀ c ∈ rel, IsComponent c ∧ c ≠ "..")
    (hlink : ∀ pre, pre <+: rel → pre ≠ [] → ∀ target,
      fs.entryAt? (base ++ pre) ≠ some (.link target)) : IsStraight fs (base ++ rel) := by
  induction rel using List.reverseRecOn with
  | nil => rwa [List.append_nil]
  | append_singleton rel c ih =>
    have hc := hname c (List.mem_append_right _ List.mem_cons_self)
    have hbefore := ih (fun d hd => hname d (List.mem_append_left _ hd)) fun pre hpre =>
      hlink pre (hpre.trans (List.prefix_append rel [c]))
    rw [← List.append_assoc]
    refine hbefore.append hc.1 hc.2 fun target => ?_
    rw [List.append_assoc]
    exact hlink _ (List.prefix_refl _) (by simp) target

theorem mem_listed_iff (htree : IsTree fs) (hbase : fs.entryAt? base = some .directory) :
    rel ∈ listed fs base s ignored ↔ IsEntryFile fs base s ignored rel := by
  rw [listed, sortedByPath, List.mem_mergeSort, List.mem_filter, mem_candidates, isSource_iff,
    selects_iff]
  constructor
  · rintro ⟨⟨⟨content, hbelow⟩, hsource⟩, hskip, hignored, hincluded, hexcluded⟩
    obtain ⟨hne, he⟩ := mem_below_iff.mp hbelow
    have hstraight := htree.isStraight he (by simp)
    exact {
      ne_nil := hne
      name := fun c hc => ⟨hstraight.component c (List.mem_append_right _ hc),
        hstraight.ne_up c (List.mem_append_right _ hc)⟩
      file := ⟨_, content, htree.find he (by simp)⟩
      not_link := fun pre hpre _ =>
        hstraight.not_link ((List.prefix_append_right_inj base).mpr hpre)
      source := hsource
      not_skipped := hskip
      not_ignored := hignored
      included := hincluded
      not_excluded := hexcluded }
  · intro h
    obtain ⟨loc, content, hfind⟩ := h.file
    have hstraight := isStraight_append (htree.isStraight hbase (by simp)) h.name h.not_link
    have he := (find_of_isStraight hstraight hfind).2
    exact ⟨⟨⟨content, mem_below_iff.mpr ⟨h.ne_nil, he⟩⟩, h.source⟩, h.not_skipped, h.not_ignored,
      h.included, h.not_excluded⟩

theorem areTold_filter (htree : IsTree fs) (p : Location → Bool) :
    AreTold ((candidates fs base).filter p) :=
  (areTold_candidates htree base).of_subset (List.filter_subset_self _)
    ((areTold_candidates htree base).nodup.filter p)

theorem isListing_listed (htree : IsTree fs) (hbase : fs.entryAt? base = some .directory)
    (s : Selection) (ignored : Location → Bool) :
    IsListing fs base s ignored (listed fs base s ignored) where
  increasing := pairwise_sortedByPath (areTold_filter htree _)
  mem_iff _ := mem_listed_iff htree hbase

/-- A listing of fewer files is part of one of more. -/
theorem IsListing.sublist {s' : Selection} {rels rels' : List Location}
    (h : IsListing fs base s ignored rels) (h' : IsListing fs base s' ignored rels')
    (hmore : ∀ rel, IsEntryFile fs base s ignored rel → IsEntryFile fs base s' ignored rel) :
    rels.Sublist rels' := by
  have hsubset : rels ⊆ rels' := fun rel hrel =>
    (h'.mem_iff rel).mpr (hmore rel ((h.mem_iff rel).mp hrel))
  exact List.sublist_of_subperm_of_pairwise (List.subperm_of_subset h.increasing.nodup hsubset)
    h.increasing h'.increasing

theorem candidates_perm {fs' : FileSystem} (h : fs'.entries.Perm fs.entries) (base : Location) :
    (candidates fs' base).Perm (candidates fs base) := (below_perm h base).filterMap _

theorem listed_of_perm {fs' : FileSystem} (h : fs'.entries.Perm fs.entries) (htree : IsTree fs)
    (base : Location) (s : Selection) (ignored : Location → Bool) :
    listed fs' base s ignored = listed fs base s ignored :=
  sortedByPath_of_perm (areTold_filter htree _) ((candidates_perm h base).filter _)

end Listing

section Matchers

variable {ignores : List IgnoreFile} {rel : Location} {s : Selection} {fs : FileSystem}
  {base : Location}

/-- Some ignore file ignores a path. -/
def isMatched (ignores : List IgnoreFile) (rel : Location) : Bool := ignores.any (·.matches rel)

theorem isIgnored_eq {b : Bool} (h : isIgnored ignores rel = .ok b) :
    b = isMatched ignores rel := by
  induction ignores generalizing b with
  | nil => exact (Except.ok.inj h).symm
  | cons f ignores ih =>
    rw [isMatched, List.any_cons, IgnoreFile.matches]
    rw [isIgnored] at h
    cases hbelow : f.directory.isPrefixOf rel with
    | false =>
      rw [hbelow] at h
      exact ih h
    | true =>
      rw [hbelow] at h
      obtain ⟨ignored, hrules, h⟩ := Outcome.exists_of_bind_ok h
      rw [hrules]
      cases ignored with
      | true => exact (Except.ok.inj h).symm
      | false => exact ih h

/-- Every ignore file that is asked about a source has an answer. -/
def Answers (fs : FileSystem) (base : Location) (s : Selection) (ignores : List IgnoreFile) :
    Prop :=
  ∀ rel ∈ candidates fs base, (∀ name ∈ rel.dropLast, name ∉ s.skipDirs) →
    ∃ b, isIgnored ignores rel = .ok b

theorem isSelected_eq (h : (∀ name ∈ rel.dropLast, name ∉ s.skipDirs) →
    ∃ b, isIgnored ignores rel = .ok b) :
    isSelected s ignores rel = .ok (selects s (isMatched ignores) rel) := by
  rw [isSelected, selects]
  cases hskip : rel.dropLast.any fun part => s.skipDirs.contains part with
  | true => rfl
  | false =>
    obtain ⟨b, hb⟩ := h (by simpa using hskip)
    rw [← isIgnored_eq hb, hb]
    cases b <;> rfl

theorem answers_of_filterM {rels : List Location}
    (h : (candidates fs base).filterM (isSelected s ignores) = .ok rels) :
    Answers fs base s ignores := by
  intro rel hrel hclean
  obtain ⟨b, hb⟩ := Outcome.forall_ok_of_filterM h rel hrel
  cases hignored : isIgnored ignores rel with
  | ok b => exact ⟨b, rfl⟩
  | error e => cases (isSelected_of_clean hclean hignored).symm.trans hb

theorem filterM_isSelected (h : Answers fs base s ignores) :
    (candidates fs base).filterM (isSelected s ignores) =
      .ok ((candidates fs base).filter (selects s (isMatched ignores))) :=
  Outcome.filterM_of_forall_ok fun rel hrel => isSelected_eq (h rel hrel)

end Matchers

section Files

variable {host : Host} {directory : Path} {base : Location} {s : Selection}

/-- Discovery gives the listing for the paths that some ignore file ignores, if no path that it asks
for is at fault, the ignore files can be read and every one that is asked has an answer. -/
theorem files_eq_ok_iff (hw : host.files.IsStraight host.workingDirectory)
    (hfind : host.find directory = .ok (base, .directory)) {paths : List Path} :
    files host directory s = .ok paths ↔
      IsSearchable host.files directory base ∧ ∃ ignores,
        ignoreFiles host directory base s.nestedIgnores = .ok ignores ∧
          Answers host.files base s ignores ∧
          paths = (listed host.files base s (isMatched ignores)).map
            fun rel => directory.join ⟨.relative, rel⟩ := by
  constructor
  · intro h
    obtain ⟨found, h, hpaths⟩ := Outcome.exists_of_bind_ok h
    obtain ⟨hsearchable, ignores, selected, hignores, hselected, rfl⟩ := exists_of_sources hfind h
    have hanswers := answers_of_filterM hselected
    obtain rfl := Except.ok.inj ((filterM_isSelected hanswers).symm.trans hselected)
    exact ⟨hsearchable, ignores, hignores, hanswers, (Except.ok.inj hpaths).symm⟩
  · rintro ⟨hsearchable, ignores, hignores, hanswers, rfl⟩
    rw [files, sources_eq (Host.resolve_of_find hw hfind) hfind hsearchable, hignores,
      Outcome.ok_bind, filterM_isSelected hanswers]
    rfl

end Files

section Reordered

variable {host : Host} {files' : FileSystem} {directory : Path} {base : Location} {s : Selection}
  {nested : Bool}

theorem searched_perm {fs fs' : FileSystem} (h : fs'.entries.Perm fs.entries) (base : Location)
    (nested : Bool) : (searched fs' base nested).Perm (searched fs base nested) := by
  unfold searched
  split
  · exact ((below_perm h base).filterMap _).cons []
  · exact .refl _

theorem nodup_searched (fs : FileSystem) (base : Location) (nested : Bool) :
    (searched fs base nested).Nodup := by
  unfold searched
  split
  · refine List.nodup_cons.mpr
      ⟨fun hmem => ?_, nodup_filterMap_below (fun x rel hrel => ?_) fs base⟩
    · obtain ⟨⟨rel, e⟩, hbelow, heq⟩ := List.mem_filterMap.mp hmem
      cases e with
      | directory => exact (mem_below_iff.mp hbelow).1 (Option.some.inj heq)
      | file | link => cases heq
    · obtain ⟨place, e⟩ := x
      cases e with
      | directory => exact (Option.some.inj hrel).symm
      | file | link => cases hrel
  · exact List.nodup_singleton _

/-- The ignore files of searched directories are told apart by their paths. -/
theorem areTold_searched (htree : host.files.IsTree)
    (hbase : host.files.entryAt? base = some .directory) (p : Location → Bool) :
    AreTold (((searched host.files base nested).filter p).map (· ++ [ignoreName])) := by
  refine ⟨?_, List.forall_mem_map.mpr fun rel _ => by simp, List.forall_mem_map.mpr ?_⟩
  · exact ((nodup_searched _ _ _).filter p).map fun _ _ h => List.append_cancel_right h
  · intro rel hrel
    obtain ⟨hdir, _⟩ := directory_of_mem_searched hbase (List.mem_filter.mp hrel).1
    refine List.forall_mem_append.mpr ⟨fun c hc => ?_, List.forall_mem_singleton.mpr (by decide)⟩
    exact (htree.name hdir c (List.mem_append_right _ hc)).component.no_slash

theorem ignoreDirectories_of_perm (hperm : files'.entries.Perm host.files.entries)
    (htree : host.files.IsTree) (hbase : host.files.entryAt? base = some .directory)
    {found : List Location} (h : ignoreDirectories host directory base nested = .ok found) :
    ignoreDirectories (host.after files') directory base nested = .ok found := by
  have hfind := Host.find_of_entryAt? (entryAt?_of_perm hperm)
  have hfileAt (p : Path) : (host.after files').fileAt? p = host.fileAt? p := by
    rw [Host.fileAt?, Host.fileAt?, hfind]
  have hlong := find_ne_of_ignoreDirectories h
  have hsearched := searched_perm hperm base nested
  have hlong' : ∀ rel ∈ searched files' base nested,
      (host.after files').find (ignorePath directory rel) ≠ .error .nameTooLong := by
    intro rel hrel
    rw [hfind]
    exact hlong rel (hsearched.mem_iff.mp hrel)
  rw [ignoreDirectories_eq hlong', ← h, ignoreDirectories_eq hlong]
  simp only [hfileAt]
  rw [sortedByPath_of_perm (areTold_searched htree hbase _) ((hsearched.filter _).map _)]

theorem ignoreFiles_of_perm (hperm : files'.entries.Perm host.files.entries)
    (htree : host.files.IsTree) (hbase : host.files.entryAt? base = some .directory)
    {ignores : List IgnoreFile} (h : ignoreFiles host directory base nested = .ok ignores) :
    ignoreFiles (host.after files') directory base nested = .ok ignores := by
  obtain ⟨found, hfound, hread⟩ := Outcome.exists_of_bind_ok h
  rw [ignoreFiles, ignoreDirectories_of_perm hperm htree hbase hfound, Outcome.ok_bind]
  simp only [Host.read_of_entryAt? (entryAt?_of_perm hperm)]
  exact hread

/-- The files that are found do not depend on the order in which directories are read. -/
theorem files_of_perm (hperm : files'.entries.Perm host.files.entries)
    (htree : host.files.IsTree) (hw : host.files.IsStraight host.workingDirectory)
    (hfind : host.find directory = .ok (base, .directory)) {paths : List Path}
    (h : files host directory s = .ok paths) :
    files (host.after files') directory s = .ok paths := by
  have hentry := entryAt?_of_perm hperm
  have hbase := (leads_of_find (Host.find_eq_ok_iff.mp hfind).2).2
  obtain ⟨hsearchable, ignores, hignores, hanswers, rfl⟩ := (files_eq_ok_iff hw hfind).mp h
  refine (files_eq_ok_iff (hw.of_entryAt? hentry)
    ((Host.find_of_entryAt? hentry directory).trans hfind)).mpr
      ⟨fun x hx => ?_, ignores, ignoreFiles_of_perm hperm htree hbase hignores,
        fun rel hrel => ?_, ?_⟩
  · exact hsearchable x ((below_perm hperm base).mem_iff.mp hx)
  · exact hanswers rel ((candidates_perm hperm base).mem_iff.mp hrel)
  · rw [listed_of_perm hperm htree]

end Reordered

/-- The listing of the files that are found, if it is known what is ignored. -/
structure ListsEntryFiles (fs : FileSystem) (base : Location) (s : Selection)
    (ignored : Location → Bool) : Prop where
  listing : IsListing fs base s ignored (listed fs base s ignored)
  reordered : ∀ fs', fs'.entries.Perm fs.entries →
    listed fs' base s ignored = listed fs base s ignored
  skipping_more : ∀ skipDirs, s.skipDirs ⊆ skipDirs →
    (listed fs base { s with skipDirs } ignored).Sublist (listed fs base s ignored)
  excluding_more : ∀ excludes, s.excludes ⊆ excludes →
    (listed fs base { s with excludes } ignored).Sublist (listed fs base s ignored)
  including_more : s.includes ≠ [] → ∀ includes, s.includes ⊆ includes →
    (listed fs base s ignored).Sublist (listed fs base { s with includes } ignored)

/-- What discovery finds below a directory that is found at a location. -/
structure FindsListing (host : Host) (directory : Path) (base : Location) (s : Selection) :
    Prop where
  files_iff : ∀ paths, files host directory s = .ok paths ↔
    IsSearchable host.files directory base ∧ ∃ ignores,
      ignoreFiles host directory base s.nestedIgnores = .ok ignores ∧
        Answers host.files base s ignores ∧
        paths = (listed host.files base s (isMatched ignores)).map
          fun rel => directory.join ⟨.relative, rel⟩
  reordered : ∀ files' : FileSystem, files'.entries.Perm host.files.entries → ∀ paths,
    files host directory s = .ok paths → files (host.after files') directory s = .ok paths
  /-- The way to a file from the resolved directory, once the file is resolved, is its name. -/
  resolved : ∀ ignored rel, IsEntryFile host.files base s ignored rel → ∃ root found,
    host.resolve directory = .ok root ∧
      host.files.resolve host.workingDirectory (directory.join ⟨.relative, rel⟩) = .ok found ∧
        found.relativeTo? root = some rel

theorem listsEntryFiles {fs : FileSystem} {base : Location} (htree : fs.IsTree)
    (hbase : fs.entryAt? base = some .directory) (s : Selection) (ignored : Location → Bool) :
    ListsEntryFiles fs base s ignored where
  listing := isListing_listed htree hbase s ignored
  reordered _ hperm := listed_of_perm hperm htree base s ignored
  skipping_more skipDirs hmore := by
    refine (isListing_listed htree hbase _ ignored).sublist (isListing_listed htree hbase s ignored)
      fun rel h => { h with not_skipped := fun name hname hskip => ?_ }
    exact h.not_skipped name hname (hmore hskip)
  excluding_more excludes hmore := by
    refine (isListing_listed htree hbase _ ignored).sublist (isListing_listed htree hbase s ignored)
      fun rel h => { h with not_excluded := fun p hp => ?_ }
    exact h.not_excluded p (hmore hp)
  including_more hne includes hmore := by
    refine (isListing_listed htree hbase s ignored).sublist (isListing_listed htree hbase _ ignored)
      fun rel h => { h with included := fun _ => ?_ }
    obtain ⟨p, hp, hmatch⟩ := h.included hne
    exact ⟨p, hmore hp, hmatch⟩

theorem findsListing {host : Host} {directory : Path} {base : Location}
    (htree : host.files.IsTree) (hw : host.files.IsStraight host.workingDirectory)
    (hfind : host.find directory = .ok (base, .directory)) (s : Selection) :
    FindsListing host directory base s where
  files_iff _ := files_eq_ok_iff hw hfind
  reordered _ hperm _ h := files_of_perm hperm htree hw hfind h
  resolved ignored rel h := by
    have hbase := (leads_of_find (Host.find_eq_ok_iff.mp hfind).2).2
    have hstraight := isStraight_append (htree.isStraight hbase (by simp)) h.name h.not_link
    refine ⟨_, _, Host.resolve_of_find hw hfind, Host.files_resolve_join hw hfind hstraight, ?_⟩
    simp [Path.relativeTo?, Path.absolute]

/-- Discovery lists the entry files below a directory of a tree, in strict order of their paths from
it. The listing is the same in whatever order directories are read; it gets no longer if more is
skipped or excluded, and no shorter if more is included. -/
theorem discovery_lists_entry_files {host : Host} {directory : Path} {base : Location}
    (htree : host.files.IsTree)
    (hw : host.files.entryAt? host.workingDirectory = some .directory)
    (hfind : host.find directory = .ok (base, .directory)) (s : Selection) :
    (∀ ignored, ListsEntryFiles host.files base s ignored) ∧
      FindsListing host directory base s := by
  have hbase := (leads_of_find (Host.find_eq_ok_iff.mp hfind).2).2
  exact ⟨listsEntryFiles htree hbase s,
    findsListing htree (htree.isStraight hw (by simp)) hfind s⟩

/-- A project with sources in two directories, one of them skipped, one source that is ignored, and
links to a source and to a directory. -/
def linkedSources : Host where
  files :=
    { entries := [(["p"], .directory), (["p", "more"], .link "lib"), (["p", "lib"], .directory),
        (["p", "lib", "b.sol"], .file ⟨[], default⟩), (["p", "dep"], .directory),
        (["p", "dep", "c.sol"], .file ⟨[], default⟩), (["p", "link.sol"], .link "a.sol"),
        (["p", "a.sol"], .file ⟨[], default⟩), (["p", "d.sol"], .file ⟨[], default⟩),
        (["p", ".gitignore"], .file ⟨"d.sol".toUTF8.toList, default⟩)]
      distinct := by decide }
  workingDirectory := ["p"]
  home := Path.absolute []
  accounts := []

def linkedSelection : Selection := ⟨["dep"], [], [], true⟩

/-- The rule that its ignore file has. -/
def linkedIgnores : List IgnoreFile := [⟨[], [⟨false, "(^|[/])d\\.sol$".toList⟩]⟩]

theorem isTree_linkedSources : linkedSources.files.IsTree := .of_entries (by decide) (by decide)

theorem candidates_linkedSources : candidates linkedSources.files ["p"] =
    [["lib", "b.sol"], ["dep", "c.sol"], ["a.sol"], ["d.sol"]] := by
  decide

theorem isSearchable_linkedSources :
    IsSearchable linkedSources.files ⟨.relative, []⟩ ["p"] := by
  have hvalid : ((linkedSources.files.below ["p"]).all fun x =>
      (Host.fault? ⟨.relative, x.1⟩).isNone) = true := by cbv
  exact fun x hx _ => Option.isNone_iff_eq_none.mp (List.all_eq_true.mp hvalid x hx)

theorem answers_linkedSources :
    Answers linkedSources.files ["p"] linkedSelection linkedIgnores := by
  intro rel hrel _
  rw [candidates_linkedSources] at hrel
  fin_cases hrel
  · exact ⟨false, by cbv⟩
  · exact ⟨false, by cbv⟩
  · exact ⟨false, by cbv⟩
  · exact ⟨true, by cbv⟩

theorem listed_linkedSources :
    listed linkedSources.files ["p"] linkedSelection (isMatched linkedIgnores) =
      [["a.sol"], ["lib", "b.sol"]] := by
  have hselected : [["lib", "b.sol"], ["dep", "c.sol"], ["a.sol"], ["d.sol"]].filter
      (selects linkedSelection (isMatched linkedIgnores)) = [["lib", "b.sol"], ["a.sol"]] := by cbv
  have htold : AreTold [["a.sol"], ["lib", "b.sol"]] := ⟨by decide, by decide, by decide⟩
  rw [listed, candidates_linkedSources, hselected, sortedByPath_of_perm htold (by decide)]
  exact List.mergeSort_of_pairwise (by decide)

/-- Neither links nor skipped and ignored files are found. -/
theorem linkedSources_lists_entry_files :
    (∀ ignored, ListsEntryFiles linkedSources.files ["p"] linkedSelection ignored) ∧
      FindsListing linkedSources ⟨.relative, []⟩ ["p"] linkedSelection ∧
      files linkedSources ⟨.relative, []⟩ linkedSelection =
        .ok [⟨.relative, ["a.sol"]⟩, ⟨.relative, ["lib", "b.sol"]⟩] := by
  have hfind : linkedSources.find ⟨.relative, []⟩ = .ok (["p"], .directory) := by cbv
  obtain ⟨hlists, hfinds⟩ :=
    discovery_lists_entry_files isTree_linkedSources rfl hfind linkedSelection
  refine ⟨hlists, hfinds, (hfinds.files_iff _).mpr
    ⟨isSearchable_linkedSources, linkedIgnores, by cbv, answers_linkedSources, ?_⟩⟩
  rw [listed_linkedSources]
  rfl

/-- A directory with one source. -/
def oneSource : Host where
  files :=
    { entries := [(["e"], .directory), (["e", "Treasuries.sol"], .file ⟨[], default⟩)] }
  workingDirectory := []
  home := Path.absolute []
  accounts := []

/-- A long path of the directory. The path of an ignore file in it is not too long, but that of the
source is. -/
def detoured : Path := Path.absolute (Host.detours 816 ++ ["e"])

def unselective : Selection := ⟨[], [], [], false⟩

/-- The source stands below the directory, and nothing leaves it out, but nothing is found. -/
theorem not_found_detoured :
    oneSource.find detoured = .ok (["e"], .directory) ∧
      IsEntryFile oneSource.files ["e"] unselective (fun _ => false) ["Treasuries.sol"] ∧
      ¬ ∃ paths, files oneSource detoured unselective = .ok paths := by
  have htree : oneSource.files.IsTree := .of_entries (by decide) (by decide)
  have hfind : oneSource.find detoured = .ok (["e"], .directory) :=
    Host.find_detours rfl (by decide)
  have hbelow : (["Treasuries.sol"], Entry.file ⟨[], default⟩) ∈ oneSource.files.below ["e"] :=
    List.mem_singleton_self _
  have hsource : isSource ((["Treasuries.sol"] : Location).getLast?.getD "") := by decide
  refine ⟨hfind, ?_, ?_⟩
  · have hselects : selects unselective (fun _ => false) ["Treasuries.sol"] = true := by cbv
    refine (mem_listed_iff htree rfl).mp ?_
    rw [listed, sortedByPath, List.mem_mergeSort, List.mem_filter, mem_candidates]
    exact ⟨⟨⟨_, hbelow⟩, hsource⟩, hselects⟩
  · rintro ⟨paths, hpaths⟩
    have hsearchable := ((files_eq_ok_iff (.root _) hfind).mp hpaths).1
    have hpath : detoured.join ⟨.relative, ["Treasuries.sol"]⟩ =
        Path.absolute (Host.detours 816 ++ ["e", "Treasuries.sol"]) :=
      congrArg Path.absolute (List.append_assoc ..)
    have hlong : Host.fault? (Path.absolute (Host.detours 816 ++ ["e", "Treasuries.sol"])) =
        some .nameTooLong := by
      rw [Host.fault?_detours 816 (by simp) (by simp [Host.holdsNul])]
      decide
    cases (hlong.symm.trans (hpath ▸ hsearchable _ hbelow (.inr hsource)))

end Discover

end SolidityCalls
