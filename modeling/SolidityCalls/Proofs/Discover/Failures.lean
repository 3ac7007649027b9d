import SolidityCalls.Proofs.Discover.Search
import SolidityCalls.Proofs.Host.Failures
import SolidityCalls.Proofs.Ignore.Failures

/-! Why the sources of a project are not found. Once the directory is there, only its ignore files
and the paths that the search asks for can be in the way. -/
namespace SolidityCalls.Discover
open FileSystem Outcome

variable {host : Host} {base rel : Location} {s : Selection} {directory : Path} {e : Failure}

/-- Why the sources below a directory are not found: the path of an ignore file is too long, the
file is faulty, a path that the search asks for is at fault, or a pattern cannot be tried on a
source. -/
inductive SearchFault (host : Host) (directory : Path) (base : Location) (s : Selection) :
    Failure → Prop where
  | longIgnorePath {rel : Location} : rel ∈ searched host.files base s.nestedIgnores →
      host.find (ignorePath directory rel) = .error .nameTooLong →
      SearchFault host directory base s (.system .nameTooLong (ignorePath directory rel))
  | faultyIgnores {rel : Location} {content : Content} {e : Failure} :
      rel ∈ searched host.files base s.nestedIgnores →
      host.read (ignorePath directory rel) = .ok content → Ignore.IsFaulty content.bytes e →
      SearchFault host directory base s e
  | path {ignores : List IgnoreFile} {x : Location × Entry} {cause : SystemError} :
      ignoreFiles host directory base s.nestedIgnores = .ok ignores →
      x ∈ host.files.below base → IsAsked x →
      Host.fault? (directory.join ⟨.relative, x.1⟩) = some cause →
      SearchFault host directory base s (.system cause (directory.join ⟨.relative, x.1⟩))
  | badPattern {ignores : List IgnoreFile} {rel : Location} :
      ignoreFiles host directory base s.nestedIgnores = .ok ignores →
      rel ∈ candidates host.files base → (∀ name ∈ rel.dropLast, name ∉ s.skipDirs) →
      isIgnored ignores rel = .error .badPattern → SearchFault host directory base s .badPattern

theorem SearchFault.isUserError (h : SearchFault host directory base s e) :
    e.isUserError = false := by
  rcases h with _ | ⟨_, _, _ | _⟩ | _ | _ <;> rfl

theorem mem_ignoreDirectories {nested : Bool} {found : List Location}
    (h : ignoreDirectories host directory base nested = .ok found) : rel ∈ found ↔
      rel ∈ searched host.files base nested ∧
        ∃ content, host.read (ignorePath directory rel) = .ok content := by
  rw [ignoreDirectories_eq_bind] at h
  obtain ⟨dirs, hdirs, h⟩ := exists_of_bind_ok h
  obtain rfl := Except.ok.inj h
  rw [← Host.isFile_iff, ← mem_of_filterM hdirs, List.mem_map]
  simp only [sortedByPath, List.mem_mergeSort, List.mem_map]
  constructor
  · rintro ⟨_, ⟨dir, hdir, rfl⟩, rfl⟩
    rwa [List.dropLast_concat]
  · intro hrel
    exact ⟨_, ⟨rel, hrel, rfl⟩, List.dropLast_concat⟩

theorem failsOnly_isIgnored (ignores : List IgnoreFile) (rel : Location) :
    FailsOnly .badPattern (isIgnored ignores rel) := by
  induction ignores with
  | nil => exact .ok _
  | cons f ignores ih =>
    unfold isIgnored
    split
    · refine (Ignore.failsOnly_ignores _ _).bind fun ignored => ?_
      cases ignored
      · exact ih
      · exact .ok _
    · exact ih

theorem isSelected_of_clean {ignores : List IgnoreFile}
    (hclean : ∀ name ∈ rel.dropLast, name ∉ s.skipDirs)
    (hignored : isIgnored ignores rel = .error e) : isSelected s ignores rel = .error e := by
  have hskip : ¬ (rel.dropLast.any fun part => s.skipDirs.contains part) = true := by
    simpa using hclean
  rw [isSelected, if_neg hskip, hignored]
  rfl

theorem isSelected_error {ignores : List IgnoreFile} (h : isSelected s ignores rel = .error e) :
    (∀ name ∈ rel.dropLast, name ∉ s.skipDirs) ∧ isIgnored ignores rel = .error e := by
  unfold isSelected at h
  split at h
  next => cases h
  next hskip =>
    rcases exists_of_bind_error h with hignored | ⟨ignored, _, h⟩
    · exact ⟨by simpa using hskip, hignored⟩
    · cases ignored <;> cases h

theorem ignoreFiles_error (h : ignoreFiles host directory base s.nestedIgnores = .error e) :
    SearchFault host directory base s e := by
  rcases exists_of_bind_error h with h | ⟨found, hfound, h⟩
  · rw [ignoreDirectories_eq_bind] at h
    rcases exists_of_bind_error h with h | ⟨_, _, h⟩
    · obtain ⟨rel, hrel, hfile⟩ := exists_of_filterM_error h
      obtain ⟨hlong, rfl⟩ := Host.isFile_error hfile
      exact .longIgnorePath hrel hlong
    · cases h
  · obtain ⟨rel, hrel, h⟩ := exists_of_mapM_error h
    obtain ⟨hsearched, content, hread⟩ := (mem_ignoreDirectories hfound).mp hrel
    rw [hread] at h
    rcases exists_of_bind_error h with h | ⟨_, _, h⟩
    · exact .faultyIgnores hsearched hread (Ignore.isFaulty_of_rulesOf_error h)
    · cases h

/-- Where sources are looked for, only ignore files and paths can be in the way. -/
theorem sources_error {q : Path} (hresolve : host.resolve directory = .ok q)
    (h : sources host directory s = .error e) : host.find directory = .error .nameTooLong ∨
      ∃ base, host.find directory = .ok (base, .directory) ∧
        SearchFault host directory base s e := by
  rw [sources, hresolve, ok_bind] at h
  split at h
  next base hfind =>
    refine .inr ⟨base, hfind, ?_⟩
    rcases exists_of_bind_error h with h | ⟨ignores, hignores, h⟩
    · exact ignoreFiles_error h
    · rcases exists_of_bind_error h with h | ⟨_, _, h⟩
      · obtain ⟨x, hx, hvisit⟩ := exists_of_filterMapM_error h
        rcases visit_error hvisit with ⟨hasked, cause, hcause, rfl⟩ | ⟨rel, hsource, hselected⟩
        · exact .path hignores hx hasked hcause
        · obtain ⟨hclean, hignored⟩ := isSelected_error hselected
          obtain rfl := failsOnly_isIgnored ignores rel e hignored
          have hrel : rel ∈ candidates host.files base := List.mem_filterMap.mpr ⟨x, hx, hsource⟩
          exact .badPattern hignores hrel hclean hignored
      · cases h
  next hlong => exact .inl hlong
  next => cases h

theorem not_searchFault_of_sources (hfind : host.find directory = .ok (base, .directory))
    {rels : List Location} (h : sources host directory s = .ok rels) :
    ¬ SearchFault host directory base s e := by
  obtain ⟨hsearchable, ignores, selected, hignores, hselected, _⟩ := exists_of_sources hfind h
  obtain ⟨found, hfound, hrules⟩ := exists_of_bind_ok hignores
  rintro (⟨hrel, hlong⟩ | ⟨hrel, hread, hfaulty⟩ | ⟨_, hx, hasked, hcause⟩ |
    ⟨hignores', hrel, hclean, hignored⟩)
  · exact find_ne_of_ignoreDirectories hfound _ hrel hlong
  · obtain ⟨_, _, hok⟩ :=
      exists_ok_of_mapM hrules ((mem_ignoreDirectories hfound).mpr ⟨hrel, _, hread⟩)
    rw [hread] at hok
    obtain ⟨_, hrules, _⟩ := exists_of_bind_ok hok
    exact Ignore.not_isFaulty_of_rulesOf hrules hfaulty
  · cases (hsearchable _ hx hasked).symm.trans hcause
  · obtain rfl := Except.ok.inj (hignores.symm.trans hignores')
    obtain ⟨b, hb⟩ := forall_ok_of_filterM hselected _ hrel
    cases (isSelected_of_clean hclean hignored).symm.trans hb

end SolidityCalls.Discover
