import SolidityCalls.Proofs.Artifact.Listing
import SolidityCalls.Proofs.Data.OrderedMap
import SolidityCalls.Proofs.Data.Sorted
import SolidityCalls.Proofs.FileSystem.Reordered
import SolidityCalls.Proofs.Project.Rediscovery

/-! Two directories compared. The difference tells exactly at which names they do not hold the same
bytes, whatever links stand in them; there is no difference to tell if the path of some entry is
too long. -/
namespace SolidityCalls

/-- No entry has a NUL character in its name. -/
def Host.HasNulFreeNames (host : Host) : Prop :=
  ∀ loc e, host.files.entryAt? loc = some e → ∀ c ∈ loc, ¬ holdsNul c

namespace Artifact
open FileSystem

/-- What a place below a directory shows as a file: a regular file, or the file a link leads to. -/
inductive ShowsFile (host : Host) (directory : Path) (base rel : Location) (content : Content) :
    Prop where
  | regular (h : host.files.entryAt? (base ++ rel) = some (.file content)) :
      ShowsFile host directory base rel content
  | linked {target : String} (h : host.files.entryAt? (base ++ rel) = some (.link target))
      (hfile : host.fileAt? (directory.join ⟨.relative, rel⟩) = some content) :
      ShowsFile host directory base rel content

/-- A directory holds some bytes under a name. -/
def HoldsFile (host : Host) (directory : Path) (name : String) (bytes : Bytes) : Prop :=
  ∃ base rel content, host.find directory = .ok (base, .directory) ∧
    ShowsFile host directory base rel content ∧ "/".intercalate rel = name ∧ content.bytes = bytes

namespace Difference

/-- The difference of the first directory's files to those of the second. -/
def exchanged (d : Difference) : Difference := ⟨d.mismatches, d.extra, d.missing⟩

/-- A difference says where two maps from names to bytes differ, and nothing else. -/
structure Tells (d : Difference) (expected actual : String → Bytes → Prop) : Prop where
  isEmpty_iff : d.isEmpty ↔ ∀ name bytes, expected name bytes ↔ actual name bytes
  mismatches_increasing : d.mismatches.Pairwise (· < ·)
  missing_increasing : d.missing.Pairwise (· < ·)
  extra_increasing : d.extra.Pairwise (· < ·)
  mismatches_missing : d.mismatches.Disjoint d.missing
  mismatches_extra : d.mismatches.Disjoint d.extra
  missing_extra : d.missing.Disjoint d.extra
  mem_mismatches : ∀ {name}, name ∈ d.mismatches ↔
    ∃ bytes bytes', expected name bytes ∧ actual name bytes' ∧ bytes ≠ bytes'
  mem_missing : ∀ {name}, name ∈ d.missing ↔
    (∃ bytes, expected name bytes) ∧ ∀ bytes, ¬ actual name bytes
  mem_extra : ∀ {name}, name ∈ d.extra ↔
    (∃ bytes, actual name bytes) ∧ ∀ bytes, ¬ expected name bytes
  mem_iff : ∀ {name}, name ∈ d.mismatches ∨ name ∈ d.missing ∨ name ∈ d.extra ↔
    ¬ ∀ bytes, expected name bytes ↔ actual name bytes

section Between

variable {expected actual : Listing} {name : String}

theorem mem_mismatches_between : name ∈ (between expected actual).mismatches ↔
    ∃ bytes bytes', expected.get? name = some bytes ∧ actual.get? name = some bytes' ∧
      bytes ≠ bytes' := by
  rw [between, (NameSet.perm_sorted _).mem_iff, List.mem_filter, Listing.names,
    ← OrderedMap.isSome_get?, Bool.and_eq_true, OrderedMap.contains_iff]
  cases expected.get? name <;> cases actual.get? name <;> simp

theorem mem_missing_between : name ∈ (between expected actual).missing ↔
    (∃ bytes, expected.get? name = some bytes) ∧ ∀ bytes, actual.get? name ≠ some bytes := by
  rw [between, (NameSet.perm_sorted _).mem_iff, List.mem_filter, Listing.names,
    ← OrderedMap.isSome_get?, Bool.not_eq_true', ← Bool.not_eq_true, OrderedMap.contains_iff]
  cases expected.get? name <;> cases actual.get? name <;> simp

/-- What is extra in one listing is missing in the other. -/
theorem extra_between : (between expected actual).extra = (between actual expected).missing := rfl

theorem mem_extra_between : name ∈ (between expected actual).extra ↔
    (∃ bytes, actual.get? name = some bytes) ∧ ∀ bytes, expected.get? name ≠ some bytes := by
  rw [extra_between, mem_missing_between]

/-- A name is told exactly where the listings do not agree on it. -/
theorem mem_between_iff : name ∈ (between expected actual).mismatches ∨
    name ∈ (between expected actual).missing ∨ name ∈ (between expected actual).extra ↔
      expected.get? name ≠ actual.get? name := by
  rw [mem_mismatches_between, mem_missing_between, mem_extra_between]
  cases expected.get? name <;> cases actual.get? name <;> simp

theorem isEmpty_iff_forall_mem {d : Difference} : d.isEmpty ↔
    ∀ name, ¬ (name ∈ d.mismatches ∨ name ∈ d.missing ∨ name ∈ d.extra) := by
  simp only [isEmpty, Bool.and_eq_true, decide_eq_true_eq, List.eq_nil_iff_forall_not_mem, not_or,
    forall_and, and_assoc]

/-- The difference between listings with distinct names tells where the maps that they list
differ. -/
theorem tells_between {holds holds' : String → Bytes → Prop} (hnames : expected.names.Nodup)
    (hnames' : actual.names.Nodup)
    (h : ∀ name bytes, expected.get? name = some bytes ↔ holds name bytes)
    (h' : ∀ name bytes, actual.get? name = some bytes ↔ holds' name bytes) :
    Tells (between expected actual) holds holds' := by
  have hmem (name : String) : (name ∈ (between expected actual).mismatches ∨
      name ∈ (between expected actual).missing ∨ name ∈ (between expected actual).extra) ↔
        ¬ ∀ bytes, holds name bytes ↔ holds' name bytes := by
    rw [mem_between_iff, ne_eq, Option.ext_iff]
    simp only [h, h']
  constructor
  case isEmpty_iff =>
    rw [isEmpty_iff_forall_mem]
    exact forall_congr' fun name => by rw [hmem, not_not]
  case mismatches_increasing => exact NameSet.pairwise_lt_sorted (hnames.filter _)
  case missing_increasing => exact NameSet.pairwise_lt_sorted (hnames.filter _)
  case extra_increasing => exact NameSet.pairwise_lt_sorted (hnames'.filter _)
  case mismatches_missing =>
    intro name hmismatch hmissing
    obtain ⟨_, bytes', _, hactual, _⟩ := mem_mismatches_between.mp hmismatch
    exact (mem_missing_between.mp hmissing).2 bytes' hactual
  case mismatches_extra =>
    intro name hmismatch hextra
    obtain ⟨bytes, _, hexpected, _, _⟩ := mem_mismatches_between.mp hmismatch
    exact (mem_extra_between.mp hextra).2 bytes hexpected
  case missing_extra =>
    intro name hmissing hextra
    obtain ⟨bytes, hexpected⟩ := (mem_missing_between.mp hmissing).1
    exact (mem_extra_between.mp hextra).2 bytes hexpected
  case mem_mismatches => simp only [mem_mismatches_between, h, h', implies_true]
  case mem_missing => simp only [mem_missing_between, ne_eq, h, h', implies_true]
  case mem_extra => simp only [mem_extra_between, ne_eq, h, h', implies_true]
  case mem_iff => exact hmem _

/-- Exchanging the listings exchanges what is missing with what is extra. -/
theorem between_exchanged (hnames : expected.names.Nodup) (hnames' : actual.names.Nodup) :
    between actual expected = (between expected actual).exchanged := by
  have hmismatches : (between actual expected).mismatches =
      (between expected actual).mismatches := by
    apply eq_of_pairwise_lt (NameSet.pairwise_lt_sorted (hnames'.filter _))
      (NameSet.pairwise_lt_sorted (hnames.filter _))
    intro name
    show name ∈ (between actual expected).mismatches ↔ name ∈ (between expected actual).mismatches
    rw [mem_mismatches_between, mem_mismatches_between]
    grind
  rw [exchanged, ← hmismatches]
  rfl

theorem isEmpty_exchanged (d : Difference) : d.exchanged.isEmpty = d.isEmpty := by
  simp only [isEmpty, exchanged]
  grind

end Between

end Difference

section Listing

variable {host : Host} {directory : Path} {base rel : Location} {e : Entry} {name : String}
  {bytes : Bytes}

/-- The path below a directory that is found leads to what stands there, unless it is too long. -/
theorem find_join (htree : host.files.IsTree)
    (hnul : host.HasNulFreeNames) (hfind : host.find directory = .ok (base, .directory))
    (hne : rel ≠ [])
    (he : host.files.entryAt? (base ++ rel) = some e) (hl : ∀ target, e ≠ .link target)
    (hlong : host.find (directory.join ⟨.relative, rel⟩) ≠ .error .nameTooLong) :
    host.find (directory.join ⟨.relative, rel⟩) = .ok (base ++ rel, e) := by
  obtain ⟨hfault, hfound⟩ := Host.find_eq_ok_iff.mp hfind
  have hdirectory := (Host.fault?_eq_none_iff.mp hfault).1
  have hrel : rel.any Host.holdsNul = false := by
    rw [List.any_eq_false]
    exact fun c hc => hnul _ _ he c (List.mem_append_right _ hc)
  have hjoin : (directory.join ⟨.relative, rel⟩).parts.any Host.holdsNul = false := by
    show (directory.parts ++ rel).any Host.holdsNul = false
    rw [List.any_append, hdirectory, hrel, Bool.or_false]
  have hparts : host.parts (directory.join ⟨.relative, rel⟩) = host.parts directory ++ rel := by
    unfold Host.parts Path.join
    cases directory.anchor <;> simp
  have hvalid : Host.fault? (directory.join ⟨.relative, rel⟩) = none := by
    rw [Host.fault?_eq_none_iff]
    refine ⟨hjoin, Nat.le_of_not_lt fun hsize => hlong ?_⟩
    rw [Host.find, Host.fault?, hjoin, if_neg (by simp), if_pos hsize]
  rw [Host.find_eq_ok_iff, hparts]
  exact ⟨hvalid, htree.find_append hfound hne he hl⟩

section Shown

variable (htree : host.files.IsTree)
include htree

/-- A place below a listed directory leads to a file if a file or a link to one stands there. -/
theorem fileAt?_join_iff (hnul : host.HasNulFreeNames) (hlist : IsListable host directory)
    (hfind : host.find directory = .ok (base, .directory)) {content : Content} :
    ((∃ e, (rel, e) ∈ host.files.below base) ∧
      host.fileAt? (directory.join ⟨.relative, rel⟩) = some content) ↔
        ShowsFile host directory base rel content := by
  have hbase : host.files.entryAt? base = some .directory :=
    (leads_of_find (Host.find_eq_ok_iff.mp hfind).2).2
  constructor
  · rintro ⟨⟨e, hbelow⟩, hfile⟩
    obtain ⟨hne, he⟩ := mem_below_iff.mp hbelow
    have hlong := hlist.below hfind hbelow
    cases e with
    | link target => exact .linked he hfile
    | directory =>
      rw [Host.fileAt?, find_join htree hnul hfind hne he (by simp) hlong] at hfile
      cases hfile
    | file found =>
      rw [Host.fileAt?, find_join htree hnul hfind hne he (by simp) hlong] at hfile
      exact .regular (Option.some.inj hfile ▸ he)
  · intro hshows
    have hne : rel ≠ [] := by
      rintro rfl
      rw [← List.append_nil base] at hbase
      cases hshows with
      | regular h => cases h.symm.trans hbase
      | linked h => cases h.symm.trans hbase
    cases hshows with
    | regular h =>
      have hbelow := mem_below_iff.mpr ⟨hne, h⟩
      have hfound := find_join htree hnul hfind hne h (by simp) (hlist.below hfind hbelow)
      refine ⟨⟨_, hbelow⟩, ?_⟩
      rw [Host.fileAt?, hfound]
    | linked h hfile => exact ⟨⟨_, mem_below_iff.mpr ⟨hne, h⟩⟩, hfile⟩

theorem mem_shown_iff (hnul : host.HasNulFreeNames) (hlist : IsListable host directory) :
    (name, bytes) ∈ Listing.shown host directory ↔ HoldsFile host directory name bytes := by
  rw [Listing.mem_shown, HoldsFile]
  constructor
  · rintro ⟨base, rel, content, hfind, hbelow, hfile, hname, hbytes⟩
    have hshows := (fileAt?_join_iff htree hnul hlist hfind).mp ⟨hbelow, hfile⟩
    exact ⟨base, rel, content, hfind, hshows, hname, hbytes⟩
  · rintro ⟨base, rel, content, hfind, hshows, hname, hbytes⟩
    obtain ⟨hbelow, hfile⟩ := (fileAt?_join_iff htree hnul hlist hfind).mpr hshows
    exact ⟨base, rel, content, hfind, hbelow, hfile, hname, hbytes⟩

/-- Different places below a directory have different names. -/
theorem nodup_names_shown : (Listing.shown host directory).names.Nodup := by
  unfold Listing.names Listing.shown
  split
  next base _ =>
    have hplain : ∀ x ∈ host.files.below base, x.1 ≠ [] ∧ ∀ c ∈ x.1, '/' ∉ c.toList := by
      intro x hx
      obtain ⟨hne, he⟩ := mem_below_iff.mp hx
      refine ⟨hne, fun c hc => ?_⟩
      exact (htree.name he c (List.mem_append_right _ hc)).component.no_slash
    rw [List.Nodup, List.pairwise_map, List.pairwise_filterMap]
    refine (below_pairwise host.files base).imp_of_mem fun {x y} hx hy hne => ?_
    intro f hf g hg heq
    obtain ⟨_, _, rfl⟩ := Option.map_eq_some_iff.mp hf
    obtain ⟨_, _, rfl⟩ := Option.map_eq_some_iff.mp hg
    have hx := hplain x hx
    have hy := hplain y hy
    exact hne (Path.intercalate_injective hx.1 hy.1 hx.2 hy.2 heq)
  next => exact List.nodup_nil

end Shown

end Listing

namespace Difference

variable {host : Host} {expected actual : Path}

theorem ofDirectories_eq_ok_iff {d : Difference} :
    ofDirectories host expected actual = .ok d ↔
      (IsListable host expected ∧ IsListable host actual) ∧
        d = between (Listing.shown host expected) (Listing.shown host actual) := by
  unfold ofDirectories
  constructor
  · intro h
    obtain ⟨l, hl, h⟩ := Outcome.exists_of_bind_ok h
    obtain ⟨l', hl', h⟩ := Outcome.exists_of_bind_ok h
    obtain ⟨hexpected, rfl⟩ := Listing.ofDirectory_eq_ok_iff.mp hl
    obtain ⟨hactual, rfl⟩ := Listing.ofDirectory_eq_ok_iff.mp hl'
    exact ⟨⟨hexpected, hactual⟩, (Except.ok.inj h).symm⟩
  · rintro ⟨⟨hexpected, hactual⟩, rfl⟩
    rw [Listing.ofDirectory_eq_ok_iff.mpr ⟨hexpected, rfl⟩,
      Listing.ofDirectory_eq_ok_iff.mpr ⟨hactual, rfl⟩]
    rfl

/-- Directories are compared if no path in them is too long, and else some such path is the failure.
The difference tells exactly where they differ, and the directories exchanged give the difference
exchanged. -/
theorem ofDirectories_tells (htree : host.files.IsTree) (hnul : host.HasNulFreeNames)
    (expected actual : Path) :
    ((∃ d, ofDirectories host expected actual = .ok d) ↔
      IsListable host expected ∧ IsListable host actual) ∧
    (∀ failure, ofDirectories host expected actual = .error failure →
      ∃ p, host.find p = .error .nameTooLong ∧ failure = .system .nameTooLong p) ∧
    ∀ d, ofDirectories host expected actual = .ok d →
      Tells d (HoldsFile host expected) (HoldsFile host actual) ∧
      ofDirectories host actual expected = .ok d.exchanged ∧ d.exchanged.isEmpty = d.isEmpty := by
  refine ⟨?compared, ?failure, ?difference⟩
  case compared =>
    constructor
    · rintro ⟨d, hd⟩
      exact (ofDirectories_eq_ok_iff.mp hd).1
    · intro h
      exact ⟨_, ofDirectories_eq_ok_iff.mpr ⟨h, rfl⟩⟩
  case failure =>
    intro failure h
    rcases Outcome.exists_of_bind_error h with h | ⟨_, _, h⟩
    · exact Listing.exists_of_ofDirectory_error h
    · rcases Outcome.exists_of_bind_error h with h | ⟨_, _, h⟩
      · exact Listing.exists_of_ofDirectory_error h
      · cases h
  case difference =>
    intro d hd
    obtain ⟨⟨hexpected, hactual⟩, rfl⟩ := ofDirectories_eq_ok_iff.mp hd
    have hnames : (Listing.shown host expected).names.Nodup := nodup_names_shown htree
    have hnames' : (Listing.shown host actual).names.Nodup := nodup_names_shown htree
    refine ⟨?tells, ?exchanged, isEmpty_exchanged _⟩
    case tells =>
      apply tells_between hnames hnames'
      · intro name bytes
        rw [← mem_shown_iff htree hnul hexpected, OrderedMap.mem_iff_get? hnames]
      · intro name bytes
        rw [← mem_shown_iff htree hnul hactual, OrderedMap.mem_iff_get? hnames']
    case exchanged =>
      rw [← between_exchanged hnames hnames']
      exact ofDirectories_eq_ok_iff.mpr ⟨⟨hactual, hexpected⟩, rfl⟩

/-- Two directories with files at the top and deeper down, links to files and a link to a
directory. -/
def twoDirectories : Host where
  files := {
    entries := [
      (["e"], .directory), (["e", "kept"], .file ⟨[1], default⟩),
      (["e", "changed"], .file ⟨[1], default⟩), (["e", "in"], .directory),
      (["e", "in", "gone"], .file ⟨[1], default⟩), (["e", "link"], .link "in/gone"),
      (["e", "way"], .link "in"),
      (["a"], .directory), (["a", "kept"], .file ⟨[1], default⟩),
      (["a", "changed"], .file ⟨[2], default⟩), (["a", "in"], .directory),
      (["a", "in", "new"], .file ⟨[1], default⟩), (["a", "link"], .link "/e/changed")]
    distinct := by decide }
  workingDirectory := []
  home := Path.absolute []
  accounts := []

theorem ofDirectories_tells_twoDirectories :
    ofDirectories twoDirectories (Path.absolute ["e"]) (Path.absolute ["a"]) =
      .ok ⟨["changed"], ["in/gone"], ["in/new"]⟩ ∧
    Tells ⟨["changed"], ["in/gone"], ["in/new"]⟩
      (HoldsFile twoDirectories (Path.absolute ["e"]))
      (HoldsFile twoDirectories (Path.absolute ["a"])) := by
  have htree : twoDirectories.files.IsTree := IsTree.of_entries (by decide) (by decide)
  have hnul : twoDirectories.HasNulFreeNames := by
    intro loc e he c hc
    rcases mem_entries he with ⟨rfl, _⟩ | hmem
    · cases hc
    · have hnames : ∀ x ∈ twoDirectories.files.entries, ∀ c ∈ x.1, ¬ Host.holdsNul c := by
        simp [twoDirectories, Host.holdsNul]
      exact hnames _ hmem c hc
  have hfound : ofDirectories twoDirectories (Path.absolute ["e"]) (Path.absolute ["a"]) =
      .ok ⟨["changed"], ["in/gone"], ["in/new"]⟩ := by cbv
  exact ⟨hfound, ((ofDirectories_tells htree hnul _ _).2.2 _ hfound).1⟩

/-- A directory with one file. -/
def oneFile : Host where
  files := { entries := [(["e"], .directory), (["e", "file"], .file ⟨[1], default⟩)] }
  workingDirectory := []
  home := Path.absolute []
  accounts := []

/-- A long path of the directory. The path of the file in it is too long. -/
def detoured : Path := Path.absolute (Host.detours 818 ++ ["e"])

/-- The directory holds what it holds, but it is not compared with itself. -/
theorem not_compared_detoured :
    HoldsFile oneFile detoured "file" [1] ∧
      ¬ ∃ d, ofDirectories oneFile detoured detoured = .ok d ∧ d.isEmpty := by
  have hfind : oneFile.find detoured = .ok (["e"], .directory) :=
    Host.find_detours rfl (by decide)
  constructor
  · exact ⟨["e"], ["file"], ⟨[1], default⟩, hfind, .regular rfl, rfl, rfl⟩
  · rintro ⟨d, hd, _⟩
    have hlist := (ofDirectories_eq_ok_iff.mp hd).1.1
    have hbelow : (["file"], Entry.file ⟨[1], default⟩) ∈ oneFile.files.below ["e"] :=
      List.mem_singleton_self _
    have hpath : detoured.join ⟨.relative, ["file"]⟩ =
        Path.absolute (Host.detours 818 ++ ["e", "file"]) :=
      congrArg Path.absolute (List.append_assoc ..)
    have hlong :
        Host.fault? (Path.absolute (Host.detours 818 ++ ["e", "file"])) = some .nameTooLong := by
      rw [Host.fault?_detours 818 (by simp) (by simp [Host.holdsNul])]
      decide
    refine hlist.below hfind hbelow ?_
    rw [hpath, Host.find_of_fault hlong]

end Difference

end Artifact
end SolidityCalls
