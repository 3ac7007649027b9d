import SolidityCalls.Proofs.Project.Regenerate

/-! What discovery leaves out of a project. Names are skipped that stand first in the texts for the
output directory and the dependency root, but the directories are where these texts resolve to. So
a directory is left out if a skipped name is on the way to it from the root, and otherwise it is
searched like any other one. -/
namespace SolidityCalls

/-- A path goes on below a directory. -/
def Path.IsInside (p d : Path) : Prop := ∃ rel, rel ≠ [] ∧ p = d.join ⟨.relative, rel⟩

namespace Discover
open FileSystem

/-- A file that is found unless a directory above it is skipped: a source that no rule ignores, and
that the globs accept. -/
structure IsFound (host : Host) (base : Location) (includes excludes : List String)
    (ignores : List IgnoreFile) (rel : Location) : Prop where
  file : ∃ content, (rel, .file content) ∈ host.files.below base
  source : isSource (rel.getLast?.getD "")
  not_ignored : isIgnored ignores rel = .ok false
  included : includes = [] ∨ ∃ p ∈ includes, Glob.isMatch p (posix rel)
  not_excluded : ∀ p ∈ excludes, ¬ Glob.isMatch p (posix rel)

variable {host : Host} {base rel : Location} {s : Selection} {ignores : List IgnoreFile}

theorem isSelected_iff : isSelected s ignores rel = .ok true ↔
    (∀ name ∈ rel.dropLast, name ∉ s.skipDirs) ∧ isIgnored ignores rel = .ok false ∧
      (s.includes = [] ∨ ∃ p ∈ s.includes, Glob.isMatch p (posix rel)) ∧
      ∀ p ∈ s.excludes, ¬ Glob.isMatch p (posix rel) := by
  have hskip : (rel.dropLast.any fun part => s.skipDirs.contains part) = false ↔
      ∀ name ∈ rel.dropLast, name ∉ s.skipDirs := by
    simp
  have hglobs : ((s.includes.isEmpty || s.includes.any fun p => Glob.isMatch p (posix rel)) &&
      !s.excludes.any fun p => Glob.isMatch p (posix rel)) = true ↔
        (s.includes = [] ∨ ∃ p ∈ s.includes, Glob.isMatch p (posix rel)) ∧
          ∀ p ∈ s.excludes, ¬ Glob.isMatch p (posix rel) := by
    simp
  rw [← hskip, ← hglobs, isSelected]
  cases rel.dropLast.any fun part => s.skipDirs.contains part with
  | true =>
    refine iff_of_false (fun h => ?_) (fun h => ?_)
    · cases h
    · cases h.1
  | false =>
    cases isIgnored ignores rel with
    | error e =>
      refine iff_of_false (fun h => ?_) (fun h => ?_)
      · cases h
      · cases h.2.1
    | ok ignored =>
      cases ignored with
      | true =>
        refine iff_of_false (fun h => ?_) (fun h => ?_)
        · cases h
        · cases h.2.1
      | false => exact ⟨fun h => ⟨rfl, rfl, Except.ok.inj h⟩, fun h => congrArg Except.ok h.2.2⟩

theorem mem_sources_iff {directory : Path} {rels : List Location}
    (h : sources host directory s = .ok rels) : rel ∈ rels ↔
      (∀ name ∈ rel.dropLast, name ∉ s.skipDirs) ∧ ∃ base ignores,
        host.find directory = .ok (base, .directory) ∧
          ignoreFiles host directory base s.nestedIgnores = .ok ignores ∧
          IsFound host base s.includes s.excludes ignores rel := by
  by_cases hdirectory : ∃ base, host.find directory = .ok (base, .directory)
  case pos =>
    obtain ⟨base, hfind⟩ := hdirectory
    obtain ⟨_, ignores, selected, hignores, hselected, rfl⟩ := exists_of_sources hfind h
    rw [sortedByPath, List.mem_mergeSort, Outcome.mem_of_filterM hselected, mem_candidates,
      isSelected_iff]
    constructor
    · rintro ⟨⟨hfile, hsource⟩, hskip, hignored, hincluded, hexcluded⟩
      exact ⟨hskip, base, ignores, hfind, hignores, hfile, hsource, hignored, hincluded, hexcluded⟩
    · rintro ⟨hskip, base', ignores', hfind', hignores', hfound⟩
      obtain ⟨rfl, _⟩ := Prod.mk.inj (Except.ok.inj (hfind.symm.trans hfind'))
      obtain rfl := Except.ok.inj (hignores.symm.trans hignores')
      exact ⟨⟨hfound.file, hfound.source⟩, hskip, hfound.not_ignored, hfound.included,
        hfound.not_excluded⟩
  case neg =>
    obtain rfl := eq_nil_of_sources (not_exists.mp hdirectory) h
    simp only [List.not_mem_nil, false_iff]
    rintro ⟨_, base, _, hfind, _⟩
    exact hdirectory ⟨base, hfind⟩

end Discover

namespace Project
open FileSystem

variable {host : Host} {p : Project}

/-- A file below the root that is found unless a directory above it is skipped. -/
def Finds (p : Project) (host : Host) (rel : Location) : Prop :=
  ∃ base ignores, host.find p.root = .ok (base, .directory) ∧
    Discover.ignoreFiles host p.root base p.config.nestedIgnores = .ok ignores ∧
      Discover.IsFound host base p.config.includes p.config.excludes ignores rel

/-- The names that are skipped are the first parts of two texts. -/
theorem skippedDirs_eq {skipped : List String} (h : p.skippedDirs = .ok skipped) :
    ∃ outputName dependencyName, (Path.parse p.config.outputDir).firstPart? = some outputName ∧
      (Path.parse p.config.dependencyRoot).firstPart? = some dependencyName ∧
      skipped = [outputName, dependencyName] := by
  simp only [skippedDirs, List.mapM_cons, List.mapM_nil] at h
  cases houtput : (Path.parse p.config.outputDir).firstPart? with
  | none =>
    rw [houtput] at h
    cases h
  | some outputName =>
    cases hdependency : (Path.parse p.config.dependencyRoot).firstPart? with
    | none =>
      rw [houtput, hdependency] at h
      cases h
    | some dependencyName =>
      rw [houtput, hdependency] at h
      exact ⟨outputName, dependencyName, rfl, rfl, (Except.ok.inj h).symm⟩

/-- An entry is a file that is found, with no skipped name above it. -/
theorem mem_discover_iff {entries : List Path} {skipped : List String}
    (hskipped : p.skippedDirs = .ok skipped) (h : p.discover host = .ok entries) {rel : Location} :
    p.root.join ⟨.relative, rel⟩ ∈ entries ↔
      (∀ name ∈ rel.dropLast, name ∉ skipped) ∧ p.Finds host rel := by
  rw [discover, hskipped, Outcome.ok_bind] at h
  obtain ⟨rels, hrels, h⟩ := Outcome.exists_of_bind_ok h
  obtain rfl := Except.ok.inj h
  have hmem : p.root.join ⟨.relative, rel⟩ ∈ rels.map (fun rel => p.root.join ⟨.relative, rel⟩) ↔
      rel ∈ rels := by
    constructor
    · intro hentry
      obtain ⟨rel', hrel', heq⟩ := List.mem_map.mp hentry
      obtain rfl : rel' = rel := List.append_cancel_left (congrArg Path.parts heq)
      exact hrel'
    · exact fun hrel => List.mem_map_of_mem hrel
  rw [hmem, Discover.mem_sources_iff hrels]
  rfl

/-- A directory below the root has the entries that are found in it, unless a skipped name is on
the way to it. -/
theorem inside_of_discover {entries : List Path} {skipped : List String}
    (hskipped : p.skippedDirs = .ok skipped) (h : p.discover host = .ok entries) {d : Path}
    {rel : Location} (hd : d.relativeTo? p.root = some rel) {sub : Location} (hsub : sub ≠ []) :
    d.join ⟨.relative, sub⟩ ∈ entries ↔ (∀ name ∈ rel, name ∉ skipped) ∧
      (∀ name ∈ sub.dropLast, name ∉ skipped) ∧ p.Finds host (rel ++ sub) := by
  have hjoin : d.join ⟨.relative, sub⟩ = p.root.join ⟨.relative, rel ++ sub⟩ := by
    rw [Path.eq_of_relativeTo? hd]
    simp only [Path.join, List.append_assoc]
  rw [hjoin, mem_discover_iff hskipped h, List.dropLast_append_of_ne_nil hsub,
    List.forall_mem_append, and_assoc]

theorem not_isInside_of_skipped {entries : List Path} {skipped : List String}
    (hskipped : p.skippedDirs = .ok skipped) (h : p.discover host = .ok entries) {d : Path}
    {rel : Location} (hd : d.relativeTo? p.root = some rel) {name : String} (hname : name ∈ rel)
    (hskip : name ∈ skipped) : ∀ entry ∈ entries, ¬ entry.IsInside d := by
  rintro _ hentry ⟨sub, hsub, rfl⟩
  exact ((inside_of_discover hskipped h hd hsub).mp hentry).1 name hname hskip

/-- A text that names a way without links and without going up leads where it says. -/
theorem resolve_straight {root : Location} {path d : Path} (hrelative : path.anchor = .relative)
    (hstraight : host.files.IsStraight (root ++ path.parts))
    (h : host.resolve ((Path.absolute root).join path) = .ok d) :
    d.relativeTo? (Path.absolute root) = some path.parts := by
  have hjoin : (Path.absolute root).join path = Path.absolute (root ++ path.parts) := by
    simp only [Path.join, hrelative]
    rfl
  have hfiles := Host.files_resolve h
  rw [hjoin, resolve_absolute hstraight] at hfiles
  obtain rfl := Except.ok.inj hfiles
  simp [Path.relativeTo?, Path.absolute]

/-- An output directory is only accepted from a relative text. -/
theorem anchor_of_resolveOutputDir {root output : Path} {text : String}
    (h : Config.resolveOutputDir host root text = .ok output) :
    (Path.parse text).anchor = .relative := by
  by_contra hanchor
  have hanchored : (text.startsWith "~" || (Path.parse text).isAbsolute) = true := by
    simp [Path.isAbsolute, hanchor]
  unfold Config.resolveOutputDir at h
  rw [if_pos hanchored] at h
  split at h
  next => cases h
  next => cases h

theorem output_straight {root : Location} (hroot : p.root = Path.absolute root) {output : Path}
    (houtput : Config.resolveOutputDir host p.root p.config.outputDir = .ok output)
    (hstraight : host.files.IsStraight (root ++ (Path.parse p.config.outputDir).parts)) :
    output.relativeTo? p.root = some (Path.parse p.config.outputDir).parts := by
  have hrelative := anchor_of_resolveOutputDir houtput
  obtain ⟨base, _, hbase, hresolve, _⟩ := resolveOutputDir_spec houtput
  have hsame := Host.files_resolve hbase
  rw [hroot, resolve_absolute (hstraight.of_isPrefix (List.prefix_append _ _))] at hsame
  obtain rfl := Except.ok.inj hsame
  rw [hroot]
  exact resolve_straight hrelative hstraight hresolve

theorem dependencies_straight {root : Location} (hroot : p.root = Path.absolute root)
    {dependencies : Path} {name : String}
    (hdependencies : Config.resolveDependencyRoot host p.root p.config.dependencyRoot =
      .ok dependencies)
    (hrelative : (Path.parse p.config.dependencyRoot).anchor = .relative)
    (hfirst : (Path.parse p.config.dependencyRoot).firstPart? = some name)
    (hhome : ¬ name.startsWith "~")
    (hstraight : host.files.IsStraight (root ++ (Path.parse p.config.dependencyRoot).parts)) :
    dependencies.relativeTo? p.root = some (Path.parse p.config.dependencyRoot).parts := by
  have hplain : host.expandUser (Path.parse p.config.dependencyRoot) =
      .ok (Path.parse p.config.dependencyRoot) := by
    generalize Path.parse p.config.dependencyRoot = path at hrelative hfirst ⊢
    obtain ⟨anchor, parts⟩ := path
    obtain rfl : anchor = .relative := hrelative
    cases parts with
    | nil => cases hfirst
    | cons first rest =>
      obtain rfl : first = name := Option.some.inj hfirst
      simp [Host.expandUser, hhome]
  rw [Config.resolveDependencyRoot, hplain, Outcome.ok_bind, hroot] at hdependencies
  rw [hroot]
  exact resolve_straight hrelative hstraight hdependencies

/-- The first part of a relative path stands among its components. -/
theorem mem_parts_of_firstPart? {path : Path} {name : String} (hrelative : path.anchor = .relative)
    (h : path.firstPart? = some name) : name ∈ path.parts := by
  simp only [Path.firstPart?, hrelative] at h
  exact List.mem_of_head? h

/-- Discovery skips two names, the first parts of the texts for the output directory and the
dependency root. No entry lies in one of these directories if a skipped name is on the way to it
from the root, and so if its text names a way from the root without links. Otherwise the directory
is not left out: it has every entry that is found in it, with no skipped name on the way from it. -/
theorem discover_prunes_named {output dependencies : Path} {entries : List Path}
    (houtput : Config.resolveOutputDir host p.root p.config.outputDir = .ok output)
    (hdependencies : Config.resolveDependencyRoot host p.root p.config.dependencyRoot =
      .ok dependencies)
    (h : p.discover host = .ok entries) :
    ∃ outputName dependencyName, (Path.parse p.config.outputDir).firstPart? = some outputName ∧
      (Path.parse p.config.dependencyRoot).firstPart? = some dependencyName ∧
      (∀ d ∈ [output, dependencies], ∀ rel, d.relativeTo? p.root = some rel →
        (outputName ∈ rel ∨ dependencyName ∈ rel → ∀ entry ∈ entries, ¬ entry.IsInside d) ∧
        (outputName ∉ rel → dependencyName ∉ rel → ∀ sub, sub ≠ [] →
          (d.join ⟨.relative, sub⟩ ∈ entries ↔ outputName ∉ sub.dropLast ∧
            dependencyName ∉ sub.dropLast ∧ p.Finds host (rel ++ sub)))) ∧
      ∀ root, p.root = Path.absolute root →
        (host.files.IsStraight (root ++ (Path.parse p.config.outputDir).parts) →
          ∀ entry ∈ entries, ¬ entry.IsInside output) ∧
        ((Path.parse p.config.dependencyRoot).anchor = .relative →
          ¬ dependencyName.startsWith "~" →
          host.files.IsStraight (root ++ (Path.parse p.config.dependencyRoot).parts) →
          ∀ entry ∈ entries, ¬ entry.IsInside dependencies) := by
  obtain ⟨skipped, hskipped, _⟩ := Outcome.exists_of_bind_ok h
  obtain ⟨outputName, dependencyName, hfirst, hfirst', rfl⟩ := skippedDirs_eq hskipped
  have hnames (names : List String) : outputName ∉ names ∧ dependencyName ∉ names ↔
      ∀ name ∈ names, name ∉ [outputName, dependencyName] := by
    constructor
    · rintro ⟨hout, hdep⟩ name hname
      simp only [List.mem_cons, List.not_mem_nil, or_false, not_or]
      exact ⟨fun heq => hout (heq ▸ hname), fun heq => hdep (heq ▸ hname)⟩
    · intro hall
      exact ⟨fun hmem => hall _ hmem (by simp), fun hmem => hall _ hmem (by simp)⟩
  refine ⟨outputName, dependencyName, hfirst, hfirst', ?_, ?_⟩
  · intro d _ rel hrel
    constructor
    · rintro (hname | hname)
      · exact not_isInside_of_skipped hskipped h hrel hname (by simp)
      · exact not_isInside_of_skipped hskipped h hrel hname (by simp)
    · intro hout hdep sub hsub
      rw [inside_of_discover hskipped h hrel hsub, ← hnames, ← hnames]
      exact ⟨fun hfound => ⟨hfound.2.1.1, hfound.2.1.2, hfound.2.2⟩,
        fun hfound => ⟨⟨hout, hdep⟩, ⟨hfound.1, hfound.2.1⟩, hfound.2.2⟩⟩
  · intro root hroot
    constructor
    · intro hstraight
      have hname := mem_parts_of_firstPart? (anchor_of_resolveOutputDir houtput) hfirst
      exact not_isInside_of_skipped hskipped h (output_straight hroot houtput hstraight) hname
        (by simp)
    · intro hrelative hhome hstraight
      have hrel := dependencies_straight hroot hdependencies hrelative hfirst' hhome hstraight
      exact not_isInside_of_skipped hskipped h hrel (mem_parts_of_firstPart? hrelative hfirst')
        (by simp)

/-- A dependency in a directory below the root. -/
def vendored : Host where
  files :=
    { entries := [(["lib"], .directory), (["lib", "Dep.sol"], Sources.sampleFile [] "Dep" [])]
      distinct := by decide }
  workingDirectory := []
  home := Path.absolute []
  accounts := []

/-- The project at the root, with a text for the directory of dependencies. -/
def vendoring (text : String) : Project :=
  ⟨Path.absolute [], { Config.standard with dependencyRoot := text }⟩

theorem resolveOutputDir_vendoring (text : String) :
    Config.resolveOutputDir vendored (vendoring text).root (vendoring text).config.outputDir =
      .ok (Path.absolute [".solgraph"]) := by
  have houtput : Config.resolveOutputDir vendored (Path.absolute []) ".solgraph" =
      .ok (Path.absolute [".solgraph"]) := by cbv
  exact houtput

theorem discover_vendored : ∃ entries, discover (vendoring "lib") vendored = .ok entries ∧
    Config.resolveDependencyRoot vendored (Path.absolute []) "lib" = .ok (Path.absolute ["lib"]) ∧
    ∀ entry ∈ entries, ¬ entry.IsInside (Path.absolute ["lib"]) := by
  have hdependencies : Config.resolveDependencyRoot vendored (Path.absolute []) "lib" =
      .ok (Path.absolute ["lib"]) := by cbv
  have hdiscover : discover (vendoring "lib") vendored = .ok [] := by cbv
  obtain ⟨_, dependencyName, _, hfirst, hpruned, _⟩ :=
    discover_prunes_named (resolveOutputDir_vendoring "lib") hdependencies hdiscover
  obtain rfl : "lib" = dependencyName := Option.some.inj hfirst
  exact ⟨_, hdiscover, hdependencies, (hpruned _ (by simp) ["lib"] rfl).1 (.inr (by simp))⟩

/-- An absolute text for a directory below the root is valid, and the directory is not left out:
its dependency becomes an entry. -/
theorem dependency_discovered_as_entry :
    Schema.validate Config.model Config.reader (.object [("dependency_root", .string "/lib")]) =
      .ok (vendoring "/lib").config ∧
    Config.resolveOutputDir vendored (vendoring "/lib").root (vendoring "/lib").config.outputDir =
      .ok (Path.absolute [".solgraph"]) ∧
    ∃ dependencies entries, Config.resolveDependencyRoot vendored (vendoring "/lib").root
        (vendoring "/lib").config.dependencyRoot = .ok dependencies ∧
      dependencies.relativeTo? (vendoring "/lib").root = some ["lib"] ∧
      discover (vendoring "/lib") vendored = .ok entries ∧
      ∃ entry ∈ entries, entry.IsInside dependencies := by
  have hdependencies : Config.resolveDependencyRoot vendored (Path.absolute []) "/lib" =
      .ok (Path.absolute ["lib"]) := by cbv
  have hdiscover : discover (vendoring "/lib") vendored =
      .ok [Path.absolute ["lib", "Dep.sol"]] := by cbv
  refine ⟨by cbv, resolveOutputDir_vendoring "/lib", _, _, hdependencies, rfl, hdiscover, _,
    List.mem_singleton_self _, ["Dep.sol"], by simp, rfl⟩

end Project
end SolidityCalls
