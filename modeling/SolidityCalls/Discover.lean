import SolidityCalls.Data.OrderedMap
import SolidityCalls.Host
import SolidityCalls.Ignore.Rule

/-! Discovery of the source files below a directory. Symbolic links are neither followed nor found,
and a path that is too long to be asked for makes the discovery fail. -/
namespace SolidityCalls

/-- What is left out of a discovery. -/
structure Selection where
  skipDirs : List String
  includes : List String
  excludes : List String
  nestedIgnores : Bool

namespace Discover

/-- The rules of an ignore file and the directory they apply to. -/
structure IgnoreFile where
  directory : Location
  rules : List Ignore.Rule

def ignoreName : String := ".gitignore"

def posix (rel : Location) : String := "/".intercalate rel

def sortedByPath (rels : List Location) : List Location :=
  rels.mergeSort fun a b => posix a ≤ posix b

/-- The ignore file of a directory that is below the one that is searched. -/
def ignorePath (directory : Path) (rel : Location) : Path :=
  directory.join ⟨.relative, rel ++ [ignoreName]⟩

/-- The directories whose ignore files count, in the order of the files' paths. -/
def ignoreDirectories (host : Host) (directory : Path) (base : Location) (nested : Bool) :
    Except Failure (List Location) := do
  let directories := (host.files.below base).filterMap fun
    | (rel, .directory) => some rel
    | _ => none
  let found ← (if nested then [] :: directories else [[]]).filterM fun rel =>
    host.isFile (ignorePath directory rel)
  return (sortedByPath (found.map (· ++ [ignoreName]))).map List.dropLast

def ignoreFiles (host : Host) (directory : Path) (base : Location) (nested : Bool) :
    Except Failure (List IgnoreFile) := do
  (← ignoreDirectories host directory base nested).mapM fun rel => do
    match host.read (ignorePath directory rel) with
    | .ok content => return ⟨rel, ← Ignore.rulesOf content.bytes⟩
    | .error e => throw (.system e (ignorePath directory rel))

/-- Some ignore file above a path ignores it. -/
def isIgnored : List IgnoreFile → Location → Except Failure Bool
  | [], _ => .ok false
  | f :: files, rel => do
    if f.directory.isPrefixOf rel then
      if ← Ignore.ignores f.rules (posix (rel.drop f.directory.length)) then return true
    isIgnored files rel

def isSource (name : String) : Bool := ".sol".toList.isSuffixOf name.toList

def isSelected (s : Selection) (ignores : List IgnoreFile) (rel : Location) :
    Except Failure Bool := do
  if rel.dropLast.any fun part => s.skipDirs.contains part then return false
  if ← isIgnored ignores rel then return false
  let path := posix rel
  return (s.includes.isEmpty || s.includes.any fun p => Glob.isMatch p path) &&
    !s.excludes.any fun p => Glob.isMatch p path

/-- The source that a search finds at an entry below a directory. It enters every directory, and it
asks what stands at every name of a source. -/
def visit (directory : Path) (s : Selection) (ignores : List IgnoreFile) :
    Location × Entry → Except Failure (Option Location)
  | (rel, e) =>
    match e, isSource (rel.getLast?.getD "") with
    | .file _, true => do
      Host.checkPath (directory.join ⟨.relative, rel⟩)
      return if ← isSelected s ignores rel then some rel else none
    | .directory, _ | .link _, true => do
      Host.checkPath (directory.join ⟨.relative, rel⟩)
      return none
    | _, false => .ok none

/-- The source files below a directory, as paths from it, in the order of these paths. -/
def sources (host : Host) (directory : Path) (s : Selection) :
    Except Failure (List Location) := do
  let _ ← host.resolve directory
  match host.find directory with
  | .ok (base, .directory) =>
    let ignores ← ignoreFiles host directory base s.nestedIgnores
    return sortedByPath (← (host.files.below base).filterMapM (visit directory s ignores))
  | .error .nameTooLong => throw (.system .nameTooLong directory)
  | _ => return []

/-- The source files with the directory in front, as it was given. -/
def files (host : Host) (directory : Path) (s : Selection) : Except Failure (List Path) := do
  return (← sources host directory s).map fun rel => directory.join ⟨.relative, rel⟩

end Discover
end SolidityCalls
