import SolidityCalls.Artifact.Bundle
import SolidityCalls.Artifact.Listing
import SolidityCalls.Config
import SolidityCalls.Discover

/-! Projects: linking their entry files, writing the artifacts, and comparing artifacts written
before with what the sources give now. -/
namespace SolidityCalls

structure Project where
  /-- The resolved root. -/
  root : Path
  config : Config

namespace Project

/-- The project at a root. A configuration that is not given is read from the root. -/
def load (host : Host) (root : Path) (config : Option Config) : Except Failure Project := do
  let root ← host.resolve root
  match config with
  | some config => return ⟨root, config⟩
  | none => return ⟨root, ← Config.load host root⟩

/-- The names of directories that hold no entry files: the first components of the output
directory and of the dependency root. -/
def skippedDirs (p : Project) : Except Failure (List String) :=
  [p.config.outputDir, p.config.dependencyRoot].mapM fun text =>
    match (Path.parse text).firstPart? with
    | some name => .ok name
    | none => .error .emptyPath

/-- The entry files found below the root. -/
def discover (p : Project) (host : Host) : Except Failure (List Path) := do
  Discover.files host p.root {
    skipDirs := ← p.skippedDirs
    includes := p.config.includes
    excludes := p.config.excludes
    nestedIgnores := p.config.nestedIgnores }

/-- The entry files: those given, or all that are found. -/
def entries (p : Project) (host : Host) : Option (List Path) → Except Failure (List Path)
  | some files => .ok files
  | none => p.discover host

/-- The artifacts of the entry files. -/
def link (p : Project) (host : Host) (entries : List Path) : Logged Artifact.Bundle := do
  Logged.tell (.linking entries.length p.root)
  let dependencies ← .ofExcept (Config.resolveDependencyRoot host p.root p.config.dependencyRoot)
  let universes ← Universe.build host dependencies p.config.allowParseErrors entries
  return .ofUniverses p.root universes

/-- The directory the artifacts go to, which the configuration names unless it is given. -/
def outputDir (p : Project) (host : Host) : Option Path → Except Failure Path
  | some directory => .ok directory
  | none => Config.resolveOutputDir host p.root p.config.outputDir

/-- What to generate, and where. -/
structure Request where
  root : Path
  config : Option Config
  entries : Option (List Path)
  outDir : Option Path

/-- Artifacts and the directory they go to. -/
structure Plan where
  directory : Path
  entryCount : Nat
  bundle : Artifact.Bundle

/-- Everything up to the writing. -/
def plan (host : Host) (r : Request) : Logged Plan := do
  let p ← .ofExcept (load host r.root r.config)
  let directory ← .ofExcept (p.outputDir host r.outDir)
  let entries ← .ofExcept (p.entries host r.entries)
  let bundle ← p.link host entries
  return ⟨directory, entries.length, bundle⟩

/-- Writes files into a directory, which is made if it is missing. Files written before a failure
stay. -/
def store (host : Host) (directory : Path) : List (String × Bytes) → FileSystem × Option Failure
  | [] => (host.files, none)
  | (name, bytes) :: rest =>
    match host.makeDirectories directory with
    | (files, some e) => (files, some e)
    | (files, none) =>
      match { host with files }.write (directory.child name) bytes with
      | .error e => (files, some e)
      | .ok files => store { host with files } directory rest

/-- Counts of a run, and the files it wrote. -/
structure Report where
  entryFileCount : Nat
  contractCount : Nat
  callCount : Nat
  unresolvedCount : Nat
  importCycleCount : Nat
  artifacts : List Path
  deriving DecidableEq, Repr

def Plan.report (p : Plan) : Report where
  entryFileCount := p.entryCount
  contractCount := p.bundle.contracts.length
  callCount := p.bundle.calls.length
  unresolvedCount := p.bundle.unresolvedCount
  importCycleCount := p.bundle.summary.importCycles.length
  artifacts := Artifact.Kind.all.map fun k => p.directory.child k.fileName

/-- A run that may have changed files, with what it told. -/
structure Outcome (α : Type) where
  files : FileSystem
  log : List LogEvent
  result : Except Failure α

/-- Links a project and writes its artifacts. -/
def generate (host : Host) (r : Request) : Outcome Report :=
  let planned := plan host r
  match planned.result with
  | .error e => ⟨host.files, planned.log, .error e⟩
  | .ok p =>
    match store host p.directory p.bundle.files with
    | (files, some e) => ⟨files, planned.log, .error e⟩
    | (files, none) => ⟨files, planned.log, p.bundle.check.map fun _ => p.report⟩

/-- Needs a directory of artifacts. -/
def requireArtifacts (host : Host) (directory : Path) : Except Failure Unit := do
  if !(← host.exists? directory) then throw (.noArtifacts directory)
  if !(← host.isDirectory directory) then throw (.artifactsNotDirectory directory)

/-- How the artifacts that the sources give now differ from those in a directory. They are made for
the comparison and not written. -/
def verify (host : Host) (root directory : Path) (entries : Option (List Path)) :
    Logged Artifact.Difference := do
  .ofExcept (requireArtifacts host directory)
  let p ← .ofExcept (load host root none)
  let entries ← .ofExcept (p.entries host entries)
  let bundle ← p.link host entries
  .ofExcept bundle.check
  return .between (← .ofExcept (Artifact.Listing.ofDirectory host directory)) bundle.files

end Project
end SolidityCalls
