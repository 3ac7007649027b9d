import SolidityCalls.Artifact.Validation
import SolidityCalls.CommandLine.Help
import SolidityCalls.CommandLine.Invocation
import SolidityCalls.Project

/-! Running a call of the program: its exit code, what it prints and the files it leaves. -/
namespace SolidityCalls.CommandLine

/-- How a call ends. -/
structure Ending where
  exit : Nat
  stdout : String
  stderr : String
  deriving DecidableEq, Repr

/-- A call that ends with an exit code and a message for standard error. -/
def Ending.quiet (exit : Nat) (stderr : String) : Ending := ⟨exit, "", stderr⟩

/-- The line that tells what is wrong with the arguments. -/
def faultLine (scope : Option Command) (f : Fault) : String :=
  speaker scope ++ ": error: " ++ f.message

/-- Help is a success; faulty arguments show how the program is used. -/
def Stop.ending : Stop → Ending
  | .help scope => ⟨0, helpPage scope, ""⟩
  | .fault scope f =>
    .quiet 2 (String.join ((usageLines scope ++ [faultLine scope f]).map (· ++ "\n")))

/-- The line that an event shows. Without `-v` only warnings show, and without their source. -/
def eventLine? (verbosity : Nat) (e : LogEvent) : Option String :=
  match verbosity with
  | 0 => if e.level = .warning then some e.message else none
  | 1 => if LogLevel.info.rank ≤ e.level.rank then some e.line else none
  | _ => some e.line

def eventText (verbosity : Nat) (log : List LogEvent) : String :=
  String.join ((log.filterMap (eventLine? verbosity)).map (· ++ "\n"))

/-- The resolved path of a text in an argument. -/
def located (host : Host) (text : String) : Except Failure Path := do
  host.resolve (← host.expandUser (Path.parse text))

def locatedFiles (host : Host) : Option (List String) → Except Failure (Option (List Path))
  | none => .ok none
  | some files => do return some (← files.mapM (located host))

/-- The directory that the values of a switch name. There must be one value. -/
def locatedDirectory (host : Host) : List String → Except Failure Path
  | [text] => located host text
  | _ => .error .noDirectoryGiven

/-- The directory of the artifacts, which the configuration names unless it is given. -/
def artifactsDir (host : Host) (root : Path) : Option (List String) → Except Failure Path
  | some values => locatedDirectory host values
  | none => do
    let config ← Config.load host root
    host.resolve (root.join (Path.parse config.outputDir))

def request (host : Host) (root : Path) (files outDir : Option (List String)) :
    Except Failure Project.Request := do
  let entries ← locatedFiles host files
  match outDir with
  | none => return ⟨root, none, entries, none⟩
  | some values => return ⟨root, none, entries, some (← locatedDirectory host values)⟩

def generate (host : Host) (root : Path) (files outDir : Option (List String)) :
    Project.Outcome Ending :=
  match request host root files outDir with
  | .error e => ⟨host.files, [], .error e⟩
  | .ok r =>
    let done := Project.generate host r
    ⟨done.files, done.log, done.result.map fun _ => .quiet 0 ""⟩

def validate (host : Host) (root : Path) (directory : Option (List String)) :
    Except Failure Ending := do
  let verdict ← Artifact.validate host (← artifactsDir host root directory) false
  if verdict.ok then return .quiet 0 ""
  let line (f : Artifact.Finding) := f.location ++ ": " ++ f.message ++ "\n"
  return .quiet 1 (String.join (verdict.errors.map line))

def differenceText (d : Artifact.Difference) : String :=
  let lines (label : String) (names : List String) : List String :=
    names.map fun name => label ++ ": " ++ name ++ "\n"
  String.join
    (lines "missing" d.missing ++ lines "extra" d.extra ++ lines "mismatches" d.mismatches)

/-- A failure of a comparison that something is missing or no directory. -/
def isMissingDirectory : Failure → Bool
  | .noArtifacts _ | .artifactsNotDirectory _ => true
  | .system .notFound _ | .system .notDirectory _ => true
  | _ => false

def errorText (e : Failure) : String := "error: " ++ e.message ++ "\n"

def verify (host : Host) (root : Path) (files directory : Option (List String)) :
    Logged Ending := do
  let directory ← .ofExcept (artifactsDir host root directory)
  let entries ← .ofExcept (locatedFiles host files)
  let compared := Project.verify host root directory entries
  match compared.result with
  | .ok d => ⟨compared.log, .ok (if d.isEmpty then .quiet 0 "" else .quiet 1 (differenceText d))⟩
  | .error e =>
    if isMissingDirectory e then
      ⟨compared.log, .ok (.quiet 2 ("artifacts-dir: " ++ directory.render ++ "\n" ++ errorText e))⟩
    else ⟨compared.log, .error e⟩

def act (host : Host) (root : Path) : Action → Project.Outcome Ending
  | .generate files outDir => generate host root files outDir
  | .validate directory => ⟨host.files, [], validate host root directory⟩
  | .verify files directory =>
    let done := verify host root files directory
    ⟨host.files, done.log, done.result⟩

/-- Failures that the user is to blame for end the call; others stay failures. -/
def recover : Except Failure Ending → Except Failure Ending
  | .error e => if e.isUserError then .ok (.quiet 2 (errorText e)) else .error e
  | .ok ending => .ok ending

/-- Runs what was asked for. What is told on the way comes before the ending's own text. -/
def Invocation.run (host : Host) (i : Invocation) : Project.Outcome Ending :=
  match located host i.root with
  | .error e => ⟨host.files, [], .error e⟩
  | .ok root =>
    let done := act host root i.action
    ⟨done.files, done.log, (recover done.result).map fun ending =>
      { ending with stderr := eventText i.verbosity done.log ++ ending.stderr }⟩

/-- A whole call of the program. -/
def run (host : Host) (args : List String) : Project.Outcome Ending :=
  match Invocation.parse args with
  | .error stop => ⟨host.files, [], .ok stop.ending⟩
  | .ok i => i.run host

end SolidityCalls.CommandLine
