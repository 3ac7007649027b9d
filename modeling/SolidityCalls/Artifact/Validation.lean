import SolidityCalls.Artifact.Spec
import SolidityCalls.Host
import SolidityCalls.Json.Reader
import SolidityCalls.Text.Lines

/-! Validation of a directory of artifacts: every file is there, every record reads, and calls
agree with themselves. What is found does not depend on how strict the validation is; strictness
only decides whether a version that is left out counts as an error. -/
namespace SolidityCalls.Artifact

inductive Complaint where
  | noDirectory
  | notDirectory
  | missingFile
  | unreadable (cause : SystemError)
  | unreadableSummary (cause : SystemError)
  | notJson
  | notObject
  | unfit (report : Schema.Report)
  /-- A call is resolved although it has no target, or the other way round. -/
  | flagDisagrees
  | malformedTarget (callee : String)
  | otherVersion (version : Int)
  | missingVersion
  deriving DecidableEq, Repr

structure Finding where
  artifact : String
  path : Path
  line : Option Nat
  complaint : Complaint
  deriving DecidableEq, Repr

namespace Finding

def message (f : Finding) : String :=
  match f.complaint with
  | .noDirectory => "Artifacts directory does not exist."
  | .notDirectory => "Artifacts path is not a directory."
  | .missingFile => "Required artifact file is missing."
  | .unreadable cause => "Failed to read file: " ++ cause.message f.path ++ "."
  | .unreadableSummary cause => "Invalid JSON: " ++ cause.message f.path ++ "."
  | .notJson => "Invalid JSON."
  | .notObject => "Expected JSON object for the summary."
  | .unfit report => "Schema validation failed: " ++ report.text
  | .flagDisagrees => "resolved flag disagrees with callee."
  | .malformedTarget callee => "Malformed call target " ++ Text.quoted callee ++ "."
  | .otherVersion version =>
    "Schema version mismatch: expected " ++ toString schemaVersion ++ ", got " ++
      toString version ++ "."
  | .missingVersion => "Missing schema_version; defaulted to " ++ toString schemaVersion ++ "."

def location (f : Finding) : String :=
  match f.line with
  | some line => f.path.render ++ ":" ++ toString line
  | none => f.path.render

end Finding

/-- A contract, a colon and a function, neither of them empty; types may follow after further
colons. -/
def isCallTarget (cs : List Char) : Bool :=
  match cs.takeWhile (· ≠ ':'), cs.dropWhile (· ≠ ':') with
  | _ :: _, _ :: rest => rest.takeWhile (· ≠ ':') ≠ []
  | _, _ => false

/-- What is wrong with a call edge that reads. -/
def CallEdge.complaint? (e : CallEdge) : Option Complaint :=
  if e.resolved = (e.callee == unresolvedMark) then some .flagDisagrees
  else if e.resolved && !isCallTarget e.callee.toList then some (.malformedTarget e.callee)
  else none

/-- What validation looks at in a record. -/
structure Outline where
  version : Int
  complaint : Option Complaint

/-- Reads a record of an artifact. -/
def Kind.outline : Kind → Schema.Reader Outline
  | .contracts, v => (fun e => ⟨e.schemaVersion, none⟩) <$> ContractEntry.reader v
  | .calls, v => (fun e => ⟨e.schemaVersion, e.complaint?⟩) <$> CallEdge.reader v
  | .summary, v => (fun s => ⟨s.schemaVersion, none⟩) <$> Summary.reader v

/-- A record that reads, with the version it gives. -/
structure Reading where
  complaint : Option Complaint
  version : Option Int

def Kind.read (k : Kind) (v : Value) : Except Complaint Reading :=
  match Schema.validate k.model k.outline v with
  | .error report => .error (.unfit report)
  | .ok outline =>
    .ok ⟨outline.complaint, (v.field? "schema_version").map fun _ => outline.version⟩

/-- The complaints about versions that a file has had. Each is made once. -/
structure VersionNotes where
  other : Bool
  missing : Bool

def VersionNotes.none : VersionNotes := ⟨false, false⟩

/-- The complaint about a version that is given or left out, and the notes after it. -/
def VersionNotes.next (notes : VersionNotes) : (version : Option Int) →
    List Complaint × VersionNotes
  | some version =>
    if version ≠ schemaVersion ∧ !notes.other then
      ([.otherVersion version], { notes with other := true })
    else ([], notes)
  | .none =>
    if notes.missing then ([], notes) else ([.missingVersion], { notes with missing := true })

/-- The complaints about one line that is not blank. -/
def Kind.lineComplaints (k : Kind) (notes : VersionNotes) (line : Bytes) :
    List Complaint × VersionNotes :=
  match Json.readBytes? line with
  | none => ([.notJson], notes)
  | some v =>
    match k.read v with
    | .error complaint => ([complaint], notes)
    | .ok reading =>
      let (complaints, notes) := notes.next reading.version
      (reading.complaint.toList ++ complaints, notes)

/-- The complaints about lines that start at a line number. Blank lines count. -/
def Kind.linesComplaints (k : Kind) (notes : VersionNotes) : (number : Nat) → List Bytes →
    List (Nat × Complaint)
  | _, [] => []
  | number, line :: lines =>
    match Text.stripBytes line with
    | [] => k.linesComplaints notes (number + 1) lines
    | text =>
      let (complaints, notes) := k.lineComplaints notes text
      complaints.map (number, ·) ++ k.linesComplaints notes (number + 1) lines

/-- The complaints about the summary. -/
def summaryComplaints (bytes : Bytes) : List Complaint :=
  match Json.readBytes? bytes with
  | none => [.notJson]
  | some (.object fields) =>
    match Kind.summary.read (.object fields) with
    | .error complaint => [complaint]
    | .ok reading => (VersionNotes.none.next reading.version).1
  | some _ => [.notObject]

/-- The complaints about the file of an artifact, with line numbers. -/
def Kind.complaints (k : Kind) (content : Except SystemError Content) :
    List (Option Nat × Complaint) :=
  match k, content with
  | .summary, .error e => [(none, .unreadableSummary e)]
  | .summary, .ok content => (summaryComplaints content.bytes).map (none, ·)
  | _, .error e => [(none, .unreadable e)]
  | k, .ok content =>
    (k.linesComplaints .none 1 (Text.lines content.bytes)).map fun (line, c) => (some line, c)

def Kind.findings (host : Host) (directory : Path) (k : Kind) :
    Except Failure (List Finding) := do
  let path := directory.child k.fileName
  let found :=
    if ← host.exists? path then k.complaints (host.read path) else [(none, .missingFile)]
  return found.map fun (line, complaint) => ⟨k.key, path, line, complaint⟩

/-- Everything that is found in a directory. -/
def findings (host : Host) (directory : Path) : Except Failure (List Finding) := do
  if !(← host.exists? directory) then return [⟨"artifacts_dir", directory, none, .noDirectory⟩]
  if !(← host.isDirectory directory) then
    return [⟨"artifacts_dir", directory, none, .notDirectory⟩]
  return (← Kind.all.mapM (Kind.findings host directory)).flatten

structure Verdict where
  errors : List Finding
  warnings : List Finding

def Verdict.ok (v : Verdict) : Bool := v.errors.isEmpty

/-- A version that is left out is an error if the validation is strict, and a warning
otherwise. -/
def isError (strict : Bool) (f : Finding) : Bool := strict || f.complaint ≠ .missingVersion

/-- What is found, divided into errors and warnings. -/
def Verdict.of (strict : Bool) (found : List Finding) : Verdict :=
  ⟨found.filter (isError strict), found.filter fun f => !isError strict f⟩

def validate (host : Host) (directory : Path) (strict : Bool) : Except Failure Verdict := do
  return .of strict (← findings host directory)

end SolidityCalls.Artifact
