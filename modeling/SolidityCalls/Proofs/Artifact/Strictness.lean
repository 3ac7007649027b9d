import SolidityCalls.Proofs.Artifact.WrittenRecords

/-! Validation as a sheet that is filled in while the artifacts are read. A sheet knows from the
start how strict it is, and consults that where a version is left out. Filling it in comes to the
same as finding everything first and dividing it up afterwards, so a strict and a lenient validation
find the same and differ in where they put versions that are left out. -/
namespace SolidityCalls.Artifact

/-- What has been written down when the file of an artifact is read. -/
structure Sheet where
  artifact : String
  path : Path
  strict : Bool
  verdict : Verdict
  notes : VersionNotes

namespace Sheet

def finding (s : Sheet) (x : Option Nat × Complaint) : Finding := ⟨s.artifact, s.path, x.1, x.2⟩

def error (s : Sheet) (line : Option Nat) (c : Complaint) : Sheet :=
  { s with verdict := ⟨s.verdict.errors ++ [s.finding (line, c)], s.verdict.warnings⟩ }

def warn (s : Sheet) (line : Option Nat) (c : Complaint) : Sheet :=
  { s with verdict := ⟨s.verdict.errors, s.verdict.warnings ++ [s.finding (line, c)]⟩ }

/-- Writes down what there is to say about a version, once for each file. -/
def version (s : Sheet) (line : Option Nat) : Option Int → Sheet
  | some version =>
    if version = schemaVersion then s
    else if s.notes.other then s
    else { s.error line (.otherVersion version) with notes := { s.notes with other := true } }
  | none =>
    if s.notes.missing then s
    else
      let s := { s with notes := { s.notes with missing := true } }
      if s.strict then s.error line .missingVersion else s.warn line .missingVersion

/-- Writes down what is wrong with a value of an artifact. -/
def value (k : Kind) (s : Sheet) (line : Option Nat) (v : Value) : Sheet :=
  match k.read v with
  | .error c => s.error line c
  | .ok reading =>
    match reading.complaint with
    | some c => (s.error line c).version line reading.version
    | none => s.version line reading.version

/-- Reads lines one after the other. Blank ones count and are passed over. -/
def lines (k : Kind) (s : Sheet) (number : Nat) : List Bytes → Sheet
  | [] => s
  | line :: rest =>
    match Text.stripBytes line with
    | [] => s.lines k (number + 1) rest
    | text =>
      match Json.readBytes? text with
      | none => (s.error (some number) .notJson).lines k (number + 1) rest
      | some v => (s.value k (some number) v).lines k (number + 1) rest

def summary (s : Sheet) (bytes : Bytes) : Sheet :=
  match Json.readBytes? bytes with
  | none => s.error none .notJson
  | some (.object fields) => s.value .summary none (.object fields)
  | some _ => s.error none .notObject

/-- Reads the file of an artifact. -/
def file (s : Sheet) : Kind → Except SystemError Content → Sheet
  | .summary, .error e => s.error none (.unreadableSummary e)
  | .summary, .ok content => s.summary content.bytes
  | .contracts, .error e | .calls, .error e => s.error none (.unreadable e)
  | .contracts, .ok content => s.lines .contracts 1 (Text.lines content.bytes)
  | .calls, .ok content => s.lines .calls 1 (Text.lines content.bytes)

end Sheet

/-- Reads one artifact of a directory and writes down what is wrong with it. -/
def inspectKind (host : Host) (directory : Path) (strict : Bool) (verdict : Verdict) (k : Kind) :
    Except Failure Verdict := do
  let sheet : Sheet := ⟨k.key, directory.child k.fileName, strict, verdict, .none⟩
  if !(← host.exists? sheet.path) then return (sheet.error none .missingFile).verdict
  return (sheet.file k (host.read sheet.path)).verdict

/-- Reads the artifacts of a directory one after the other. -/
def inspect (host : Host) (directory : Path) (strict : Bool) : Except Failure Verdict := do
  if !(← host.exists? directory) then
    return ⟨[⟨"artifacts_dir", directory, none, .noDirectory⟩], []⟩
  if !(← host.isDirectory directory) then
    return ⟨[⟨"artifacts_dir", directory, none, .notDirectory⟩], []⟩
  Kind.all.foldlM (inspectKind host directory strict) ⟨[], []⟩

namespace Verdict

def append (v w : Verdict) : Verdict := ⟨v.errors ++ w.errors, v.warnings ++ w.warnings⟩

theorem append_assoc (u v w : Verdict) : (u.append v).append w = u.append (v.append w) := by
  simp only [append, List.append_assoc]

theorem of_append (strict : Bool) (found more : List Finding) :
    of strict (found ++ more) = (of strict found).append (of strict more) := by
  simp only [of, append, List.filter_append]

theorem append_of_nil (v : Verdict) (strict : Bool) : v.append (of strict []) = v := by
  simp [append, of]

end Verdict

namespace Sheet

/-- Writes down complaints where they belong, and what has been noted about versions by then. -/
def receive (s : Sheet) (found : List (Option Nat × Complaint)) (notes : VersionNotes) : Sheet :=
  { s with verdict := s.verdict.append (.of s.strict (found.map s.finding)), notes }

theorem receive_receive (s : Sheet) (found more : List (Option Nat × Complaint))
    (notes notes' : VersionNotes) :
    (s.receive found notes).receive more notes' = s.receive (found ++ more) notes' := by
  simp only [receive, List.map_append, Verdict.of_append, ← Verdict.append_assoc]
  rfl

theorem receive_nil (s : Sheet) : s.receive [] s.notes = s := by
  simp only [receive, List.map_nil, Verdict.append_of_nil]

/-- Only a version that is left out is ever a warning. -/
theorem error_eq {s : Sheet} {line : Option Nat} {c : Complaint} (hc : c ≠ .missingVersion) :
    s.error line c = s.receive [(line, c)] s.notes := by
  simp [error, receive, Verdict.append, Verdict.of, isError, finding, hc]

theorem version_eq (s : Sheet) (line : Option Nat) (version : Option Int) :
    s.version line version =
      s.receive ((s.notes.next version).1.map (line, ·)) (s.notes.next version).2 := by
  cases version with
  | some version =>
    by_cases hversion : version = schemaVersion
    · simp [Sheet.version, VersionNotes.next, hversion, receive_nil]
    · cases hother : s.notes.other with
      | true => simp [Sheet.version, VersionNotes.next, hother, receive_nil]
      | false =>
        simp [Sheet.version, VersionNotes.next, hversion, hother, error_eq, receive]
  | none =>
    cases hmissing : s.notes.missing with
    | true => simp [Sheet.version, VersionNotes.next, hmissing, receive_nil]
    | false =>
      cases hstrict : s.strict <;>
        simp [Sheet.version, VersionNotes.next, hmissing, hstrict, error, warn, receive,
          Verdict.append, Verdict.of, isError, finding]

end Sheet

theorem CallEdge.complaint?_ne_missingVersion (e : CallEdge) :
    e.complaint? ≠ some .missingVersion := by
  unfold complaint?
  split_ifs <;> simp

namespace Kind

variable {k : Kind} {v : Value}

theorem outline_complaint_ne {o : Outline} (h : k.outline v = .ok o) :
    o.complaint ≠ some .missingVersion := by
  cases k with
  | contracts | summary =>
    obtain ⟨_, _, rfl⟩ := Checked.map_eq_ok_iff.mp h
    simp
  | calls =>
    obtain ⟨e, _, rfl⟩ := Checked.map_eq_ok_iff.mp h
    exact e.complaint?_ne_missingVersion

theorem read_error_ne {c : Complaint} (h : k.read v = .error c) : c ≠ .missingVersion := by
  unfold read at h
  split at h
  next => cases h; simp
  next => cases h

theorem read_complaint_ne {reading : Reading} (h : k.read v = .ok reading) :
    reading.complaint ≠ some .missingVersion := by
  unfold read Schema.validate at h
  cases houtline : k.outline v with
  | error issues => simp [houtline] at h
  | ok outline =>
    simp only [houtline, Except.ok.injEq] at h
    exact h ▸ outline_complaint_ne houtline

/-- Nothing but its version is ever wrong with a summary that reads. -/
theorem read_summary_complaint {reading : Reading} (h : Kind.summary.read v = .ok reading) :
    reading.complaint = none := by
  unfold read Schema.validate at h
  cases houtline : Kind.summary.outline v with
  | error issues => simp [houtline] at h
  | ok o =>
    simp only [houtline, Except.ok.injEq] at h
    obtain ⟨_, _, rfl⟩ := Checked.map_eq_ok_iff.mp houtline
    exact h ▸ rfl

/-- The complaints about a value of an artifact. -/
def valueComplaints (k : Kind) (notes : VersionNotes) (v : Value) :
    List Complaint × VersionNotes :=
  match k.read v with
  | .error c => ([c], notes)
  | .ok reading =>
    (reading.complaint.toList ++ (notes.next reading.version).1, (notes.next reading.version).2)

end Kind

namespace Sheet

theorem value_eq (k : Kind) (s : Sheet) (line : Option Nat) (v : Value) :
    s.value k line v = s.receive ((k.valueComplaints s.notes v).1.map (line, ·))
      (k.valueComplaints s.notes v).2 := by
  unfold value Kind.valueComplaints
  cases hread : k.read v with
  | error c => exact error_eq (Kind.read_error_ne hread)
  | ok reading =>
    have hmissing := Kind.read_complaint_ne hread
    obtain ⟨complaint, version⟩ := reading
    cases complaint with
    | none => exact s.version_eq line version
    | some c =>
      have hc : c ≠ .missingVersion := fun h => hmissing (congrArg some h)
      simp only [error_eq hc, version_eq, receive_receive]
      rfl

/-- Lines are received one after the other, the notes going from each to the next. -/
theorem lines_eq (k : Kind) (s : Sheet) (number : Nat) (ls : List Bytes) :
    ∃ notes, s.lines k number ls =
      s.receive ((k.linesComplaints s.notes number ls).map (Prod.map some id)) notes := by
  induction ls generalizing s number with
  | nil => exact ⟨s.notes, s.receive_nil.symm⟩
  | cons line rest ih =>
    rw [lines, Kind.linesComplaints]
    cases Text.stripBytes line with
    | nil => exact ih s (number + 1)
    | cons b bs =>
      -- What one line receives, with what the lines after it receive.
      have hnext (found : List Complaint) (notes : VersionNotes) : ∃ notes',
          (s.receive (found.map (some number, ·)) notes).lines k (number + 1) rest =
            s.receive ((found.map (number, ·) ++ k.linesComplaints notes (number + 1) rest).map
              (Prod.map some id)) notes' := by
        obtain ⟨notes', hrest⟩ := ih (s.receive (found.map (some number, ·)) notes) (number + 1)
        refine ⟨notes', ?_⟩
        rw [hrest, receive_receive, List.map_append, List.map_map]
        rfl
      cases hjson : Json.readBytes? (b :: bs) with
      | none =>
        have hstep : s.error (some number) .notJson = _ := error_eq (by simp)
        have hline : k.lineComplaints s.notes (b :: bs) = ([.notJson], s.notes) := by
          rw [Kind.lineComplaints, hjson]
        simp only [hjson, hstep, hline]
        exact hnext [.notJson] s.notes
      | some v =>
        have hline : k.lineComplaints s.notes (b :: bs) = k.valueComplaints s.notes v := by
          rw [Kind.lineComplaints, hjson]
          rfl
        simp only [hjson, value_eq, hline]
        exact hnext (k.valueComplaints s.notes v).1 (k.valueComplaints s.notes v).2

theorem summary_eq {s : Sheet} (hnotes : s.notes = .none) (bytes : Bytes) :
    ∃ notes, s.summary bytes = s.receive ((summaryComplaints bytes).map (none, ·)) notes := by
  have hplain (c : Complaint) (hc : c ≠ .missingVersion) :
      ∃ notes, s.error none c = s.receive ([c].map (none, ·)) notes := ⟨s.notes, error_eq hc⟩
  unfold summary summaryComplaints
  cases Json.readBytes? bytes with
  | none => exact hplain .notJson (by simp)
  | some v =>
    cases v with
    | object fields =>
      have hvalue := value_eq .summary s none (.object fields)
      rw [hnotes, Kind.valueComplaints] at hvalue
      cases hread : Kind.summary.read (.object fields) with
      | error c =>
        simp only [hread] at hvalue ⊢
        exact ⟨_, hvalue⟩
      | ok reading =>
        simp only [hread, Kind.read_summary_complaint hread] at hvalue ⊢
        exact ⟨_, hvalue⟩
    | _ => exact hplain .notObject (by simp)

/-- The file of an artifact is received as what is found in it. -/
theorem file_eq {s : Sheet} (hnotes : s.notes = .none) (k : Kind)
    (content : Except SystemError Content) :
    ∃ notes, s.file k content = s.receive (k.complaints content) notes := by
  cases content with
  | error e => cases k <;> exact ⟨s.notes, error_eq (by simp)⟩
  | ok content =>
    cases k with
    | summary => exact summary_eq hnotes content.bytes
    | contracts =>
      have hlines := lines_eq .contracts s 1 (Text.lines content.bytes)
      rwa [hnotes] at hlines
    | calls =>
      have hlines := lines_eq .calls s 1 (Text.lines content.bytes)
      rwa [hnotes] at hlines

end Sheet

section Inspection

variable (host : Host) (directory : Path) (strict : Bool)

theorem inspectKind_eq (verdict : Verdict) (k : Kind) :
    inspectKind host directory strict verdict k =
      (k.findings host directory).map fun found => verdict.append (.of strict found) := by
  obtain ⟨notes, hfile⟩ := Sheet.file_eq
    (s := ⟨k.key, directory.child k.fileName, strict, verdict, .none⟩) rfl k
    (host.read (directory.child k.fileName))
  simp only [inspectKind, Kind.findings]
  cases host.exists? (directory.child k.fileName) with
  | error e => rfl
  | ok found =>
    simp only [Outcome.ok_bind]
    cases found with
    | false =>
      have hmissing : Sheet.error ⟨k.key, directory.child k.fileName, strict, verdict, .none⟩
          none .missingFile = _ := Sheet.error_eq (by simp)
      exact congrArg Except.ok (congrArg Sheet.verdict hmissing)
    | true => exact congrArg Except.ok (congrArg Sheet.verdict hfile)

/-- The artifacts are inspected one after the other. -/
theorem foldlM_inspectKind (ks : List Kind) (verdict : Verdict) :
    ks.foldlM (inspectKind host directory strict) verdict =
      (ks.mapM (Kind.findings host directory)).map fun found =>
        verdict.append (.of strict found.flatten) := by
  induction ks generalizing verdict with
  | nil => exact congrArg Except.ok (verdict.append_of_nil strict).symm
  | cons k ks ih =>
    rw [List.foldlM_cons, List.mapM_cons, inspectKind_eq]
    cases k.findings host directory with
    | error e => rfl
    | ok found =>
      refine (ih _).trans ?_
      cases ks.mapM (Kind.findings host directory) with
      | error e => rfl
      | ok more =>
        refine congrArg Except.ok ((verdict.append_assoc _ _).trans ?_)
        exact congrArg verdict.append (Verdict.of_append strict found more.flatten).symm

theorem validate_eq_inspect : validate host directory strict = inspect host directory strict := by
  unfold validate findings inspect
  cases host.exists? directory with
  | error e => rfl
  | ok found =>
    cases found with
    | false => cases strict <;> rfl
    | true =>
      cases host.isDirectory directory with
      | error e => rfl
      | ok isDirectory =>
        cases isDirectory with
        | false => cases strict <;> rfl
        | true =>
          refine Eq.trans ?_ (foldlM_inspectKind host directory strict Kind.all ⟨[], []⟩).symm
          cases Kind.all.mapM (Kind.findings host directory) <;> rfl

end Inspection

/-- A strict and a lenient verdict that come from the same findings. -/
structure AgreeUpToStrictness (strict lenient : Verdict) : Prop where
  no_warnings : strict.warnings = []
  errors_kept : strict.errors.filter (·.complaint ≠ .missingVersion) = lenient.errors
  errors_eased : strict.errors.filter (·.complaint = .missingVersion) = lenient.warnings
  ok_iff : strict.ok ↔ lenient.ok ∧ lenient.warnings = []

theorem Verdict.agreeUpToStrictness (found : List Finding) :
    AgreeUpToStrictness (.of true found) (.of false found) where
  no_warnings := by simp [of, isError]
  errors_kept := by
    show _ = found.filter fun f => isError false f
    simp [of, isError]
  errors_eased := by simp [of, isError]
  ok_iff := by
    have hnil : (∀ f, f ∉ found) ↔
        (∀ f ∈ found, ¬ isError false f) ∧ ∀ f ∈ found, isError false f := by grind
    simpa [Verdict.ok, of, isError] using hnil

/-- A validation can be read as one that fills in a sheet, and how strict it is changes nothing but
where versions that are left out are put. Validations that fail do so however strict they are. -/
theorem strict_and_lenient (host : Host) (directory : Path) :
    (∀ strict, validate host directory strict = inspect host directory strict) ∧
      ((∃ e, ∀ strict, validate host directory strict = .error e) ∨
        ∃ strict lenient, validate host directory true = .ok strict ∧
          validate host directory false = .ok lenient ∧ AgreeUpToStrictness strict lenient) := by
  refine ⟨validate_eq_inspect host directory, ?_⟩
  unfold validate
  cases findings host directory with
  | error e => exact .inl ⟨e, fun _ => rfl⟩
  | ok found => exact .inr ⟨_, _, rfl, rfl, Verdict.agreeUpToStrictness found⟩

end SolidityCalls.Artifact
