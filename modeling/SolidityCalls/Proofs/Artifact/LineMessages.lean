import SolidityCalls.Proofs.Artifact.TargetForm
import SolidityCalls.Proofs.Artifact.WrittenRecords

/-! What validation says about an artifact of lines. A line that is not blank is blamed for what it
is on its own: no JSON, no record, or a call that contradicts itself. Versions are blamed once for
the whole file, on the first record that gives another one and on the first that gives none. -/
namespace SolidityCalls.Artifact
open Schema

variable {α : Type}

/-- What the text of a line is taken for. -/
inductive LineReading (α : Type) where
  | notJson
  | unfit (issues : List Issue)
  /-- A record that reads, and whether it gives a version. -/
  | record (a : α) (versioned : Bool)

namespace LineReading

def of (read : Reader α) (text : Bytes) : LineReading α :=
  match Json.readBytes? text with
  | none => .notJson
  | some v =>
    match read v with
    | .error issues => .unfit issues
    | .ok a => .record a (v.field? "schema_version").isSome

/-- A record gives a version that is not the current one. -/
def givesOther (version : α → Int) : LineReading α → Bool
  | .record a true => version a ≠ schemaVersion
  | _ => false

/-- A record gives no version. -/
def leavesOut : LineReading α → Bool
  | .record _ false => true
  | _ => false

/-- What a line is blamed for on its own. -/
def blame (model : String) (flaw : α → Option Complaint) : LineReading α → List Complaint
  | .notJson => [.notJson]
  | .unfit issues => [.unfit ⟨model, issues⟩]
  | .record a _ => (flaw a).toList

/-- A record of the current version with nothing wrong about it. -/
def IsSound (version : α → Int) (flaw : α → Option Complaint) (r : LineReading α) : Prop :=
  ∃ a, r = .record a true ∧ version a = schemaVersion ∧ flaw a = none

end LineReading

/-- The lines of a file that are not blank, by number, and what they are taken for. -/
def lineReadings (read : Reader α) (number : Nat) (lines : List Bytes) :
    List (Nat × LineReading α) :=
  (numberedTexts number lines).map fun (n, text) => (n, .of read text)

/-- The number of the first line that is taken for such. -/
def firstLine? (p : LineReading α → Bool) (lines : List (Nat × LineReading α)) : Option Nat :=
  (lines.find? fun x => p x.2).map (·.1)

/-- The complaints about versions on a line, when those about a whole file are on the given
lines. -/
def versionComplaints (version : α → Int) (other missing : Option Nat) (n : Nat) :
    LineReading α → List Complaint
  | .record a _ =>
    (if other = some n then [.otherVersion (version a)] else []) ++
      if missing = some n then [.missingVersion] else []
  | _ => []

/-- The complaints about lines, when those about the versions of a whole file are on the given
lines. -/
def complaintsOn (model : String) (version : α → Int) (flaw : α → Option Complaint)
    (other missing : Option Nat) (lines : List (Nat × LineReading α)) : List (Nat × Complaint) :=
  lines.flatMap fun (n, r) =>
    (r.blame model flaw ++ versionComplaints version other missing n r).map (n, ·)

/-- The complaints about the lines of a file. -/
def fileComplaints (model : String) (version : α → Int) (flaw : α → Option Complaint)
    (lines : List (Nat × LineReading α)) : List (Nat × Complaint) :=
  complaintsOn model version flaw (firstLine? (·.givesOther version) lines)
    (firstLine? (·.leavesOut) lines) lines

/-- What is wrong with a call edge on its own: its flag is not that of its callee, or it is resolved
to a callee whose parts between colons name no target. -/
def CallEdge.flaw? (e : CallEdge) : Option Complaint :=
  if e.resolved ≠ decide (e.callee ≠ unresolvedMark) then some .flagDisagrees
  else if e.resolved && !namesTarget (e.callee.toList.splitOn ':') then
    some (.malformedTarget e.callee)
  else none

theorem CallEdge.complaint?_eq (e : CallEdge) : e.complaint? = e.flaw? := by
  have hflag : e.resolved = (e.callee == unresolvedMark) ↔
      e.resolved ≠ decide (e.callee ≠ unresolvedMark) := by
    by_cases hcallee : e.callee = unresolvedMark <;> cases e.resolved <;> simp [hcallee]
  simp only [complaint?, flaw?, hflag, isCallTarget_eq]

section Once

variable {p : LineReading α → Bool} {n : Nat} {r : LineReading α}
  {lines : List (Nat × LineReading α)}

/-- The line of a complaint that is made once, if it has not been made yet. -/
def pending (made : Bool) (p : LineReading α → Bool) (lines : List (Nat × LineReading α)) :
    Option Nat :=
  if made then none else firstLine? p lines

theorem firstLine?_cons :
    firstLine? p ((n, r) :: lines) = if p r then some n else firstLine? p lines := by
  rw [firstLine?, List.find?_cons]
  cases p r <;> simp [firstLine?]

theorem lt_of_firstLine? (hlines : ∀ x ∈ lines, n < x.1) {m : Nat}
    (h : firstLine? p lines = some m) : n < m := by
  obtain ⟨x, hx, rfl⟩ := Option.map_eq_some_iff.mp h
  exact hlines x (List.mem_of_find?_eq_some hx)

theorem firstLine?_eq_none_iff : firstLine? p lines = none ↔ ∀ x ∈ lines, ¬ p x.2 := by
  simp [firstLine?]

/-- A complaint that is made once is made now if it has not been made and there is reason to. -/
theorem pending_eq_here_iff (hlines : ∀ x ∈ lines, n < x.1) (made : Bool) :
    pending made p ((n, r) :: lines) = some n ↔ (!made && p r) = true := by
  have hlater : firstLine? p lines ≠ some n := fun h => Nat.lt_irrefl n (lt_of_firstLine? hlines h)
  rw [pending, firstLine?_cons]
  cases made <;> cases p r <;> simp [hlater]

/-- Otherwise it is made later, unless it has been made by now. -/
theorem pending_eq_later_iff {m : Nat} (hm : n < m) (made : Bool) :
    pending made p ((n, r) :: lines) = some m ↔ pending (made || p r) p lines = some m := by
  have hne : n ≠ m := Nat.ne_of_lt hm
  rw [pending, pending, firstLine?_cons]
  cases made <;> cases p r <;> simp [hne]

end Once

theorem complaintsOn_congr {model : String} {version : α → Int} {flaw : α → Option Complaint}
    {other other' missing missing' : Option Nat} {lines : List (Nat × LineReading α)}
    (hother : ∀ x ∈ lines, other = some x.1 ↔ other' = some x.1)
    (hmissing : ∀ x ∈ lines, missing = some x.1 ↔ missing' = some x.1) :
    complaintsOn model version flaw other missing lines =
      complaintsOn model version flaw other' missing' lines := by
  refine List.flatMap_congr fun ⟨n, r⟩ hx => ?_
  cases r <;> simp [versionComplaints, hother _ hx, hmissing _ hx]

theorem numberedTexts_le {number : Nat} {lines : List Bytes} :
    ∀ x ∈ numberedTexts number lines, number ≤ x.1 := by
  induction lines generalizing number with
  | nil => simp [numberedTexts]
  | cons line lines ih =>
    rw [numberedTexts]
    have hrest : ∀ x ∈ numberedTexts (number + 1) lines, number ≤ x.1 :=
      fun x hx => Nat.le_of_succ_le (ih x hx)
    split
    next => exact hrest
    next => exact List.forall_mem_cons.mpr ⟨Nat.le_refl number, hrest⟩

/-- The complaints about versions that have been made after a line. -/
def notesAfter (version : α → Int) (notes : VersionNotes) (r : LineReading α) :
    VersionNotes :=
  ⟨notes.other || r.givesOther version, notes.missing || r.leavesOut⟩

/-- The complaints about versions that a line gives reason to, if they have not been made. -/
def dueComplaints (version : α → Int) (notes : VersionNotes) (n : Nat)
    (r : LineReading α) : List Complaint :=
  versionComplaints version (if !notes.other && r.givesOther version then some n else none)
    (if !notes.missing && r.leavesOut then some n else none) n r

theorem next_eq (version : α → Int) (notes : VersionNotes) (n : Nat) (a : α)
    (versioned : Bool) : notes.next (if versioned then some (version a) else none) =
      (dueComplaints version notes n (.record a versioned),
        notesAfter version notes (.record a versioned)) := by
  obtain ⟨other, missing⟩ := notes
  cases versioned with
  | false =>
    cases missing <;>
      simp [VersionNotes.next, dueComplaints, notesAfter, versionComplaints, LineReading.givesOther,
        LineReading.leavesOut]
  | true =>
    by_cases hversion : version a = schemaVersion <;> cases other <;>
      simp [VersionNotes.next, dueComplaints, notesAfter, versionComplaints, LineReading.givesOther,
        LineReading.leavesOut, hversion]

namespace Kind

variable {k : Kind} {read : Reader α} {version : α → Int} {flaw : α → Option Complaint}

section Outline

variable (houtline : ∀ v, k.outline v = (fun a => Outline.mk (version a) (flaw a)) <$> read v)
include houtline

/-- What a line is blamed for at once, and what is noted about versions. -/
theorem lineComplaints_eq (notes : VersionNotes) (text : Bytes) (n : Nat) :
    k.lineComplaints notes text =
      ((LineReading.of read text).blame k.model flaw ++
          dueComplaints version notes n (.of read text),
        notesAfter version notes (.of read text)) := by
  have hplain : notes = notesAfter version notes (.notJson : LineReading α) := by
    simp [notesAfter, LineReading.givesOther, LineReading.leavesOut]
  unfold lineComplaints LineReading.of
  cases Json.readBytes? text with
  | none => exact Prod.ext rfl hplain
  | some v =>
    have hread : k.read v = match read v with
        | .error issues => .error (.unfit ⟨k.model, issues⟩)
        | .ok a => .ok ⟨flaw a, (v.field? "schema_version").map fun _ => version a⟩ := by
      simp only [Kind.read, Schema.validate, houtline]
      cases read v <;> rfl
    cases hv : read v with
    | error issues =>
      simp only [hread, hv]
      exact Prod.ext rfl hplain
    | ok a =>
      have hgiven : ((v.field? "schema_version").map fun _ => version a) =
          if (v.field? "schema_version").isSome then some (version a) else none := by
        cases v.field? "schema_version" <;> rfl
      simp only [hread, hv, hgiven, next_eq version notes n]
      rfl

/-- The complaints about lines, some of those about versions having been made before. -/
theorem linesComplaints_eq (notes : VersionNotes) (number : Nat) (lines : List Bytes) :
    k.linesComplaints notes number lines = complaintsOn k.model version flaw
      (pending notes.other (·.givesOther version) (lineReadings read number lines))
      (pending notes.missing (·.leavesOut) (lineReadings read number lines))
      (lineReadings read number lines) := by
  induction lines generalizing notes number with
  | nil => rfl
  | cons line lines ih =>
    rw [linesComplaints, lineReadings, numberedTexts]
    cases Text.stripBytes line with
    | nil => exact ih notes (number + 1)
    | cons b bs =>
      have hlater : ∀ x ∈ lineReadings read (number + 1) lines, number < x.1 :=
        List.forall_mem_map.mpr numberedTexts_le
      have hhere : dueComplaints version notes number (.of read (b :: bs)) =
          versionComplaints version
            (pending notes.other (·.givesOther version) ((number, .of read (b :: bs)) ::
              lineReadings read (number + 1) lines))
            (pending notes.missing (·.leavesOut) ((number, .of read (b :: bs)) ::
              lineReadings read (number + 1) lines)) number (.of read (b :: bs)) := by
        cases LineReading.of read (b :: bs) <;>
          simp [dueComplaints, versionComplaints, pending_eq_here_iff hlater]
      simp only [lineComplaints_eq houtline notes (b :: bs) number, ih, hhere]
      refine congrArg _ (complaintsOn_congr (fun x hx => ?_) fun x hx => ?_)
      · exact (pending_eq_later_iff (hlater x hx) _).symm
      · exact (pending_eq_later_iff (hlater x hx) _).symm

theorem linesComplaints_eq_fileComplaints (lines : List Bytes) :
    k.linesComplaints .none 1 lines =
      fileComplaints k.model version flaw (lineReadings read 1 lines) :=
  linesComplaints_eq houtline .none 1 lines

end Outline

end Kind

section Sound

variable {version : α → Int} {flaw : α → Option Complaint} {lines : List (Nat × LineReading α)}

theorem exists_of_firstLine? {p : LineReading α → Bool} {n : Nat}
    (h : firstLine? p lines = some n) : ∃ r, (n, r) ∈ lines ∧ p r := by
  obtain ⟨⟨m, r⟩, hx, rfl⟩ := Option.map_eq_some_iff.mp h
  have hr : p r := by simpa using List.find?_some hx
  exact ⟨r, List.mem_of_find?_eq_some hx, hr⟩

/-- A complaint about a version is made where it is due. -/
theorem versionComplaints_ne_nil {other missing : Option Nat} {n : Nat} {r : LineReading α}
    (h : other = some n ∧ r.givesOther version ∨ missing = some n ∧ r.leavesOut) :
    versionComplaints version other missing n r ≠ [] := by
  cases r with
  | notJson | unfit => simp [LineReading.givesOther, LineReading.leavesOut] at h
  | record a versioned =>
    rcases h with ⟨rfl, _⟩ | ⟨rfl, _⟩
    · simp [versionComplaints]
    · simp [versionComplaints]

theorem LineReading.IsSound.blame_eq {r : LineReading α} (h : r.IsSound version flaw)
    (model : String) : r.blame model flaw = [] := by
  obtain ⟨a, rfl, _, hflaw⟩ := h
  rw [blame, hflaw]
  rfl

theorem LineReading.IsSound.not_givesOther {r : LineReading α} (h : r.IsSound version flaw) :
    ¬ r.givesOther version := by
  obtain ⟨a, rfl, hversion, _⟩ := h
  simp [givesOther, hversion]

theorem LineReading.IsSound.not_leavesOut {r : LineReading α} (h : r.IsSound version flaw) :
    ¬ r.leavesOut := by
  obtain ⟨a, rfl, _, _⟩ := h
  simp [leavesOut]

/-- Nothing is said about a file of sound records, and about no other one. -/
theorem fileComplaints_eq_nil_iff {model : String} :
    fileComplaints model version flaw lines = [] ↔ ∀ x ∈ lines, x.2.IsSound version flaw := by
  constructor
  · intro h
    have hnone : ∀ x ∈ lines, x.2.blame model flaw = [] ∧
        versionComplaints version (firstLine? (·.givesOther version) lines)
          (firstLine? (·.leavesOut) lines) x.1 x.2 = [] := by
      intro x hx
      simpa using List.flatMap_eq_nil_iff.mp h x hx
    -- A complaint that is due anywhere is made where it is due first.
    have hother : firstLine? (·.givesOther version) lines = none := by
      refine Option.eq_none_iff_forall_ne_some.mpr fun n hn => ?_
      obtain ⟨r, hr, hgives⟩ := exists_of_firstLine? hn
      exact versionComplaints_ne_nil (.inl ⟨hn, hgives⟩) (hnone _ hr).2
    have hmissing : firstLine? (·.leavesOut) lines = none := by
      refine Option.eq_none_iff_forall_ne_some.mpr fun n hn => ?_
      obtain ⟨r, hr, hleaves⟩ := exists_of_firstLine? hn
      exact versionComplaints_ne_nil (.inr ⟨hn, hleaves⟩) (hnone _ hr).2
    rintro ⟨n, r⟩ hx
    have hblame := (hnone _ hx).1
    have hgives := firstLine?_eq_none_iff.mp hother _ hx
    have hleaves := firstLine?_eq_none_iff.mp hmissing _ hx
    cases r with
    | notJson => cases hblame
    | unfit issues => cases hblame
    | record a versioned =>
      cases versioned with
      | false => exact absurd rfl hleaves
      | true =>
        exact ⟨a, rfl, by simpa [LineReading.givesOther] using hgives,
          by simpa [LineReading.blame] using hblame⟩
  · intro h
    have hother : firstLine? (·.givesOther version) lines = none :=
      firstLine?_eq_none_iff.mpr fun x hx => (h x hx).not_givesOther
    have hmissing : firstLine? (·.leavesOut) lines = none :=
      firstLine?_eq_none_iff.mpr fun x hx => (h x hx).not_leavesOut
    refine List.flatMap_eq_nil_iff.mpr fun x hx => ?_
    have hblame := (h x hx).blame_eq model
    obtain ⟨n, r⟩ := x
    cases r <;> simp_all [versionComplaints]

end Sound

theorem exists?_of_read {host : Host} {p : Path} {content : Content}
    (h : host.read p = .ok content) : host.exists? p = .ok true := by
  unfold Host.read at h
  split at h
  next loc found hfind => simp only [Host.exists?, Host.ask, hfind]
  all_goals cases h

/-- Artifacts of lines, and what validation finds in their files. -/
structure ReportsLines (k : Kind) (read : Reader α) (version : α → Int)
    (flaw : α → Option Complaint) : Prop where
  findings_eq : ∀ host directory content, host.read (directory.child k.fileName) = .ok content →
    k.findings host directory = .ok ((fileComplaints k.model version flaw
      (lineReadings read 1 (Text.lines content.bytes))).map fun (n, c) =>
        ⟨k.key, directory.child k.fileName, some n, c⟩)
  complaints_eq : ∀ content, k.complaints (.ok content) =
    (fileComplaints k.model version flaw (lineReadings read 1 (Text.lines content.bytes))).map
      fun (n, c) => (some n, c)
  complaints_eq_nil_iff : ∀ content, k.complaints (.ok content) = [] ↔
    ∀ x ∈ lineReadings read 1 (Text.lines content.bytes), x.2.IsSound version flaw

theorem ReportsLines.of_outline {k : Kind} {read : Reader α} {version : α → Int}
    {flaw : α → Option Complaint}
    (houtline : ∀ v, k.outline v = (fun a => Outline.mk (version a) (flaw a)) <$> read v)
    (hcomplaints : ∀ content, k.complaints (.ok content) =
      (k.linesComplaints .none 1 (Text.lines content.bytes)).map fun (n, c) => (some n, c)) :
    ReportsLines k read version flaw where
  findings_eq host directory content hread := by
    simp only [Kind.findings, exists?_of_read hread, Outcome.ok_bind, if_pos, hread, hcomplaints,
      Kind.linesComplaints_eq_fileComplaints houtline, List.map_map]
    rfl
  complaints_eq content := by
    rw [hcomplaints, Kind.linesComplaints_eq_fileComplaints houtline]
  complaints_eq_nil_iff content := by
    rw [hcomplaints, Kind.linesComplaints_eq_fileComplaints houtline, List.map_eq_nil_iff,
      fileComplaints_eq_nil_iff]

/-- Validation blames every line of contracts and of calls for what it is on its own, blames the
file once for another version and once for a missing one, and says nothing else. A resolved call
needs a callee whose first two parts between colons are not empty, which is what the pattern of
targets takes. -/
theorem lines_reported :
    ReportsLines .contracts ContractEntry.reader (·.schemaVersion) (fun _ => none) ∧
      ReportsLines .calls CallEdge.reader (·.schemaVersion) CallEdge.flaw? ∧
      ∀ cs, Takes targetPattern cs ↔ namesTarget (cs.splitOn ':') := by
  refine ⟨.of_outline (fun _ => rfl) fun _ => rfl, .of_outline (fun v => ?_) fun _ => rfl, ?_⟩
  · simp only [Kind.outline, CallEdge.complaint?_eq]
  · intro cs
    rw [takes_targetPattern_iff, isCallTarget_eq]

end SolidityCalls.Artifact
