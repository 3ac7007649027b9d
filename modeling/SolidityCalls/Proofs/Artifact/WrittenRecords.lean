import SolidityCalls.Proofs.Artifact.Validity

/-! Records on the way through a file. Whatever texts they hold, records that are written one on
each line are read back from these lines as validation reads them, and a summary is read back from
its page. The one thing that cannot be written is a number of more than 64 bits. -/
namespace SolidityCalls.Artifact
open Schema

variable {α : Type}

/-- The file of some records, one on each line, unless a number in them cannot be written. -/
def writeLines? (js : List Json) : Option Bytes :=
  if js.all Json.fits then some (Utf8.encode (String.join (js.map Json.line))) else none

/-- The file of one value, unless a number in it cannot be written. -/
def writePage? (j : Json) : Option Bytes :=
  if j.fits then some (Utf8.encode j.page) else none

/-- The lines that are not blank, by number and without the blanks around them. -/
def numberedTexts (number : Nat) : List Bytes → List (Nat × Bytes)
  | [] => []
  | line :: lines =>
    match Text.stripBytes line with
    | [] => numberedTexts (number + 1) lines
    | text => (number, text) :: numberedTexts (number + 1) lines

/-- What stands on the lines of a file that are not blank, read as records. -/
def readRecords (read : Reader α) (bytes : Bytes) : List (Nat × Option (Checked α)) :=
  (numberedTexts 1 (Text.lines bytes)).map fun (n, text) => (n, (Json.readBytes? text).map read)

section Unread

/-- A line could not be read as a record. -/
def Complaint.IsUnread (c : Complaint) : Prop := c = .notJson ∨ ∃ report, c = .unfit report

theorem Checked.map_eq_ok_iff {β : Type} {f : α → β} {x : Checked α} {b : β} :
    f <$> x = Checked.ok b ↔ ∃ a, x = Checked.ok a ∧ f a = b := by
  constructor
  · intro h
    cases x with
    | ok a => exact ⟨a, rfl, Except.ok.inj h⟩
    | error issues => cases h
  · rintro ⟨a, rfl, rfl⟩
    rfl

theorem CallEdge.not_isUnread {e : CallEdge} {c : Complaint} (h : e.complaint? = some c) :
    ¬ c.IsUnread := by
  unfold CallEdge.complaint? at h
  split at h
  · obtain rfl := Option.some.inj h
    simp [Complaint.IsUnread]
  · split at h
    · obtain rfl := Option.some.inj h
      simp [Complaint.IsUnread]
    · cases h

theorem VersionNotes.not_isUnread {notes : VersionNotes} {version : Option Int} {c : Complaint}
    (h : c ∈ (notes.next version).1) : ¬ c.IsUnread := by
  unfold VersionNotes.next at h
  split at h <;> split at h
  · obtain rfl := List.mem_singleton.mp h
    simp [Complaint.IsUnread]
  · cases h
  · cases h
  · obtain rfl := List.mem_singleton.mp h
    simp [Complaint.IsUnread]

namespace Kind

variable {k : Kind}

/-- What a record that reads is blamed for is not that it could not be read. -/
theorem not_isUnread_of_outline {v : Value} {outline : Outline}
    (h : k.outline v = Checked.ok outline) {c : Complaint} (hc : outline.complaint = some c) :
    ¬ c.IsUnread := by
  cases k with
  | contracts =>
    obtain ⟨e, _, rfl⟩ := Checked.map_eq_ok_iff.mp h
    cases hc
  | calls =>
    obtain ⟨e, _, rfl⟩ := Checked.map_eq_ok_iff.mp h
    exact CallEdge.not_isUnread hc
  | summary =>
    obtain ⟨e, _, rfl⟩ := Checked.map_eq_ok_iff.mp h
    cases hc

/-- A line is read as a record of the kind. -/
def Accepts (k : Kind) (text : Bytes) : Prop :=
  ∃ v, Json.readBytes? text = some v ∧ ∃ outline, k.outline v = Checked.ok outline

theorem exists_unread_lineComplaints_iff (notes : VersionNotes) (text : Bytes) :
    (∃ c ∈ (k.lineComplaints notes text).1, c.IsUnread) ↔ ¬ k.Accepts text := by
  unfold Kind.lineComplaints
  cases hv : Json.readBytes? text with
  | none => simp [Accepts, hv, Complaint.IsUnread]
  | some v =>
    cases ho : k.outline v with
    | error issues =>
      have hread : k.read v = .error (.unfit ⟨k.model, issues⟩) := by
        simp only [Kind.read, Schema.validate, ho]
      simp [Accepts, hv, ho, hread, Complaint.IsUnread, Checked.ok]
    | ok outline =>
      have hread : k.read v =
          .ok ⟨outline.complaint, (v.field? "schema_version").map fun _ => outline.version⟩ := by
        simp only [Kind.read, Schema.validate, ho]
      refine iff_of_false ?_ (not_not.mpr ⟨v, hv, outline, ho⟩)
      rintro ⟨c, hc, hunread⟩
      simp only [hread, List.mem_append, Option.mem_toList] at hc
      rcases hc with hc | hc
      · exact not_isUnread_of_outline ho hc hunread
      · exact VersionNotes.not_isUnread hc hunread

/-- Validation complains that a line could not be read exactly where a line that is not blank is
no record. -/
theorem exists_unread_linesComplaints_iff (lines : List Bytes) (notes : VersionNotes)
    (number n : Nat) :
    (∃ c, (n, c) ∈ k.linesComplaints notes number lines ∧ c.IsUnread) ↔
      ∃ text, (n, text) ∈ numberedTexts number lines ∧ ¬ k.Accepts text := by
  induction lines generalizing notes number with
  | nil => simp [linesComplaints, numberedTexts]
  | cons line lines ih =>
    rw [linesComplaints, numberedTexts]
    cases Text.stripBytes line with
    | nil => exact ih notes (number + 1)
    | cons b bs =>
      have hfirst := exists_unread_lineComplaints_iff (k := k) notes (b :: bs)
      have hrest := ih (k.lineComplaints notes (b :: bs)).2 (number + 1)
      simp only [List.mem_append, List.mem_map, Prod.mk.injEq, List.mem_cons, or_and_right,
        exists_or, hrest]
      refine or_congr ⟨?_, ?_⟩ Iff.rfl
      · rintro ⟨c, ⟨d, hd, rfl, rfl⟩, hc⟩
        exact ⟨_, ⟨rfl, rfl⟩, hfirst.mp ⟨d, hd, hc⟩⟩
      · rintro ⟨text, ⟨rfl, rfl⟩, hunread⟩
        obtain ⟨c, hc, hcunread⟩ := hfirst.mpr hunread
        exact ⟨c, ⟨c, hc, rfl, rfl⟩, hcunread⟩

end Kind

end Unread

section Written

variable {write : α → Json} {read : Reader α} {records : List α} {bytes : Bytes}

theorem writeLines?_eq_some_iff {js : List Json} :
    writeLines? js = some bytes ↔
      (∀ j ∈ js, j.fits) ∧ Utf8.encode (String.join (js.map Json.line)) = bytes := by
  simp [writeLines?]

/-- Objects on one line each stand there in order, with nothing around them. -/
theorem numberedTexts_encoded {js : List Json} (h : ∀ j ∈ js, ∃ fields, j = .object fields)
    (number : Nat) :
    numberedTexts number (js.map (Json.encoded .oneLine)) =
      (js.zipIdx number).map fun (j, n) => (n, j.encoded .oneLine) := by
  induction js generalizing number with
  | nil => rfl
  | cons j js ih =>
    obtain ⟨hj, hjs⟩ := List.forall_mem_cons.mp h
    obtain ⟨fields, rfl⟩ := hj
    have hstrip := Json.stripBytes_encoded_object fields
    obtain ⟨inner, hinner⟩ := Json.exists_encoded_object fields
    rw [List.map_cons, numberedTexts, List.zipIdx_cons, List.map_cons, ← ih hjs]
    rw [hinner] at hstrip
    simp only [hinner, hstrip]

/-- Records with their lines, as they are read back. -/
def inOrder (records : List α) : List (Nat × Option (Checked α)) :=
  (records.zipIdx 1).map fun (r, n) => (n, some (.ok r))

theorem lines_of_writeLines? (h : writeLines? (records.map write) = some bytes) :
    Text.lines bytes = (records.map write).map (Json.encoded .oneLine) := by
  rw [← (writeLines?_eq_some_iff.mp h).2, Json.lines_encode_join]

variable (hobject : ∀ r, ∃ fields, write r = .object fields)
  (hread : ∀ r, Reads read (write r) r) (hdepth : ∀ r, (write r).depth ≤ Json.maxLevels)
include hread hdepth

theorem holdsRecords_of_writeLines? (h : writeLines? (records.map write) = some bytes) :
    HoldsRecords read bytes records :=
  holdsRecords_of_lines hread (lines_of_writeLines? h)
    (List.forall_mem_map.mp (writeLines?_eq_some_iff.mp h).1) hdepth

include hobject

theorem readRecords_of_writeLines? (h : writeLines? (records.map write) = some bytes) :
    readRecords read bytes = inOrder records := by
  have hobjects : ∀ j ∈ records.map write, ∃ fields, j = .object fields :=
    List.forall_mem_map.mpr fun r _ => hobject r
  have hfits : ∀ r ∈ records, (write r).fits :=
    List.forall_mem_map.mp (writeLines?_eq_some_iff.mp h).1
  rw [readRecords, lines_of_writeLines? h, numberedTexts_encoded hobjects, List.zipIdx_map,
    List.map_map, List.map_map, inOrder]
  refine List.map_congr_left fun x hx => ?_
  have hvalue := Json.readBytes?_encoded .oneLine (hfits x.1 (List.fst_mem_of_mem_zipIdx hx))
    (hdepth x.1)
  have hback : read (write x.1).value = Checked.ok x.1 := hread x.1
  simp only [Function.comp_apply, Prod.map, id_eq, hvalue, Option.map_some, hback]

end Written

section Kept

/-- Files of the records of a kind. -/
structure KeepsRecords (k : Kind) (write : α → Json) (read : Reader α) (version : α → Int) :
    Prop where
  /-- A line is read as no record exactly where validation complains about that. -/
  unread_iff : ∀ bytes tree n,
    (∃ c, (some n, c) ∈ k.complaints (.ok ⟨bytes, tree⟩) ∧ c.IsUnread) ↔
      ∃ r, (n, r) ∈ readRecords read bytes ∧ ∀ a, r ≠ some (.ok a)
  /-- All records can be written but those with a version of more than 64 bits. -/
  writable_iff : ∀ records : List α,
    (writeLines? (records.map write)).isSome ↔ ∀ r ∈ records, (Json.int (version r)).fits
  /-- What was written has one record on each line, and the same records are read from it. -/
  readBack : ∀ (records : List α) (bytes : Bytes),
    writeLines? (records.map write) = some bytes →
      HoldsRecords read bytes records ∧ readRecords read bytes = inOrder records

theorem exists_unread_iff {k : Kind} {read : Reader α}
    (houtline : ∀ v, (∃ outline, k.outline v = Checked.ok outline) ↔ ∃ a, read v = Checked.ok a)
    (bytes : Bytes) (n : Nat) :
    (∃ c, (n, c) ∈ k.linesComplaints .none 1 (Text.lines bytes) ∧ c.IsUnread) ↔
      ∃ r, (n, r) ∈ readRecords read bytes ∧ ∀ a, r ≠ some (.ok a) := by
  have haccepts (text : Bytes) : k.Accepts text ↔
      ∃ a, (Json.readBytes? text).map read = some (.ok a) := by
    simp only [Kind.Accepts, houtline, Option.map_eq_some_iff]
    exact ⟨fun ⟨v, hv, a, ha⟩ => ⟨a, v, hv, ha⟩, fun ⟨a, v, hv, ha⟩ => ⟨v, hv, a, ha⟩⟩
  rw [Kind.exists_unread_linesComplaints_iff]
  simp only [haccepts, readRecords, List.mem_map, Prod.mk.injEq, not_exists]
  constructor
  · rintro ⟨text, htext, hunread⟩
    exact ⟨_, ⟨_, htext, rfl, rfl⟩, hunread⟩
  · rintro ⟨_, ⟨⟨_, text⟩, htext, rfl, rfl⟩, hunread⟩
    exact ⟨text, htext, hunread⟩

/-- What a kind of records has to bring along: its validation goes line by line and reads the
records, which are written as objects that read back and hold one number, the version. -/
theorem KeepsRecords.of_reads {k : Kind} {write : α → Json} {read : Reader α} {version : α → Int}
    (hcomplaints : ∀ content, k.complaints (.ok content) =
      (k.linesComplaints .none 1 (Text.lines content.bytes)).map fun (n, c) => (some n, c))
    (houtline : ∀ v, (∃ outline, k.outline v = Checked.ok outline) ↔ ∃ a, read v = Checked.ok a)
    (hobject : ∀ r, ∃ fields, write r = .object fields) (hread : ∀ r, Reads read (write r) r)
    (hdepth : ∀ r, (write r).depth ≤ Json.maxLevels)
    (hfits : ∀ r, (write r).fits ↔ (Json.int (version r)).fits) :
    KeepsRecords k write read version where
  unread_iff bytes tree n := by
    rw [← exists_unread_iff houtline, hcomplaints]
    simp
  writable_iff records := by
    simp [writeLines?, hfits]
  readBack records bytes h :=
    ⟨holdsRecords_of_writeLines? hread hdepth h, readRecords_of_writeLines? hobject hread hdepth h⟩

/-- All numbers of a summary. -/
def Summary.numbers (s : Summary) : List Int :=
  [s.schemaVersion, s.entryFileCount, s.contractCount, s.functionCount, s.callCount,
    s.unresolvedCount]

theorem Summary.fits_json_iff {s : Summary} :
    s.json.fits ↔ ∀ n ∈ s.numbers, (Json.int n).fits := by
  simp [json, numbers]
  tauto

/-- The files of a run are written so, since all its records have the current version. -/
theorem writeLines?_ofUniverses (root : Path) (universes : List Universe) :
    writeLines? ((contractEntries root universes).map ContractEntry.json) =
        some (Utf8.encode ((Bundle.ofUniverses root universes).text .contracts)) ∧
      writeLines? ((callEdges root universes).map CallEdge.json) =
        some (Utf8.encode ((Bundle.ofUniverses root universes).text .calls)) := by
  refine ⟨writeLines?_eq_some_iff.mpr ⟨List.forall_mem_map.mpr fun e he => ?_, ?_⟩,
    writeLines?_eq_some_iff.mpr ⟨List.forall_mem_map.mpr fun e he => ?_, ?_⟩⟩
  · exact ContractEntry.fits_json (schemaVersion_of_mem_contractEntries he)
  · rw [List.map_map]
    rfl
  · exact CallEdge.fits_json (schemaVersion_of_mem_callEdges he)
  · rw [List.map_map]
    rfl

/-- Records of contracts and calls with any texts in them are read back from the file they were
written to, in order and one from each line, as validation reads them. A summary is read back from
its page. What cannot be written is only a number of more than 64 bits. -/
theorem written_records_read_back :
    KeepsRecords .contracts ContractEntry.json ContractEntry.reader (·.schemaVersion) ∧
      KeepsRecords .calls CallEdge.json CallEdge.reader (·.schemaVersion) ∧
      ∀ s : Summary,
        ((writePage? s.json).isSome ↔ ∀ n ∈ s.numbers, (Json.int n).fits) ∧
        ∀ bytes, writePage? s.json = some bytes →
          (Json.readBytes? bytes).map Summary.reader = some (.ok s) := by
  refine ⟨?_, ?_, fun s => ⟨?_, fun bytes h => ?_⟩⟩
  · refine .of_reads (fun _ => rfl) (fun v => ?_) (fun e => ⟨_, rfl⟩) ContractEntry.reads_json
      (fun e => e.depth_json_le.trans (by decide)) fun e => e.fits_json_iff
    simp [Kind.outline, Checked.map_eq_ok_iff]
  · refine .of_reads (fun _ => rfl) (fun v => ?_) (fun e => ⟨_, rfl⟩) CallEdge.reads_json
      (fun e => e.depth_json_le.trans (by decide)) fun e => e.fits_json_iff
    simp [Kind.outline, Checked.map_eq_ok_iff]
  · rw [← Summary.fits_json_iff]
    simp [writePage?]
  · obtain ⟨hfits, rfl⟩ : s.json.fits ∧ Utf8.encode s.json.page = bytes := by
      simpa [writePage?] using h
    have hvalue : Json.readBytes? (Utf8.encode s.json.page) = some s.json.value :=
      Json.readBytes?_encoded .indented hfits (s.depth_json_le.trans (by decide))
    have hback : Summary.reader s.json.value = Checked.ok s := s.reads_json
    rw [hvalue, Option.map_some, hback]

/-- A call whose version has 65 bits. -/
def wideVersion : CallEdge := ⟨2 ^ 64, "", "", "", "", "", false, []⟩

/-- The call is not written, and from a file with its line it is not read. -/
theorem not_written_wideVersion :
    writeLines? ([wideVersion].map CallEdge.json) = none ∧
      readRecords CallEdge.reader (Utf8.encode (String.join [wideVersion.json.line])) ≠
        inOrder [wideVersion] := by
  refine ⟨by cbv, fun h => ?_⟩
  have hread : (readRecords CallEdge.reader (Utf8.encode (String.join
      [wideVersion.json.line]))).map (fun r => r.2.map Except.isOk) = [some false] := by
    decide +kernel
  rw [h] at hread
  cases hread

end Kept

end SolidityCalls.Artifact
