import SolidityCalls.Proofs.Artifact.ReadBack
import SolidityCalls.Proofs.Artifact.Target
import SolidityCalls.Proofs.Project.Store

/-! Generated artifacts are valid: each line reads back as the record it was written from, and
validation finds nothing to complain about. -/
namespace SolidityCalls

namespace Artifact

/-- An object that is read as a record of the kind, of the right version and without complaint. -/
structure Kind.IsFlawless (k : Kind) (j : Json) : Prop where
  isObject : ∃ fields, j = .object fields
  fits : j.fits
  depth : j.depth ≤ Json.maxLevels
  reading : k.read j.value = .ok ⟨none, some schemaVersion⟩

theorem Kind.IsFlawless.of_outline {k : Kind} {fields : List (String × Json)} {version : Json}
    (hfits : (Json.object fields).fits) (hdepth : (Json.object fields).depth ≤ Json.maxLevels)
    (houtline : Schema.Reads k.outline (.object fields) ⟨schemaVersion, none⟩)
    (hversion : OrderedMap.get? fields.reverse "schema_version" = some version) :
    k.IsFlawless (.object fields) where
  isObject := ⟨fields, rfl⟩
  fits := hfits
  depth := hdepth
  reading := by
    have hfield : (Json.object fields).value.field? "schema_version" = some version.value := by
      rw [Json.value, Value.field?, Json.get?_ofPairs_valueFields, hversion, Option.map_some]
    rw [Schema.Reads] at houtline
    simp only [Kind.read, Schema.validate, houtline, Schema.Checked.ok, hfield, Option.map_some]

theorem ContractEntry.isFlawless {e : ContractEntry}
    (hversion : e.schemaVersion = Artifact.schemaVersion) :
    Kind.contracts.IsFlawless e.json := by
  refine .of_outline (ContractEntry.fits_json hversion) (e.depth_json_le.trans (by decide)) ?_ rfl
  rw [← hversion]
  exact e.reads_json.map fun e => Outline.mk e.schemaVersion none

theorem CallEdge.isFlawless {e : CallEdge} (hversion : e.schemaVersion = Artifact.schemaVersion)
    (h : e.IsSound) : Kind.calls.IsFlawless e.json := by
  refine .of_outline (CallEdge.fits_json hversion) (e.depth_json_le.trans (by decide)) ?_ rfl
  rw [← hversion, ← h.complaint?]
  exact e.reads_json.map fun e => Outline.mk e.schemaVersion e.complaint?

theorem Summary.isFlawless {s : Summary} (hversion : s.schemaVersion = Artifact.schemaVersion)
    (hfits : s.json.fits) : Kind.summary.IsFlawless s.json := by
  refine .of_outline hfits (s.depth_json_le.trans (by decide)) ?_ rfl
  rw [← hversion]
  exact s.reads_json.map fun s => Outline.mk s.schemaVersion none

theorem VersionNotes.next_schemaVersion (notes : VersionNotes) :
    notes.next (some schemaVersion) = ([], notes) := by
  simp [VersionNotes.next]

namespace Kind

variable {k : Kind}

theorem IsFlawless.lineComplaints {j : Json} (h : k.IsFlawless j) (notes : VersionNotes) :
    k.lineComplaints notes (j.encoded .oneLine) = ([], notes) := by
  simp only [Kind.lineComplaints, Json.readBytes?_encoded _ h.fits h.depth, h.reading,
    notes.next_schemaVersion]
  rfl

theorem linesComplaints_of_flawless {js : List Json} (h : ∀ j ∈ js, k.IsFlawless j)
    (notes : VersionNotes) (number : Nat) :
    k.linesComplaints notes number (js.map (Json.encoded .oneLine)) = [] := by
  induction js generalizing number with
  | nil => rfl
  | cons j js ih =>
    obtain ⟨hj, hjs⟩ := List.forall_mem_cons.mp h
    obtain ⟨fields, rfl⟩ := hj.isObject
    have hstrip := Json.stripBytes_encoded_object fields
    have hline := hj.lineComplaints notes
    obtain ⟨inner, hinner⟩ := Json.exists_encoded_object fields
    rw [List.map_cons, linesComplaints]
    rw [hinner] at hstrip hline ⊢
    simp only [hstrip, hline, List.map_nil, List.nil_append]
    exact ih hjs (number + 1)

theorem IsFlawless.summaryComplaints {j : Json} (h : Kind.summary.IsFlawless j) (l : Json.Layout) :
    summaryComplaints (j.encoded l) = [] := by
  have hread := Json.readBytes?_encoded l h.fits h.depth
  have hreading := h.reading
  obtain ⟨fields, rfl⟩ := h.isObject
  rw [Json.value] at hread hreading
  simp only [Artifact.summaryComplaints, hread, hreading, VersionNotes.next_schemaVersion]

end Kind

namespace Bundle

variable {b : Bundle}

/-- Every record of the bundle is read without complaint. -/
structure IsFlawless (b : Bundle) : Prop where
  contracts : ∀ e ∈ b.contracts, Kind.contracts.IsFlawless e.json
  calls : ∀ e ∈ b.calls, Kind.calls.IsFlawless e.json
  summary : Kind.summary.IsFlawless b.summary.json

theorem lines_contracts (b : Bundle) : Text.lines (Utf8.encode (b.text .contracts)) =
    (b.contracts.map (·.json)).map (Json.encoded .oneLine) := by
  rw [← Json.lines_encode_join, List.map_map]
  rfl

theorem lines_calls (b : Bundle) : Text.lines (Utf8.encode (b.text .calls)) =
    (b.calls.map (·.json)).map (Json.encoded .oneLine) := by
  rw [← Json.lines_encode_join, List.map_map]
  rfl

theorem IsFlawless.complaints (h : b.IsFlawless) (k : Kind) (tree : Node) :
    k.complaints (.ok ⟨Utf8.encode (b.text k), tree⟩) = [] := by
  cases k with
  | contracts =>
    simp only [Kind.complaints, lines_contracts]
    rw [Kind.linesComplaints_of_flawless (List.forall_mem_map.mpr h.contracts), List.map_nil]
  | calls =>
    simp only [Kind.complaints, lines_calls]
    rw [Kind.linesComplaints_of_flawless (List.forall_mem_map.mpr h.calls), List.map_nil]
  | summary =>
    have hsummary : summaryComplaints (Utf8.encode (b.text .summary)) = [] :=
      h.summary.summaryComplaints .indented
    simp only [Kind.complaints, hsummary, List.map_nil]

end Bundle

theorem exists_of_mem_callEdges {root : Path} {universes : List Universe} {e : CallEdge}
    (h : e ∈ callEdges root universes) :
    ∃ u ∈ universes, ∃ c ∈ u.contracts, ∃ f ∈ c.functions, ∃ k ∈ f.calls, ∃ position index,
      e = callEdge (u.entryFile.display root) f.signatureId position index k := by
  obtain ⟨u, hu, h⟩ := List.mem_flatMap.mp h
  obtain ⟨c, hc, h⟩ := List.mem_flatMap.mp h
  obtain ⟨⟨f, position⟩, hf, h⟩ := List.mem_flatMap.mp h
  obtain ⟨⟨k, index⟩, hk, rfl⟩ := List.mem_map.mp h
  exact ⟨u, hu, c, hc, f, List.fst_mem_of_mem_zipIdx hf, k, List.fst_mem_of_mem_zipIdx hk,
    position, index, rfl⟩

theorem mem_contractEntries {root : Path} {universes : List Universe} {u : Universe}
    (hu : u ∈ universes) {c : Contract} (hc : c ∈ u.contracts) :
    contractEntry root (u.entryFile.display root) c ∈ contractEntries root universes :=
  List.mem_flatMap.mpr ⟨u, hu, List.mem_map_of_mem hc⟩

theorem schemaVersion_of_mem_contractEntries {root : Path} {universes : List Universe}
    {e : ContractEntry} (h : e ∈ contractEntries root universes) :
    e.schemaVersion = Artifact.schemaVersion := by
  obtain ⟨u, _, h⟩ := List.mem_flatMap.mp h
  obtain ⟨c, _, rfl⟩ := List.mem_map.mp h
  rfl

theorem schemaVersion_of_mem_callEdges {root : Path} {universes : List Universe} {e : CallEdge}
    (h : e ∈ callEdges root universes) : e.schemaVersion = Artifact.schemaVersion := by
  obtain ⟨_, _, _, _, _, _, _, _, _, _, rfl⟩ := exists_of_mem_callEdges h
  rfl

theorem schemaVersion_summary (root : Path) (universes : List Universe) :
    (summary root universes).schemaVersion = Artifact.schemaVersion := by
  suffices h : ∀ s : Summary × ImportGraph,
      (universes.foldl (Summary.add root) s).1.schemaVersion = s.1.schemaVersion from
    h (⟨Artifact.schemaVersion, 0, 0, 0, 0, 0, []⟩, [])
  induction universes with
  | nil => exact fun s => rfl
  | cons u universes ih => exact fun s => ih (Summary.add root s u)

/-- The edges of resolved universes are sound if the names of contracts and callees leave the
colons of a target alone. -/
theorem isSound_of_mem_callEdges {root : Path} {universes : List Universe}
    (hresolved : ∀ u ∈ universes, ∀ c ∈ u.contracts, ∀ f ∈ c.functions, ∀ k ∈ f.calls,
      k.IsResolvedOver (u.contracts.map (·.name)))
    (hnames : ∀ e ∈ contractEntries root universes, IsTargetName e.name)
    (hcallees : ∀ e ∈ callEdges root universes, e.calleeName.toList.head? ≠ some ':')
    {e : CallEdge} (he : e ∈ callEdges root universes) : e.IsSound := by
  obtain ⟨u, hu, c, hc, f, hf, k, hk, position, index, rfl⟩ := exists_of_mem_callEdges he
  refine isSound_callEdge (hresolved u hu c hc f hf k hk) ?_ (hcallees _ he) _ _ _ _
  rintro name hname
  obtain ⟨d, hd, rfl⟩ := List.mem_map.mp hname
  exact hnames _ (mem_contractEntries hu hd)

theorem Bundle.isFlawless_ofUniverses {root : Path} {universes : List Universe}
    (hsound : ∀ e ∈ callEdges root universes, e.IsSound)
    (hfits : (Artifact.summary root universes).json.fits) :
    (ofUniverses root universes).IsFlawless where
  contracts _ he := ContractEntry.isFlawless (schemaVersion_of_mem_contractEntries he)
  calls e he := CallEdge.isFlawless (schemaVersion_of_mem_callEdges he) (hsound e he)
  summary := Summary.isFlawless (schemaVersion_summary root universes) hfits

/-- The lines of a file are records, one each. -/
def HoldsRecords {α : Type} (read : Schema.Reader α) (bytes : Bytes) (records : List α) : Prop :=
  (Text.lines bytes).map (fun line => (Json.readBytes? line).map read) =
    records.map fun r => some (.ok r)

theorem holdsRecords_of_lines {α : Type} {read : Schema.Reader α} {write : α → Json}
    {bytes : Bytes} {records : List α} (hread : ∀ r, Schema.Reads read (write r) r)
    (hlines : Text.lines bytes = (records.map write).map (Json.encoded .oneLine))
    (hfits : ∀ r ∈ records, (write r).fits) (hdepth : ∀ r, (write r).depth ≤ Json.maxLevels) :
    HoldsRecords read bytes records := by
  rw [HoldsRecords, hlines, List.map_map, List.map_map]
  refine List.map_congr_left fun r hr => ?_
  rw [Function.comp_apply, Function.comp_apply, Json.readBytes?_encoded _ (hfits r hr) (hdepth r),
    Option.map_some, (hread r : read _ = _)]

/-- The artifacts are read back as the records of the bundle. -/
structure Bundle.IsReadBack (b : Bundle) : Prop where
  contracts : HoldsRecords ContractEntry.reader (Utf8.encode (b.text .contracts)) b.contracts
  calls : HoldsRecords CallEdge.reader (Utf8.encode (b.text .calls)) b.calls
  summary : (Json.readBytes? (Utf8.encode (b.text .summary))).map Summary.reader =
    some (.ok b.summary)

theorem Bundle.IsFlawless.isReadBack {b : Bundle} (h : b.IsFlawless) : b.IsReadBack where
  contracts := holdsRecords_of_lines ContractEntry.reads_json b.lines_contracts
    (fun e he => (h.contracts e he).fits) fun e => e.depth_json_le.trans (by decide)
  calls := holdsRecords_of_lines CallEdge.reads_json b.lines_calls
    (fun e he => (h.calls e he).fits) fun e => e.depth_json_le.trans (by decide)
  summary := by
    have hread := Json.readBytes?_encoded .indented h.summary.fits h.summary.depth
    rw [show Utf8.encode (b.text .summary) = b.summary.json.encoded .indented from rfl, hread,
      Option.map_some, (b.summary.reads_json : Summary.reader _ = _)]

theorem Kind.mem_all (k : Kind) : k ∈ Kind.all := by
  cases k <;> decide

/-- Where every artifact is there, what is found is what the complaints about each of them say. -/
theorem findings_of_found {host : Host} {directory : Path} {loc : Location}
    (hdir : host.find directory = .ok (loc, .directory))
    (hfound : ∀ k : Kind, ∃ found, host.find (directory.child k.fileName) = .ok found) :
    findings host directory = .ok (Kind.all.flatMap fun k =>
      (k.complaints (host.read (directory.child k.fileName))).map fun (line, complaint) =>
        ⟨k.key, directory.child k.fileName, line, complaint⟩) := by
  have hone : ∀ k : Kind, k.findings host directory =
      .ok ((k.complaints (host.read (directory.child k.fileName))).map fun (line, complaint) =>
        ⟨k.key, directory.child k.fileName, line, complaint⟩) := by
    intro k
    obtain ⟨found, hk⟩ := hfound k
    have hexists : host.exists? (directory.child k.fileName) = .ok true := by
      simp only [Host.exists?, Host.ask, hk]
    simp only [Kind.findings, hexists, Outcome.ok_bind, if_pos]
    rfl
  have hexists : host.exists? directory = .ok true := by
    simp only [Host.exists?, Host.ask, hdir]
  have hdirectory : host.isDirectory directory = .ok true := by
    simp only [Host.isDirectory, Host.ask, hdir]
  simp only [findings, hexists, hdirectory, Kind.all, List.mapM_cons, hone]
  simp only [List.flatMap_cons, List.flatMap_nil]
  rfl

theorem findings_of_flawless {host : Host} {directory : Path} {loc : Location} {b : Bundle}
    (hb : b.IsFlawless) (hdir : host.find directory = .ok (loc, .directory))
    (hread : ∀ k : Kind, host.read (directory.child k.fileName) =
      .ok ⟨Utf8.encode (b.text k), default⟩) :
    findings host directory = .ok [] := by
  have hfound : ∀ k : Kind, ∃ found, host.find (directory.child k.fileName) = .ok found := by
    intro k
    have hk := hread k
    unfold Host.read at hk
    split at hk
    next hfind => exact ⟨_, hfind⟩
    next => cases hk
    next => cases hk
  rw [findings_of_found hdir hfound]
  simp only [hread, hb.complaints, List.map_nil, Kind.all, List.flatMap_cons, List.flatMap_nil,
    List.append_nil]

/-- The text of a summary starts with a line that holds nothing but a brace, so it is no artifact
of lines. -/
theorem complaints_page_summary (s : Summary) (tree : Node) :
    Kind.contracts.complaints (.ok ⟨Utf8.encode s.json.page, tree⟩) ≠ [] := by
  obtain ⟨rest, hrest⟩ : ∃ rest, Utf8.encode s.json.page = 123 :: Text.newline :: rest := by
    simp only [Json.page, Summary.json, Json.write, Json.writeFields, Utf8.encode,
      String.toList_ofList, Json.Layout.indented, List.cons_append, List.flatMap_cons]
    exact ⟨_, rfl⟩
  have hbrace : ∀ b ∈ ([123] : Bytes), Text.IsInLine b :=
    List.forall_mem_singleton.mpr ⟨by decide, by decide⟩
  have hlines : Text.lines (Utf8.encode s.json.page) = [123] :: Text.lines rest := by
    rw [hrest]
    exact Text.lines_append_newline hbrace rest
  have hstrip : Text.stripBytes [123] = [123] := by decide
  have hread : Json.readBytes? [123] = none := by cbv
  simp [Kind.complaints, hlines, Kind.linesComplaints, hstrip, Kind.lineComplaints, hread]

/-- A complaint about an artifact is an error of a strict validation. -/
theorem exists_error_of_complaint {host : Host} {directory : Path} {loc : Location}
    (hdir : host.find directory = .ok (loc, .directory))
    (hfound : ∀ k : Kind, ∃ found, host.find (directory.child k.fileName) = .ok found) {k : Kind}
    (hk : k.complaints (host.read (directory.child k.fileName)) ≠ []) :
    ∃ verdict, validate host directory true = .ok verdict ∧ verdict.errors ≠ [] := by
  rw [validate, findings_of_found hdir hfound]
  refine ⟨_, rfl, fun hnone => hk (List.eq_nil_iff_forall_not_mem.mpr fun complaint hmem => ?_)⟩
  exact List.filter_eq_nil_iff.mp hnone _
    (List.mem_flatMap.mpr ⟨k, k.mem_all, List.mem_map_of_mem hmem⟩) rfl

end Artifact
end SolidityCalls
