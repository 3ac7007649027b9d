import SolidityCalls.Artifact.Bundle
import SolidityCalls.Artifact.Validation
import SolidityCalls.Proofs.Data.OrderedMap
import SolidityCalls.Proofs.Json.OneLine

/-! Records are read back from what they are written as. Writing and reading each list the fields
of a record; a reader looks up by name what the writer put under that name. -/
namespace SolidityCalls

namespace Json

@[simp] theorem fits_array {items : List Json} :
    (Json.array items).fits ↔ ∀ j ∈ items, j.fits := by
  rw [fits]
  induction items with
  | nil => simp [fitsItems]
  | cons j items ih => simp [fitsItems, ih]

@[simp] theorem fits_object {fields : List (String × Json)} :
    (Json.object fields).fits ↔ ∀ f ∈ fields, f.2.fits := by
  rw [fits]
  induction fields with
  | nil => simp [fitsFields]
  | cons f fields ih => simp [fitsFields, ih]

@[simp] theorem depth_array_le {items : List Json} {n : Nat} :
    (Json.array items).depth ≤ n + 1 ↔ ∀ j ∈ items, j.depth ≤ n := by
  rw [depth, Nat.add_le_add_iff_right]
  induction items with
  | nil => simp [depthItems]
  | cons j items ih => simp [depthItems, ih]

@[simp] theorem depth_object_le {fields : List (String × Json)} {n : Nat} :
    (Json.object fields).depth ≤ n + 1 ↔ ∀ f ∈ fields, f.2.depth ≤ n := by
  rw [depth, Nat.add_le_add_iff_right]
  induction fields with
  | nil => simp [depthFields]
  | cons f fields ih => simp [depthFields, ih]

@[simp] theorem fits_string (s : String) : (Json.string s).fits := rfl

@[simp] theorem fits_bool (b : Bool) : (Json.bool b).fits := rfl

@[simp] theorem fits_nullable (s : Option String) : (Json.nullable s).fits := by
  cases s <;> rfl

@[simp] theorem fits_strings (xs : List String) : (Json.strings xs).fits := by
  simp [strings]

@[simp] theorem depth_string (s : String) : (Json.string s).depth = 0 := rfl

@[simp] theorem depth_bool (b : Bool) : (Json.bool b).depth = 0 := rfl

@[simp] theorem depth_int (n : Int) : (Json.int n).depth = 0 := rfl

@[simp] theorem depth_nullable (s : Option String) : (Json.nullable s).depth = 0 := by
  cases s <;> rfl

@[simp] theorem depth_strings_le {xs : List String} {n : Nat} :
    (Json.strings xs).depth ≤ n + 1 := by
  simp [strings]

theorem valueItems_eq_map (items : List Json) : valueItems items = items.map value := by
  induction items with
  | nil => rfl
  | cons j items ih => rw [valueItems, ih, List.map_cons]

theorem valueFields_eq_map (fields : List (String × Json)) :
    valueFields fields = fields.map fun f => (f.1, f.2.value) := by
  induction fields with
  | nil => rfl
  | cons f fields ih => rw [valueFields, ih, List.map_cons]

theorem get?_ofPairs_valueFields (fields : List (String × Json)) (key : String) :
    OrderedMap.get? (.ofPairs (valueFields fields)) key =
      (OrderedMap.get? fields.reverse key).map value := by
  rw [OrderedMap.get?_ofPairs, valueFields_eq_map, ← List.map_reverse]
  induction fields.reverse with
  | nil => rfl
  | cons f fields ih =>
    rw [List.map_cons, OrderedMap.get?_cons, OrderedMap.get?_cons, ih]
    split_ifs <;> rfl

end Json

namespace Schema

variable {α : Type}

/-- A reader gets `a` from what was written as `j`. -/
def Reads (read : Reader α) (j : Json) (a : α) : Prop := read j.value = .ok a

theorem Reads.map {β : Type} {read : Reader α} {j : Json} {a : α} (h : Reads read j a)
    (f : α → β) : Reads (fun v => f <$> read v) j (f a) := by
  rw [Reads] at h ⊢
  rw [h]
  rfl

theorem reads_string (s : String) : Reads string (.string s) s := rfl

theorem reads_integer (n : Int) : Reads integer (.int n) n := rfl

theorem reads_flag (b : Bool) : Reads flag (.bool b) b := rfl

theorem reads_nullable (s : Option String) : Reads (nullable string) (.nullable s) s := by
  cases s <;> rfl

theorem reads_list {read : Reader α} {write : α → Json} (h : ∀ a, Reads read (write a) a)
    (xs : List α) : Reads (list read) (.array (xs.map write)) xs := by
  suffices hitems : ∀ i, itemsFrom read i ((xs.map write).map Json.value) = .ok xs by
    rw [Reads, Json.value, Json.valueItems_eq_map]
    exact hitems 0
  induction xs with
  | nil => exact fun i => rfl
  | cons a xs ih =>
    intro i
    rw [List.map_cons, List.map_cons, itemsFrom, ih (i + 1), (h a : read (write a).value = .ok a)]
    rfl

theorem reads_strings (xs : List String) : Reads (list string) (.strings xs) xs :=
  reads_list reads_string xs

theorem reads_contractKind (k : ContractKind) : Reads contractKind (.string k.text) k := by
  cases k <;> rfl

theorem reads_argumentKind (k : ArgumentKind) : Reads argumentKind (.string k.text) k := by
  cases k <;> rfl

section Fields

variable {fields : List (String × Json)} {key : String} {j : Json} {read : Reader α} {a : α}

theorem required_of_reads (hget : OrderedMap.get? fields.reverse key = some j)
    (h : Reads read j a) :
    required (OrderedMap.ofPairs (Json.valueFields fields)) key read = .ok a := by
  rw [required, Json.get?_ofPairs_valueFields, hget, Option.map_some]
  dsimp only
  rw [show read j.value = .ok a from h]
  rfl

theorem optional_of_reads (hget : OrderedMap.get? fields.reverse key = some j)
    (h : Reads read j a) (standard : α) :
    optional (OrderedMap.ofPairs (Json.valueFields fields)) key standard read = .ok a := by
  rw [optional, Json.get?_ofPairs_valueFields, hget, Option.map_some]
  dsimp only
  rw [show read j.value = .ok a from h]
  rfl

end Fields

open Artifact

theorem reads_argument (a : Argument) : Reads argument (argumentJson a) a := by
  unfold Reads argument argumentJson
  simp only [record, Json.value]
  rw [required_of_reads _ (reads_argumentKind a.kind), required_of_reads _ (reads_string a.text),
    optional_of_reads _ (reads_nullable a.member)]
  all_goals rfl

theorem reads_call (c : Call) : Reads call (callJson c) c := by
  unfold Reads call callJson
  simp only [record, Json.value]
  rw [required_of_reads _ (reads_string c.calleeName),
    optional_of_reads _ (reads_list reads_argument c.args),
    optional_of_reads _ (reads_nullable c.resolvedId)]
  all_goals rfl

theorem reads_contractFunction (f : ContractFunction) :
    Reads contractFunction (functionJson f) f := by
  unfold Reads contractFunction functionJson
  simp only [record, Json.value]
  rw [required_of_reads _ (reads_string f.name), required_of_reads _ (reads_string f.signatureId),
    optional_of_reads _ (reads_list reads_call f.calls)]
  all_goals rfl

end Schema

namespace Artifact
open Schema

theorem ContractEntry.reads_json (e : ContractEntry) : Reads reader e.json e := by
  unfold Reads reader json
  simp only [record, Json.value]
  rw [optional_of_reads _ (reads_integer e.schemaVersion),
    required_of_reads _ (reads_string e.entryFile), required_of_reads _ (reads_string e.name),
    required_of_reads _ (reads_contractKind e.kind),
    required_of_reads _ (reads_string e.sourcePath),
    required_of_reads _ (reads_strings e.baseNames),
    required_of_reads _ (reads_strings e.importPaths),
    required_of_reads _ (reads_list reads_contractFunction e.functions)]
  all_goals rfl

theorem EdgeArgument.reads_json (a : EdgeArgument) :
    Reads reader (.object [("kind", .string a.kind), ("text", .string a.text)]) a := by
  unfold Reads reader
  simp only [record, Json.value]
  rw [required_of_reads _ (reads_string a.kind), required_of_reads _ (reads_string a.text)]
  all_goals rfl

theorem CallEdge.reads_json (e : CallEdge) : Reads reader e.json e := by
  unfold Reads reader json
  simp only [record, Json.value]
  rw [optional_of_reads _ (reads_integer e.schemaVersion),
    required_of_reads _ (reads_string e.callId), required_of_reads _ (reads_string e.entryFile),
    required_of_reads _ (reads_string e.caller), required_of_reads _ (reads_string e.calleeName),
    required_of_reads _ (reads_string e.callee), required_of_reads _ (reads_flag e.resolved),
    optional_of_reads _ (reads_list EdgeArgument.reads_json e.args)]
  all_goals rfl

theorem Summary.reads_json (s : Summary) : Reads reader s.json s := by
  unfold Reads reader json
  simp only [record, Json.value]
  rw [optional_of_reads _ (reads_integer s.schemaVersion),
    required_of_reads _ (reads_integer s.entryFileCount),
    required_of_reads _ (reads_integer s.contractCount),
    required_of_reads _ (reads_integer s.functionCount),
    required_of_reads _ (reads_integer s.callCount),
    required_of_reads _ (reads_integer s.unresolvedCount),
    optional_of_reads _ (reads_list reads_strings s.importCycles)]
  all_goals rfl

/-! Records nest to a few levels, and the only numbers outside the summary are versions. -/

theorem fits_argumentJson (a : Argument) : (argumentJson a).fits := by
  simp [argumentJson]

theorem fits_callJson (c : Call) : (callJson c).fits := by
  simp [callJson, fits_argumentJson]

theorem fits_functionJson (f : ContractFunction) : (functionJson f).fits := by
  simp [functionJson, fits_callJson]

theorem ContractEntry.fits_json_iff {e : ContractEntry} :
    e.json.fits ↔ (Json.int e.schemaVersion).fits := by
  simp [json, fits_functionJson]

theorem ContractEntry.fits_json {e : ContractEntry} (h : e.schemaVersion = Artifact.schemaVersion) :
    e.json.fits :=
  fits_json_iff.mpr (h ▸ rfl)

theorem CallEdge.fits_json_iff {e : CallEdge} :
    e.json.fits ↔ (Json.int e.schemaVersion).fits := by
  simp [json]

theorem CallEdge.fits_json {e : CallEdge} (h : e.schemaVersion = Artifact.schemaVersion) :
    e.json.fits :=
  fits_json_iff.mpr (h ▸ rfl)

theorem depth_callJson_le (c : Call) : (callJson c).depth ≤ 3 := by
  simp [callJson, argumentJson]

theorem ContractEntry.depth_json_le (e : ContractEntry) : e.json.depth ≤ 7 := by
  simp [json, functionJson, depth_callJson_le]

theorem CallEdge.depth_json_le (e : CallEdge) : e.json.depth ≤ 3 := by
  simp [json]

theorem Summary.depth_json_le (s : Summary) : s.json.depth ≤ 3 := by
  simp [json]

end Artifact

end SolidityCalls
