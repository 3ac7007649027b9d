import SolidityCalls.Contract
import SolidityCalls.Json.Writer
import SolidityCalls.Schema.Contract

/-! The records that artifacts hold, how they are written and how they are read. Fields are
written in the order of their names. -/
namespace SolidityCalls.Artifact

def schemaVersion : Int := 1

/-- A contract of the universe of an entry file. -/
structure ContractEntry where
  schemaVersion : Int
  entryFile : String
  name : String
  kind : ContractKind
  sourcePath : String
  baseNames : List String
  importPaths : List String
  functions : List ContractFunction
  deriving DecidableEq, Repr

/-- An argument of a call, without the member. -/
structure EdgeArgument where
  kind : String
  text : String
  deriving DecidableEq, Repr

/-- A call from a function to its target. -/
structure CallEdge where
  schemaVersion : Int
  callId : String
  entryFile : String
  caller : String
  calleeName : String
  callee : String
  resolved : Bool
  args : List EdgeArgument
  deriving DecidableEq, Repr

/-- Counts over all universes, and the groups of files that import each other. -/
structure Summary where
  schemaVersion : Int
  entryFileCount : Int
  contractCount : Int
  functionCount : Int
  callCount : Int
  unresolvedCount : Int
  importCycles : List (List String)
  deriving DecidableEq, Repr

def argumentJson (a : Argument) : Json :=
  .object [
    ("kind", .string a.kind.text),
    ("member", .nullable a.member),
    ("text", .string a.text)]

def callJson (c : Call) : Json :=
  .object [
    ("args", .array (c.args.map argumentJson)),
    ("callee_name", .string c.calleeName),
    ("resolved_id", .nullable c.resolvedId)]

def functionJson (f : ContractFunction) : Json :=
  .object [
    ("calls", .array (f.calls.map callJson)),
    ("function_name", .string f.name),
    ("signature_id", .string f.signatureId)]

def ContractEntry.json (e : ContractEntry) : Json :=
  .object [
    ("base_names", .strings e.baseNames),
    ("entry_file", .string e.entryFile),
    ("functions", .array (e.functions.map functionJson)),
    ("import_paths", .strings e.importPaths),
    ("kind", .string e.kind.text),
    ("name", .string e.name),
    ("schema_version", .int e.schemaVersion),
    ("source_path", .string e.sourcePath)]

def CallEdge.json (e : CallEdge) : Json :=
  .object [
    ("args", .array (e.args.map fun a =>
      .object [("kind", .string a.kind), ("text", .string a.text)])),
    ("call_id", .string e.callId),
    ("callee", .string e.callee),
    ("callee_name", .string e.calleeName),
    ("caller", .string e.caller),
    ("entry_file", .string e.entryFile),
    ("resolved", .bool e.resolved),
    ("schema_version", .int e.schemaVersion)]

def Summary.json (s : Summary) : Json :=
  .object [
    ("call_count", .int s.callCount),
    ("contract_count", .int s.contractCount),
    ("entry_file_count", .int s.entryFileCount),
    ("function_count", .int s.functionCount),
    ("import_cycles", .array (s.importCycles.map .strings)),
    ("schema_version", .int s.schemaVersion),
    ("unresolved_count", .int s.unresolvedCount)]

open Schema

def ContractEntry.reader : Reader ContractEntry :=
  record "ContractArtifactRecord" fun fields =>
    ContractEntry.mk <$> optional fields "schema_version" Artifact.schemaVersion integer
      <*> required fields "entry_file" string
      <*> required fields "name" string
      <*> required fields "kind" contractKind
      <*> required fields "source_path" string
      <*> required fields "base_names" (list string)
      <*> required fields "import_paths" (list string)
      <*> required fields "functions" (list contractFunction)

def EdgeArgument.reader : Reader EdgeArgument :=
  record "CallArgType" fun fields =>
    EdgeArgument.mk <$> required fields "kind" string <*> required fields "text" string

def CallEdge.reader : Reader CallEdge :=
  record "CallEdgeRecord" fun fields =>
    CallEdge.mk <$> optional fields "schema_version" Artifact.schemaVersion integer
      <*> required fields "call_id" string
      <*> required fields "entry_file" string
      <*> required fields "caller" string
      <*> required fields "callee_name" string
      <*> required fields "callee" string
      <*> required fields "resolved" flag
      <*> optional fields "args" [] (list EdgeArgument.reader)

def Summary.reader : Reader Summary :=
  record "CallGraphSummary" fun fields =>
    Summary.mk <$> optional fields "schema_version" Artifact.schemaVersion integer
      <*> required fields "entry_file_count" integer
      <*> required fields "contract_count" integer
      <*> required fields "function_count" integer
      <*> required fields "call_count" integer
      <*> required fields "unresolved_count" integer
      <*> optional fields "import_cycles" [] (list (list string))

end SolidityCalls.Artifact
