import SolidityCalls.Artifact.Record

/-! The artifacts there are: their keys, file names and formats, and the names under which all
this is published. -/
namespace SolidityCalls.Artifact

inductive Kind where
  | contracts
  | calls
  | summary
  deriving DecidableEq, Repr

def Kind.all : List Kind := [.contracts, .calls, .summary]

def Kind.key : Kind → String
  | .contracts => "contracts"
  | .calls => "calls"
  | .summary => "summary"

def Kind.fileName : Kind → String
  | .contracts => "contracts.jsonl"
  | .calls => "calls.jsonl"
  | .summary => "callgraph_summary.json"

def Kind.format : Kind → String
  | .contracts | .calls => "jsonl"
  | .summary => "json"

/-- The model of the records in an artifact. -/
def Kind.model : Kind → String
  | .contracts => "ContractArtifactRecord"
  | .calls => "CallEdgeRecord"
  | .summary => "CallGraphSummary"

def Kind.note (k : Kind) : String := k.model ++ " fields required by contract."

/-- A published name stands for a number, a text, several texts, a definition of that name or a
part of the contract. -/
inductive Published where
  | number (value : Int)
  | text (value : String)
  | texts (values : List String)
  | definition (name : String)
  | part (name : String)
  deriving DecidableEq, Repr

/-- What the artifact contract is called. -/
def contractName : String := "contract"

def contractNote : String :=
  "Stable artifact contract surface for solgraph.\n\n" ++
    "This module exposes the filenames, schema version and record models that\n" ++
    "downstream renderers depend on.\n"

def constants : List (String × Published) :=
  [("ARTIFACT_SCHEMA_VERSION", .number schemaVersion),
    ("ARTIFACT_SPECS", .texts (NameSet.sorted (Kind.all.map Kind.key))),
    ("CALLS_JSONL", .text Kind.calls.fileName),
    ("CONTRACTS_JSONL", .text Kind.contracts.fileName),
    ("SUMMARY_JSON", .text Kind.summary.fileName)]

def definitions : List String :=
  ["ArtifactSpec", "CallEdgeRecord", "CallGraphSummary", "ContractArtifactRecord",
    "ValidationMessage", "ValidationResult", "build_call_id", "validate_artifacts"]

def parts : List String := ["artifacts", "models", "validation"]

/-- What the contract tells of itself. -/
def particulars : List (String × Published) :=
  [("__all__", .texts (constants.map (·.1) ++ definitions)),
    ("__doc__", .text contractNote),
    ("__getattr__", .definition "__getattr__"),
    ("__name__", .text contractName),
    ("__package__", .text contractName)]

def published? (name : String) : Option Published :=
  if name ∈ definitions then some (.definition name)
  else if name ∈ parts then some (.part (contractName ++ "." ++ name))
  else (constants ++ particulars).lookup name

end SolidityCalls.Artifact
