import SolidityCalls.Artifact.Spec
import SolidityCalls.ImportGraph
import SolidityCalls.Link.Universe

/-! The artifacts of some universes. Files are shown relative to the project root. -/
namespace SolidityCalls.Artifact

/-- `position` counts the functions of a contract and `index` the calls of a function, so that
functions of one signature are told apart. -/
def callId (entryFile caller : String) (position index : Int) (calleeName : String) : String :=
  "call:" ++ entryFile ++ "::" ++ caller ++ "@" ++ toString position ++ "#" ++ toString index ++
    ":" ++ calleeName

def displayed (root : Path) (path : String) : String := (Path.parse path).display root

def contractEntry (root : Path) (entryFile : String) (c : Contract) : ContractEntry :=
  { schemaVersion, entryFile
    name := c.name
    kind := c.kind
    sourcePath := displayed root c.sourcePath
    baseNames := c.baseNames
    importPaths := c.importPaths.map (displayed root)
    functions := c.functions }

def contractEntries (root : Path) (universes : List Universe) : List ContractEntry :=
  universes.flatMap fun u => u.contracts.map (contractEntry root (u.entryFile.display root))

/-- The target of a call; one that is absent or empty is unresolved. -/
def target (c : Call) : String :=
  match c.resolvedId with
  | some id => if id = "" then unresolvedMark else id
  | none => unresolvedMark

def callEdge (entryFile caller : String) (position index : Nat) (c : Call) : CallEdge :=
  { schemaVersion, entryFile, caller
    callId := callId entryFile caller position index c.calleeName
    calleeName := c.calleeName
    callee := target c
    resolved := target c ≠ unresolvedMark
    args := c.args.map fun a => ⟨a.kind.text, a.text⟩ }

def callEdges (root : Path) (universes : List Universe) : List CallEdge :=
  universes.flatMap fun u => u.contracts.flatMap fun c =>
    c.functions.zipIdx.flatMap fun (f, position) => f.calls.zipIdx.map fun (call, index) =>
      callEdge (u.entryFile.display root) f.signatureId position index call

/-- Counts gathered from the universes one after the other. -/
def Summary.add (root : Path) (s : Summary × ImportGraph) (u : Universe) : Summary × ImportGraph :=
  let functions := u.contracts.flatMap (·.functions)
  let calls := functions.flatMap (·.calls)
  ({ s.1 with
      entryFileCount := s.1.entryFileCount + 1
      contractCount := s.1.contractCount + u.contracts.length
      functionCount := s.1.functionCount + functions.length
      callCount := s.1.callCount + calls.length
      unresolvedCount := s.1.unresolvedCount +
        (calls.filter fun c => target c = unresolvedMark).length },
    s.2.merge (ImportGraph.ofContracts (displayed root) u.contracts))

def summary (root : Path) (universes : List Universe) : Summary :=
  let (counts, graph) := universes.foldl (Summary.add root) (⟨schemaVersion, 0, 0, 0, 0, 0, []⟩, [])
  { counts with importCycles := graph.cycles }

/-- The three artifacts of one run. -/
structure Bundle where
  contracts : List ContractEntry
  calls : List CallEdge
  summary : Summary

namespace Bundle

def ofUniverses (root : Path) (universes : List Universe) : Bundle :=
  ⟨contractEntries root universes, callEdges root universes, Artifact.summary root universes⟩

def text (b : Bundle) : Kind → String
  | .contracts => String.join (b.contracts.map fun e => e.json.line)
  | .calls => String.join (b.calls.map fun e => e.json.line)
  | .summary => b.summary.json.page

/-- Calls without a target. -/
def unresolvedCount (b : Bundle) : Nat := (b.calls.filter fun e => !e.resolved).length

/-- The counts of an artifact have at most 64 bits. Only the summary has counts. -/
def isWritable (b : Bundle) : Kind → Bool
  | .summary => b.summary.json.fits
  | _ => true

/-- File names and contents, in the order they are written. -/
def files (b : Bundle) : List (String × Bytes) :=
  (Kind.all.filter b.isWritable).map fun k => (k.fileName, Utf8.encode (b.text k))

/-- All artifacts can be written. -/
def check (b : Bundle) : Except Failure Unit :=
  if Kind.all.all b.isWritable then .ok () else .error .oversizedCount

end Bundle
end SolidityCalls.Artifact
