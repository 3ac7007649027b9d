import SolidityCalls.Link.Extract
import SolidityCalls.Link.Profile
import SolidityCalls.Link.Resolution

/-! Universes: all contracts that an entry file leads to, with their calls resolved. The types of
variables are shared by all entries; everything else is gathered for each entry afresh. -/
namespace SolidityCalls

structure Universe where
  entryFile : Path
  contracts : List Contract

namespace Universe

/-- What has been gathered from the entries so far. -/
structure Gathered where
  universes : List Universe
  registry : Registry

def gather (s : Sources) (g : Gathered) (entry : Path) : Logged Gathered := do
  let file ← Logged.ofExcept (s.host.resolve entry)
  let run := s.profile file [] { Profile.empty with registry := g.registry }
  let _ ← (⟨run.log, match run.failure with | some e => .error e | none => .ok ()⟩ : Logged Unit)
  let (contracts, _) ← s.extract ⟨run.profile.ignored, run.profile.contractNames⟩ file []
  Logged.tell (.extracted file contracts.length)
  return ⟨g.universes ++ [⟨file, contracts⟩], run.profile.registry⟩

def resolve (registry : Registry) (u : Universe) : Universe :=
  { u with contracts := Resolution.resolveAll u.contracts registry }

/-- What is told about a resolved universe. -/
def resolutionLog (u : Universe) : List LogEvent :=
  let open_ := Resolution.unresolved u.contracts
  open_.map (fun (contract, call) => .unresolvedCall call.calleeName contract) ++
    if open_ = [] then [] else [.leftUnresolved u.entryFile open_.length]

/-- The universes of the entries, in order. -/
def build (host : Host) (dependencies : Path) (tolerant : Bool) (entries : List Path) :
    Logged (List Universe) := do
  let root ← Logged.ofExcept (host.resolve dependencies)
  let g ← entries.foldlM (gather ⟨host, root, tolerant⟩) ⟨[], []⟩
  let universes := g.universes.map (resolve g.registry)
  ⟨universes.flatMap resolutionLog, .ok universes⟩

/-- The dependency root of a run that names none. -/
def defaultDependencies (host : Host) : Path :=
  Path.absolute (host.workingDirectory ++ ["node_modules"])

end Universe
end SolidityCalls
