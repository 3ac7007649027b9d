import SolidityCalls.Link.Registry
import SolidityCalls.Link.Sources

/-! Profiles of sources: the names of contracts, the names whose uses look like calls and are
none, and the types of variables. Imported files come before the files that import them. -/
namespace SolidityCalls

structure Profile where
  ignored : NameSet
  contractNames : NameSet
  registry : Registry

namespace Profile

def empty : Profile := ⟨[], [], []⟩

/-- Declarations whose uses are written like function calls. -/
def ignoredKinds : List String :=
  ["event_definition", "struct_declaration", "enum_declaration", "error_declaration"]

def variableKinds : List String :=
  ["state_variable_declaration", "variable_declaration", "parameter", "struct_member"]

/-- The variables declared in a contract, the last declaration of a name deciding its type. -/
def variableTypes (contract : Node) : OrderedMap String :=
  OrderedMap.ofPairs
    (((contract.ofKinds variableKinds).map fun d => (d.declaredName, d.declaredType)).filter
      fun v => v.1 ≠ "")

def addContract (p : Profile) (contract : Node) : Profile :=
  let name := contract.declaredName
  { p with
    contractNames := p.contractNames.add name
    registry := p.registry.put name (variableTypes contract) }

def addFile (p : Profile) (root : Node) : Profile :=
  root.contractDeclarations.foldl (fun p c => p.addContract c.2)
    { p with ignored := p.ignored.addAll (root.namesDeclared ignoredKinds) }

def order : Sources.Order := fun _ imports => imports.map (.plainImport, ·)

def ofWalk (p : Profile) (w : Walk) : Profile :=
  w.closed.foldl (fun p (source, _) => p.addFile source.tree) p

def log (w : Walk) : List LogEvent :=
  w.trace.filterMap fun
    | .opened source => source.fault.map (.toleratedFault source.path ·)
    | .closed source _ => some (.profiled source.path)
    | .followed .. => none

end Profile

/-- A profile with the files entered for it; a failure leaves what was gathered before it. -/
structure ProfileRun where
  visited : NameSet
  profile : Profile
  log : List LogEvent
  failure : Option Failure

def Sources.profile (s : Sources) (file : Path) (visited : NameSet) (p : Profile) : ProfileRun :=
  match s.walk Profile.order file visited with
  | .ok w => ⟨w.visited, p.ofWalk w, Profile.log w, none⟩
  | .error halt =>
    ⟨halt.walk.visited, p.ofWalk halt.walk, Profile.log halt.walk, some halt.cause⟩

end SolidityCalls
