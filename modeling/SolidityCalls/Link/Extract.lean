import SolidityCalls.Contract
import SolidityCalls.Link.Sources

/-! Extraction of contracts. The files of a contract's dependencies come first: those of base
constructor calls, then those of bases, then the other imports. -/
namespace SolidityCalls

/-- Names known from the profile: those of no-calls and those of contracts. -/
structure KnownNames where
  ignored : NameSet
  contracts : NameSet

namespace Extract

def assertions : List String := ["require", "revert", "assert"]

/-- Properties that are never calls. -/
def valueProperties : List String := ["length"]

def baseKeyword : String := "super"

/-- Global objects whose members are values or built in. -/
def globalObjects : List String := ["msg", "block", "tx", "abi"]

def isCountable (known : KnownNames) (name : String) : Bool :=
  name ≠ "" && !assertions.contains name && !known.ignored.contains name &&
    !known.contracts.contains name

/-- Names of parameters, return values and local variables. -/
def localNames (function : Node) : List String :=
  function.namesDeclared ["parameter", "variable_declaration"]

/-- The object of a member expression makes the member a call. A plain name does so when it is
a contract or the base keyword, or when the member is invoked and the name is neither local nor
a global object. -/
def isReceiver (known : KnownNames) (locals : List String) (invoked : Bool) (target : Node) :
    Bool :=
  if target.kind = "array_access" then false
  else if target.kind ≠ "identifier" then true
  else
    let name := Text.strip target.text
    known.contracts.contains name || name == baseKeyword ||
      (invoked && !locals.contains name && !globalObjects.contains name)

/-- What the calls of one function are judged by. -/
structure Scope where
  known : KnownNames
  functionName : String
  locals : List String
  /-- The body has exactly one statement. -/
  single : Bool

/-- The call of a plain name. A single statement that calls the function's own name passes it on
and does not count. -/
def directCall? (scope : Scope) (call : Node) : Option Call :=
  match (call.childByField? .function).map Node.unwrap with
  | none => none
  | some callee =>
    let name := Text.strip callee.text
    if callee.kind = "identifier" ∧ isCountable scope.known name ∧
        ¬ (scope.single ∧ name = scope.functionName) then
      some ⟨name, call.classifiedArguments, none⟩
    else none

def memberCall? (scope : Scope) (p : Place) : Option Call :=
  match (p.node.childByField? .object).map Node.unwrap with
  | none => none
  | some target =>
    let call := p.enclosingCall?
    let name := p.node.property
    if isReceiver scope.known scope.locals call.isSome target ∧ name ≠ "" ∧
        ¬ valueProperties.contains name then
      some ⟨name, (call.map fun c => c.node.classifiedArguments).getD [], none⟩
    else none

def callAt? (scope : Scope) (p : Place) : Option Call :=
  if p.node.kind = "call_expression" then directCall? scope p.node
  else if p.node.kind = "member_expression" then memberCall? scope p
  else none

/-- The calls of a function body in the order they are written. -/
def calls (known : KnownNames) (function : Node) (functionName : String) (body : Node) :
    List Call :=
  (Place.preorder [] body).filterMap
    (callAt? ⟨known, functionName, localNames function, body.statementCount = 1⟩)

def isConstructor (contractName : String) (m : Node) : Bool :=
  m.kind == "constructor_definition" ||
    (m.kind == "function_definition" && m.declaredName == contractName)

def isFunction (m : Node) : Bool :=
  m.kind == "function_definition" || m.kind == "fallback_receive_definition"

def functionOf (known : KnownNames) (contractName : String) (m : Node) : ContractFunction :=
  let name := if m.kind = "function_definition" then m.declaredName else ""
  { name
    signatureId := m.signatureId contractName name
    calls := (m.functionBody?.map (calls known m name)).getD [] }

def functionsOf (known : KnownNames) (contract : Node) : List ContractFunction :=
  let name := contract.declaredName
  (contract.members.filter fun m => !isConstructor name m && isFunction m).map
    (functionOf known name)

/-- Names in the base constructor calls of a contract. -/
def baseCalls (contract : Node) : List String :=
  (contract.members.filter (isConstructor contract.declaredName)).flatMap Node.modifierNames

/-- The imports that provide the given names, one for each name that has one. -/
def providers (imports : List Path) (reason : Reason) (names : List String) :
    List (Reason × Path) :=
  (names.filterMap (Import.provider? · imports)).map (reason, ·)

def order : Sources.Order := fun source imports =>
  let contracts := source.tree.contractDeclarations.map (·.2)
  providers imports .baseCall (contracts.flatMap baseCalls) ++
    providers imports .inheritance (contracts.flatMap Node.baseNames) ++
    imports.map (.plainImport, ·)

/-- The last contract of a file with the given name. -/
def lastNamed (contracts : List Node) (name : String) : Option Node :=
  contracts.reverse.find? fun c => c.declaredName = name

/-- The contracts of one file. Where two have one name, both show the functions and bases of the
last. -/
def contractsOf (known : KnownNames) (source : Source) (imports : List Path) : List Contract :=
  let declarations := source.tree.contractDeclarations
  declarations.map fun (kind, node) =>
    let name := node.declaredName
    let shown := (lastNamed (declarations.map (·.2)) name).getD node
    { name, kind
      sourcePath := source.path.render
      baseNames := shown.baseNames
      importPaths := imports.map Path.render
      functions := functionsOf known shown }

def ofWalk (known : KnownNames) (w : Walk) : List Contract :=
  w.closed.flatMap fun (source, imports) => contractsOf known source imports

def log (w : Walk) : List LogEvent :=
  w.trace.filterMap fun
    | .opened source => source.fault.map (.toleratedFault source.path ·)
    | .followed file target reason => some (.extracting file target reason)
    | .closed .. => none

end Extract

/-- The contracts of a file and of all files it leads to, with the files entered. -/
def Sources.extract (s : Sources) (known : KnownNames) (file : Path) (visited : NameSet) :
    Logged (List Contract × NameSet) :=
  match s.walk Extract.order file visited with
  | .ok w => ⟨Extract.log w, .ok (Extract.ofWalk known w, w.visited)⟩
  | .error halt => ⟨Extract.log halt.walk, .error halt.cause⟩

end SolidityCalls
