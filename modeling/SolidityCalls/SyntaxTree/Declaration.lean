import SolidityCalls.SyntaxTree.Node
import SolidityCalls.TypeLabel

/-! Declarations in a source file: contracts and their members, imports, bases, modifiers,
parameters and declared types. -/
namespace SolidityCalls

inductive ContractKind where
  | contract
  | interface
  | library
  deriving DecidableEq, Repr

def ContractKind.text : ContractKind → String
  | .contract => "contract"
  | .interface => "interface"
  | .library => "library"

def ContractKind.ofNodeKind? : String → Option ContractKind
  | "contract_declaration" => some .contract
  | "interface_declaration" => some .interface
  | "library_declaration" => some .library
  | _ => none

namespace Node

/-- The text of an optional node, empty when there is none. -/
def textOf? (n : Option Node) : String := (n.map (·.text)).getD ""

def declaredName (n : Node) : String := Text.strip (textOf? (n.childByField? .name))

/-- The contracts, interfaces and libraries of a file, in source order. -/
def contractDeclarations (root : Node) : List (ContractKind × Node) :=
  root.namedChildren.filterMap fun c => (ContractKind.ofNodeKind? c.kind).map (·, c)

/-- The child under a field, or else the first of `others` that has the given kind. -/
def fieldOrKind? (n : Node) (f : Field) (others : List Node) (kind : String) : Option Node :=
  (n.childByField? f).or (others.find? fun c => c.kind = kind)

def members (contract : Node) : List Node :=
  match contract.fieldOrKind? .body contract.namedChildren "contract_body" with
  | some body => body.namedChildren
  | none => []

/-- A text without the pair of like quotes around it, if there is one. -/
def unquote (cs : List Char) : List Char :=
  match cs with
  | q :: rest =>
    if (q = '"' ∨ q = '\x27') ∧ rest.getLast? = some q then rest.dropLast else cs
  | [] => []

/-- The paths a file imports as written, in order; empty ones are left out. -/
def importSources (root : Node) : List String :=
  (root.namedChildren.filter fun c => c.kind = "import_directive").filterMap fun c =>
    let source := c.fieldOrKind? .source c.namedChildren "string"
    let text := String.ofList (unquote (Text.strip (textOf? source)).toList)
    if text = "" then none else some text

/-- The name in front of an argument list, without blanks. -/
def nameBeforeArguments (n : Node) : String :=
  Text.squeeze (String.ofList (n.text.toList.takeWhile (· ≠ '(')))

def childrenOfKind (n : Node) (kind : String) : List Node :=
  n.children.filter fun c => c.kind = kind

def baseNames (contract : Node) : List String :=
  (contract.childrenOfKind "inheritance_specifier").map nameBeforeArguments

def modifierNames (function : Node) : List String :=
  (function.childrenOfKind "modifier_invocation").map nameBeforeArguments

def parameters (function : Node) : List Node := function.childrenOfKind "parameter"

def functionBody? (function : Node) : Option Node :=
  function.fieldOrKind? .body function.children "function_body"

def statementCount (body : Node) : Nat :=
  (body.namedChildren.filter fun c => c.kind ≠ "comment").length

def declaredType (declaration : Node) : String :=
  TypeLabel.ofText
    (textOf? (declaration.fieldOrKind? .type declaration.namedChildren "type_name"))

/-- The names declared by the nodes of the given kinds, empty names left out. -/
def namesDeclared (n : Node) (kinds : List String) : List String :=
  ((n.ofKinds kinds).map declaredName).filter (· ≠ "")

/-- `Contract:function` followed by the declared parameter types. -/
def signatureId (contractName functionName : String) (function : Node) : String :=
  ":".intercalate (contractName :: functionName :: function.parameters.map declaredType)

end Node
end SolidityCalls
