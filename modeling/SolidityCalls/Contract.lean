import SolidityCalls.SyntaxTree.Expression

/-! Contracts as extracted from sources: their functions and the calls these make. -/
namespace SolidityCalls

/-- A call as written, and the identifier it was resolved to. -/
structure Call where
  calleeName : String
  args : List Argument
  resolvedId : Option String
  deriving DecidableEq, Repr

structure ContractFunction where
  name : String
  signatureId : String
  calls : List Call
  deriving DecidableEq, Repr

structure Contract where
  name : String
  kind : ContractKind
  sourcePath : String
  baseNames : List String
  importPaths : List String
  functions : List ContractFunction
  deriving DecidableEq, Repr

/-- The contract has a function of this name. -/
def Contract.defines (c : Contract) (name : String) : Bool :=
  c.functions.any fun f => f.name = name

/-- What stands for the target of a call that was not resolved. -/
def unresolvedMark : String := "unresolved"

end SolidityCalls
