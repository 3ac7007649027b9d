import SolidityCalls.Data.OrderedMap

/-! Declared types of variables, by contract and variable. -/
namespace SolidityCalls

/-- Contracts in the order they were registered, each with its variables and their types. -/
abbrev Registry := OrderedMap (OrderedMap String)

/-- The type of a variable in the first contract that declares one of this name. -/
def Registry.typeOf? (r : Registry) (variableName : String) : Option String :=
  r.findSome? fun (_, types) => OrderedMap.get? types variableName

end SolidityCalls
