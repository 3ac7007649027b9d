import SolidityCalls.Data.Binary64
import SolidityCalls.Data.OrderedMap

/-! Values read from data files. -/
namespace SolidityCalls

/-- A value of a data file. `moment` stands for any date, time or both. -/
inductive Value where
  | null
  | bool (value : Bool)
  | int (value : Int)
  | float (value : Binary64)
  | string (value : String)
  | moment
  | array (items : List Value)
  | object (fields : List (String × Value))
  deriving Repr, Inhabited

namespace Value

def field? (v : Value) (key : String) : Option Value :=
  match v with
  | .object fields => OrderedMap.get? fields key
  | _ => none

end Value
end SolidityCalls
