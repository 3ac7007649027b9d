import SolidityCalls.Contract
import SolidityCalls.Schema.Reader

/-! Reading contracts, their functions and their calls from values. -/
namespace SolidityCalls.Schema

def contractKind : Reader ContractKind
  | .string "contract" => .ok .contract
  | .string "interface" => .ok .interface
  | .string "library" => .ok .library
  | _ => .fail .contractKind

def argumentKind : Reader ArgumentKind
  | .string "identifier" => .ok .identifier
  | .string "member_access" => .ok .memberAccess
  | .string "other" => .ok .other
  | _ => .fail .argumentKind

def argument : Reader Argument :=
  record "CallArg" fun fields =>
    Argument.mk <$> required fields "kind" argumentKind
      <*> required fields "text" string
      <*> optional fields "member" none (nullable string)

def call : Reader Call :=
  record "CallRef" fun fields =>
    Call.mk <$> required fields "callee_name" string
      <*> optional fields "args" [] (list argument)
      <*> optional fields "resolved_id" none (nullable string)

def contractFunction : Reader ContractFunction :=
  record "FunctionRecord" fun fields =>
    ContractFunction.mk <$> required fields "function_name" string
      <*> required fields "signature_id" string
      <*> optional fields "calls" [] (list call)

def contract : Reader Contract :=
  record "ContractRecord" fun fields =>
    Contract.mk <$> required fields "name" string
      <*> optional fields "kind" .contract contractKind
      <*> required fields "source_path" string
      <*> optional fields "base_names" [] (list string)
      <*> optional fields "import_paths" [] (list string)
      <*> optional fields "functions" [] (list contractFunction)

end SolidityCalls.Schema
