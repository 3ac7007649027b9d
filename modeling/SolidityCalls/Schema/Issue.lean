/-! What can be wrong with a value that should have a given shape, and the report of it. -/
namespace SolidityCalls.Schema

inductive Problem where
  | missing
  | stringType
  | intType
  | intFraction
  | intText
  | intSize
  | boolValue
  | boolType
  | listType
  | recordType (model : String)
  | contractKind
  | argumentKind
  | unknownKey
  | blankDependencyRoot
  deriving DecidableEq, Repr

def Problem.message : Problem → String
  | .missing => "Field required"
  | .stringType => "Input should be a valid string"
  | .intType => "Input should be a valid integer"
  | .intFraction => "Input should be a valid integer, got a number with a fractional part"
  | .intText => "Input should be a valid integer, unable to parse string as an integer"
  | .intSize => "Unable to parse input string as an integer, exceeded maximum size"
  | .boolValue => "Input should be a valid boolean, unable to interpret input"
  | .boolType => "Input should be a valid boolean"
  | .listType => "Input should be a valid list"
  | .recordType model => "Input should be a valid dictionary or instance of " ++ model
  | .contractKind => "Input should be 'contract', 'interface' or 'library'"
  | .argumentKind => "Input should be 'identifier', 'member_access' or 'other'"
  | .unknownKey => "Extra inputs are not permitted"
  | .blankDependencyRoot => "Value error, dependency_root must be a non-empty path"

def Problem.code : Problem → String
  | .missing => "missing"
  | .stringType => "string_type"
  | .intType => "int_type"
  | .intFraction => "int_from_float"
  | .intText => "int_parsing"
  | .intSize => "int_parsing_size"
  | .boolValue => "bool_parsing"
  | .boolType => "bool_type"
  | .listType => "list_type"
  | .recordType _ => "model_type"
  | .contractKind => "literal_error"
  | .argumentKind => "literal_error"
  | .unknownKey => "extra_forbidden"
  | .blankDependencyRoot => "value_error"

/-- A problem and the keys and indices that lead to it. -/
structure Issue where
  location : List String
  problem : Problem
  deriving DecidableEq, Repr

/-- A part of a location; one that holds a dot stands in backticks. -/
def partText (part : String) : String := if part.contains '.' then "`" ++ part ++ "`" else part

def Issue.text (i : Issue) : String :=
  (if i.location = [] then "" else "\n" ++ ".".intercalate (i.location.map partText)) ++
    "\n  " ++ i.problem.message ++ " [type=" ++ i.problem.code ++ "]"

/-- All issues of a value that should be a record of the given model. -/
structure Report where
  model : String
  issues : List Issue
  deriving DecidableEq, Repr

def Report.text (r : Report) : String :=
  toString r.issues.length ++ " validation error" ++ (if r.issues.length = 1 then "" else "s") ++
    " for " ++ r.model ++ String.join (r.issues.map Issue.text)

end SolidityCalls.Schema
