import SolidityCalls.SyntaxTree.Declaration

/-! Expressions: wrappers around them, calls and their arguments, and the call whose callee an
expression is. -/
namespace SolidityCalls

inductive ArgumentKind where
  | identifier
  | memberAccess
  | other
  deriving DecidableEq, Repr

def ArgumentKind.text : ArgumentKind → String
  | .identifier => "identifier"
  | .memberAccess => "member_access"
  | .other => "other"

/-- An argument as written at a call site. `member` is the property of a member access. -/
structure Argument where
  kind : ArgumentKind
  text : String
  member : Option String
  deriving DecidableEq, Repr

namespace Node

/-- Nodes the grammar puts around a single expression. -/
def isWrapper (n : Node) : Bool := n.kind == "expression" || n.kind == "call_argument"

/-- The node inside all wrappers. -/
def unwrap (n : Node) : Node :=
  if n.isWrapper then
    match _h : n.namedChildren with
    | [c] => c.unwrap
    | _ => n
  else n
termination_by sizeOf n
decreasing_by
  refine sizeOf_lt_of_mem_children (List.mem_filter (p := (·.named)).1 ?_).1
  rw [← namedChildren, _h]
  exact List.mem_singleton.2 rfl

/-- The arguments of a call: its named children other than the callee and comments. -/
def callArguments (call : Node) : List Node :=
  (call.children.zipIdx.filter fun (c, i) =>
    c.named && call.fieldIndex? .function != some i && c.kind != "comment").map (·.1)

def property (member : Node) : String := Text.strip (textOf? (member.childByField? .property))

def classify (argument : Node) : Argument :=
  let target := argument.unwrap
  let text := Text.strip target.text
  if target.kind = "identifier" then ⟨.identifier, text, none⟩
  else if target.kind = "member_expression" then ⟨.memberAccess, text, some target.property⟩
  else ⟨.other, text, none⟩

def classifiedArguments (call : Node) : List Argument := call.callArguments.map classify

end Node

namespace Place

/-- Climbs out of expression wrappers to the call whose callee was left. -/
def callAbove? : List Step → Option Place
  | [] => none
  | step :: above =>
    if step.parent.kind = "expression" then callAbove? above
    else if step.parent.kind = "call_expression" ∧
        step.parent.fieldIndex? .function = some step.index then
      some ⟨step.parent, above⟩
    else none

/-- The call expression whose callee the place is, if any. -/
def enclosingCall? (p : Place) : Option Place := callAbove? p.above

end Place
end SolidityCalls
