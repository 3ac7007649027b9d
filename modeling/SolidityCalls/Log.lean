import SolidityCalls.Failure

/-! What a run tells about its progress, and computations that tell something and may fail. -/
namespace SolidityCalls

/-- Why a file is followed to another one. -/
inductive Reason where
  | baseCall
  | inheritance
  | plainImport
  deriving DecidableEq, Repr

def Reason.text : Reason → String
  | .baseCall => "constructor"
  | .inheritance => "inheritance"
  | .plainImport => "import"

inductive LogLevel where
  | debug
  | info
  | warning
  deriving DecidableEq, Repr

def LogLevel.text : LogLevel → String
  | .debug => "DEBUG"
  | .info => "INFO"
  | .warning => "WARNING"

def LogLevel.rank : LogLevel → Nat
  | .debug => 0
  | .info => 1
  | .warning => 2

inductive LogEvent where
  /-- A file with a syntax error is used all the same. -/
  | toleratedFault (file : Path) (position : Position)
  | profiled (file : Path)
  | extracting (file target : Path) (reason : Reason)
  | unresolvedCall (callee contract : String)
  | extracted (entry : Path) (contracts : Nat)
  | leftUnresolved (entry : Path) (calls : Nat)
  | linking (entries : Nat) (root : Path)
  deriving DecidableEq, Repr

namespace LogEvent

def level : LogEvent → LogLevel
  | toleratedFault .. => .warning
  | profiled .. | extracting .. | unresolvedCall .. => .debug
  | extracted .. | leftUnresolved .. | linking .. => .info

/-- The part of the program that speaks. -/
def speaker : LogEvent → String
  | toleratedFault .. => "parse.treesitter_solidity"
  | profiled .. => "parse.profile"
  | extracting .. => "parse.structure"
  | unresolvedCall .. => "parse.name_resolution"
  | extracted .. | leftUnresolved .. => "graph.linker"
  | linking .. => "artifacts.write"

def message : LogEvent → String
  | toleratedFault file position =>
    file.render ++ ": syntax error at " ++ position.text ++ "; continuing with partial tree"
  | profiled file => "profiled " ++ file.render
  | extracting file target reason =>
    file.render ++ ": extracting " ++ target.render ++ " (" ++ reason.text ++ ")"
  | unresolvedCall callee contract =>
    "unresolved call " ++ Text.quoted callee ++ " from " ++ contract
  | extracted entry contracts =>
    entry.render ++ ": extracted " ++ toString contracts ++ " contract(s)"
  | leftUnresolved entry calls =>
    entry.render ++ ": " ++ toString calls ++ " call(s) left unresolved"
  | linking entries root =>
    "linking " ++ toString entries ++ " entry file(s) under " ++ root.render

def line (e : LogEvent) : String := e.level.text ++ " " ++ e.speaker ++ ": " ++ e.message

end LogEvent

/-- A result or failure, with what was told on the way to it. -/
structure Logged (α : Type) where
  log : List LogEvent
  result : Except Failure α

namespace Logged

def tell (e : LogEvent) : Logged Unit := ⟨[e], .ok ()⟩

def ofExcept {α : Type} (x : Except Failure α) : Logged α := ⟨[], x⟩

instance : Monad Logged where
  pure a := ⟨[], .ok a⟩
  bind x f :=
    match x.result with
    | .ok a =>
      let y := f a
      ⟨x.log ++ y.log, y.result⟩
    | .error e => ⟨x.log, .error e⟩

end Logged
end SolidityCalls
