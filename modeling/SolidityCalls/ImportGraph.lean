import SolidityCalls.Contract
import SolidityCalls.Data.OrderedMap

/-! The graph of imports between files, and its cycles. They are found in one search through the
graph: files are numbered as they are entered, and wait on a stack until their group is complete. -/
namespace SolidityCalls

/-- For every file that declares contracts, the files it imports. -/
abbrev ImportGraph := OrderedMap NameSet

namespace ImportGraph

def targets (g : ImportGraph) (node : String) : NameSet := (OrderedMap.get? g node).getD []

def addTargets (g : ImportGraph) (node : String) (names : List String) : ImportGraph :=
  OrderedMap.put g node ((targets g node).addAll names)

/-- The graph of the files of some contracts, each file shown by its label. -/
def ofContracts (label : String → String) (contracts : List Contract) : ImportGraph :=
  contracts.foldl (fun g c => addTargets g (label c.sourcePath) (c.importPaths.map label)) []

def merge (g h : ImportGraph) : ImportGraph :=
  h.foldl (fun g e => addTargets g e.1 e.2) g

/-- All files of the graph, those that are only imported too. -/
def files (g : ImportGraph) : List String := g.flatMap fun e => e.1 :: e.2

/-- What would stop a search: a file is asked for its number before it is entered, the first file
of a group is missing from the stack, or there are more visits than files. -/
inductive SearchFault where
  | notEntered (file : String)
  | notOnStack (file : String)
  | endless
  deriving DecidableEq, Repr

/-- How far a search has come. -/
structure Search where
  counter : Nat
  /-- The number of every file entered. -/
  index : OrderedMap Nat
  /-- For every file entered, the least number on the stack that it is known to lead to. -/
  low : OrderedMap Nat
  /-- Files whose group is not complete, the last one entered first. -/
  stack : List String
  onStack : NameSet
  cycles : List (List String)

namespace Search

def start : Search := ⟨0, [], [], [], [], []⟩

def hasEntered (s : Search) (file : String) : Bool := OrderedMap.contains s.index file

def enter (s : Search) (file : String) : Search :=
  { s with
    counter := s.counter + 1
    index := s.index.put file s.counter
    low := s.low.put file s.counter
    stack := file :: s.stack
    onStack := s.onStack.add file }

def numberIn (m : OrderedMap Nat) (file : String) : Except SearchFault Nat :=
  match OrderedMap.get? m file with
  | some n => .ok n
  | none => .error (.notEntered file)

def lower (s : Search) (file : String) (n : Nat) : Except SearchFault Search := do
  return { s with low := s.low.put file (min (← numberIn s.low file) n) }

/-- Takes the files down to `file` from the stack. -/
def popGroup (s : Search) (file : String) : Except SearchFault (List String × Search) :=
  if file ∈ s.stack then
    let group := s.stack.takeWhile (· ≠ file) ++ [file]
    .ok (group, { s with
      stack := s.stack.drop group.length
      onStack := s.onStack.filter (· ∉ group) })
  else .error (.notOnStack file)

/-- Completes the group of a file that leads to no file before it on the stack. A file alone is a
cycle only if it imports itself. -/
def close (g : ImportGraph) (s : Search) (file : String) : Except SearchFault Search := do
  if (← numberIn s.low file) ≠ (← numberIn s.index file) then return s
  let (group, s) ← s.popGroup file
  if 1 < group.length ∨ file ∈ targets g file then return { s with cycles := s.cycles ++ [group] }
  return s

/-- Follows an import of a file. A target that is new is visited first; one whose group is complete
says nothing about the group of the file. -/
def follow (visit : String → Search → Except SearchFault Search) (file : String) (s : Search)
    (target : String) : Except SearchFault Search := do
  if !s.hasEntered target then
    let s ← visit target s
    s.lower file (← numberIn s.low target)
  else if target ∈ s.onStack then s.lower file (← numberIn s.index target)
  else return s

/-- Enters a file, follows its imports in the order of their names, and closes it. -/
def visit (g : ImportGraph) : (fuel : Nat) → String → Search → Except SearchFault Search
  | 0, _, _ => .error .endless
  | fuel + 1, file, s => do
    let s ← (NameSet.sorted (targets g file)).foldlM (follow (visit g fuel) file) (s.enter file)
    s.close g file

end Search

/-- Visits every file that no visit before it has entered. -/
def search (g : ImportGraph) : Except SearchFault Search :=
  (NameSet.sorted (g.map (·.1))).foldlM (fun s file =>
    if s.hasEntered file then .ok s else s.visit g g.files.length file) .start

/-- The cycles, each of them sorted, in the order of their names. -/
def findCycles (g : ImportGraph) : Except SearchFault (List (List String)) := do
  return ((← g.search).cycles.map NameSet.sorted).mergeSort fun c d => ¬ d < c

/-- The groups of files that lead to each other. No search fails, so there always is a list. -/
def cycles (g : ImportGraph) : List (List String) := g.findCycles.toOption.getD []

end ImportGraph
end SolidityCalls
