import SolidityCalls.Data.OrderedMap
import SolidityCalls.Import
import SolidityCalls.Log

/-! Walking source files along their imports. A file is entered once; it is closed when every
file it leads to has been entered. A failure keeps the walk as it stood. -/
namespace SolidityCalls

/-- Where sources come from and how they are read. -/
structure Sources where
  host : Host
  dependencies : Path
  /-- Use files with syntax errors. -/
  tolerant : Bool

/-- A file that was read, with the position of its fault if it has one. -/
structure Source where
  path : Path
  tree : Node
  fault : Option Position

inductive WalkEvent where
  | opened (source : Source)
  | followed (file target : Path) (reason : Reason)
  | closed (source : Source) (imports : List Path)

structure Walk where
  visited : NameSet
  trace : List WalkEvent

/-- A walk that stopped, and why. -/
structure Halt where
  walk : Walk
  cause : Failure

namespace Walk

def start (visited : NameSet) : Walk := ⟨visited, []⟩

def enter (w : Walk) (file : Path) : Walk := { w with visited := w.visited.add file.render }

def note (w : Walk) (e : WalkEvent) : Walk := { w with trace := w.trace ++ [e] }

def hasEntered (w : Walk) (file : Path) : Bool := w.visited.contains file.render

/-- The files closed so far, in order. -/
def closed (w : Walk) : List (Source × List Path) :=
  w.trace.filterMap fun
    | .closed source imports => some (source, imports)
    | _ => none

end Walk

namespace Sources

def load (s : Sources) (file : Path) : Except Failure Source :=
  match s.host.read file with
  | .error .embeddedNul => .error (.system .embeddedNul file)
  | .error e => .error (.unreadable file e)
  | .ok content =>
    if content.tree.hasError then
      let start := (content.tree.firstFault?.getD content.tree).start
      let position := Position.ofOffset content.bytes start
      if s.tolerant then .ok ⟨file, content.tree, some position⟩
      else .error (.malformed file position)
    else .ok ⟨file, content.tree, none⟩

def imports (s : Sources) (source : Source) : Except Failure (List Path) :=
  Import.paths s.host s.dependencies source.path source.tree

/-- The files that a source leads to, in the order they are followed. -/
abbrev Order := Source → List Path → List (Reason × Path)

/-- Enters a file and all files it leads to that were not entered before. -/
def visit (s : Sources) (order : Order) : (fuel : Nat) → Path → Walk → Except Halt Walk
  | 0, _, w => .error ⟨w, .endlessImports⟩
  | fuel + 1, file, w =>
    let w := w.enter file
    match s.load file with
    | .error e => .error ⟨w, e⟩
    | .ok source =>
      let w := w.note (.opened source)
      match s.imports source with
      | .error e => .error ⟨w, e⟩
      | .ok imports => do
        let w ← (order source imports).foldlM (fun w (reason, target) =>
          if w.hasEntered target then .ok w
          else s.visit order fuel target (w.note (.followed file target reason))) w
        return w.note (.closed source imports)

/-- The import texts of all files. -/
def importTexts (s : Sources) : List String :=
  s.host.files.entries.flatMap fun
    | (_, .file content) => content.tree.importSources
    | _ => []

/-- More than the files a walk can enter: every import text of every file, seen from every
directory and from the dependency root, and the first file. -/
def bound (s : Sources) : Nat := (s.host.files.entries.length + 2) * s.importTexts.length + 2

def walk (s : Sources) (order : Order) (file : Path) (visited : NameSet) : Except Halt Walk :=
  s.visit order s.bound file (.start visited)

end Sources
end SolidityCalls
