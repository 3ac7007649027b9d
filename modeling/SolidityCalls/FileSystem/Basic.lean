import SolidityCalls.Path
import SolidityCalls.SyntaxTree.Node
import SolidityCalls.Text.Quoted

/-! A file system: what stands at each location, and how a path is walked. Walking follows at
most forty symbolic links, and a name has at most 255 bytes. -/
namespace SolidityCalls

/-- Components from the root down, none of them `.` or `..` or a link. -/
abbrev Location := List String

/-- The bytes of a file and the syntax tree that the grammar gives them. -/
structure Content where
  bytes : Bytes
  tree : Node

inductive Entry where
  | directory
  | file (content : Content)
  | link (target : String)

/-- Why an operation on a path fails. -/
inductive SystemError where
  | notFound
  | alreadyExists
  | notDirectory
  | isDirectory
  | tooManyLinks
  | nameTooLong
  /-- The path holds a NUL character. -/
  | embeddedNul
  deriving DecidableEq, Repr

def SystemError.reason : SystemError → String
  | .notFound => "[Errno 2] No such file or directory"
  | .alreadyExists => "[Errno 17] File exists"
  | .notDirectory => "[Errno 20] Not a directory"
  | .isDirectory => "[Errno 21] Is a directory"
  | .tooManyLinks => "[Errno 40] Too many levels of symbolic links"
  | .nameTooLong => "[Errno 36] File name too long"
  | .embeddedNul => "embedded null byte"

def SystemError.message (e : SystemError) (p : Path) : String :=
  e.reason ++ ": " ++ Text.quoted p.render

/-- Entries by location. The root is always a directory and is not listed. -/
structure FileSystem where
  entries : List (Location × Entry)
  distinct : (entries.map (·.1)).Nodup := by simp

namespace FileSystem

def empty : FileSystem := { entries := [] }

def entryAt? (fs : FileSystem) (loc : Location) : Option Entry :=
  if loc = [] then some .directory else fs.entries.lookup loc

theorem nodup_filter (fs : FileSystem) (p : Location × Entry → Bool) :
    ((fs.entries.filter p).map (·.1)).Nodup :=
  fs.distinct.sublist (List.filter_sublist.map _)

def put (fs : FileSystem) (loc : Location) (e : Entry) : FileSystem where
  entries := fs.entries.filter (fun x => x.1 ≠ loc) ++ [(loc, e)]
  distinct := by
    rw [List.map_append, List.nodup_append]
    refine ⟨fs.nodup_filter _, by simp, ?_⟩
    simp only [List.mem_map, List.mem_filter]
    rintro _ ⟨x, ⟨_, hx⟩, rfl⟩ _ ⟨y, hy, rfl⟩
    simp_all

/-- Leaves out a location and everything below it. -/
def remove (fs : FileSystem) (loc : Location) : FileSystem where
  entries := fs.entries.filter fun x => !loc.isPrefixOf x.1
  distinct := fs.nodup_filter _

def isDirectoryAt (fs : FileSystem) (loc : Location) : Bool :=
  match fs.entryAt? loc with
  | some .directory => true
  | _ => false

/-- Where a link is followed from: the root for an absolute target. -/
def linkBase (target : String) (here : Location) : Location :=
  if target.startsWith "/" then [] else here

/-- The number of bytes in the longest name. -/
def maxNameBytes : Nat := 255

def isOverlong (name : String) : Bool := maxNameBytes < name.utf8ByteSize

/-- Only slashes follow. -/
def isTrailingSlash (rest : List String) : Bool := rest ≠ [] && rest.all (· = "")

/-- Walks components from a location. The last one may be missing; then the walk ends where it
would stand. A walk to a file that is to be `created` must not end in a slash. -/
def walk (fs : FileSystem) (created : Bool) : (links : Nat) → Location → List String →
    Except SystemError (Location × Option Entry)
  | _, here, [] => .ok (here, fs.entryAt? here)
  | links, here, c :: rest =>
    if !fs.isDirectoryAt here then .error .notDirectory
    else if c = "" ∨ c = "." then fs.walk created links here rest
    else if c = ".." then fs.walk created links here.dropLast rest
    else if created && isTrailingSlash rest then .error .isDirectory
    else if isOverlong c then .error .nameTooLong
    else
      match fs.entryAt? (here ++ [c]) with
      | none => if rest = [] then .ok (here ++ [c], none) else .error .notFound
      | some (.link target) =>
        match links with
        | 0 => .error .tooManyLinks
        | links + 1 => fs.walk created links (linkBase target here) (Path.pieces target ++ rest)
      | some _ => fs.walk created links (here ++ [c]) rest
termination_by links _ rest => (links, rest.length)

/-- The number of links a walk follows before it gives up. -/
def maxLinks : Nat := 40

/-- The entry at the end of a walk, and its location. -/
def find (fs : FileSystem) (parts : List String) : Except SystemError (Location × Entry) :=
  match fs.walk false maxLinks [] parts with
  | .ok (loc, some e) => .ok (loc, e)
  | .ok (_, none) => .error .notFound
  | .error e => .error e

/-- Entries strictly below a location, with the way from it. Links are entries, and nothing is
below them. -/
def below (fs : FileSystem) (loc : Location) : List (Location × Entry) :=
  fs.entries.filterMap fun (key, e) =>
    if loc.isPrefixOf key ∧ loc.length < key.length then some (key.drop loc.length, e) else none

end FileSystem
end SolidityCalls
