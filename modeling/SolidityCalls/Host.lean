import SolidityCalls.Failure
import SolidityCalls.FileSystem.Edit
import SolidityCalls.FileSystem.Resolve

/-! The machine a run sees: its files, the working directory and the home directories. -/
namespace SolidityCalls

structure Host where
  files : FileSystem
  workingDirectory : Location
  home : Path
  /-- Home directories of other users. -/
  accounts : List (String × Path)

namespace Host

/-- Components of a path from the root of the file system. -/
def parts (host : Host) (p : Path) : List String :=
  match p.anchor with
  | .relative => host.workingDirectory ++ p.parts
  | _ => p.parts

/-- The number of bytes in the longest path. -/
def maxPathBytes : Nat := 4095

def holdsNul (name : String) : Bool := name.contains '\x00'

/-- What is wrong with a path before it is walked. -/
def fault? (p : Path) : Option SystemError :=
  if p.parts.any holdsNul then some .embeddedNul
  else if maxPathBytes < p.render.utf8ByteSize then some .nameTooLong
  else none

def find (host : Host) (p : Path) : Except SystemError (Location × Entry) :=
  match fault? p with
  | some e => .error e
  | none => host.files.find (host.parts p)

/-- Fails if something is wrong with a path before it is walked. -/
def checkPath (p : Path) : Except Failure Unit :=
  match fault? p with
  | some e => .error (.system e p)
  | none => .ok ()

/-- Asks what stands at a path. Nothing stands where the path does not lead, but a name that is
too long is a failure. -/
def ask (host : Host) (p : Path) (question : Entry → Bool) : Except Failure Bool :=
  match host.find p with
  | .ok (_, e) => .ok (question e)
  | .error .nameTooLong => .error (.system .nameTooLong p)
  | .error _ => .ok false

def exists? (host : Host) (p : Path) : Except Failure Bool := host.ask p fun _ => true

def isFile (host : Host) (p : Path) : Except Failure Bool :=
  host.ask p fun
    | .file _ => true
    | _ => false

def isDirectory (host : Host) (p : Path) : Except Failure Bool :=
  host.ask p fun
    | .directory => true
    | _ => false

def read (host : Host) (p : Path) : Except SystemError Content :=
  match host.find p with
  | .ok (_, .file content) => .ok content
  | .ok _ => .error .isDirectory
  | .error e => .error e

def resolve (host : Host) (p : Path) : Except Failure Path :=
  if p.parts.any holdsNul then .error (.system .embeddedNul p)
  else
    match host.files.resolve host.workingDirectory p with
    | .ok q => .ok q
    | .error q => .error (.symlinkLoop q)

/-- Makes a directory and those above it where they are missing. Directories made before a
failure stay. -/
def makeDirectories (host : Host) (p : Path) : FileSystem × Option Failure :=
  let base := match p.anchor with
    | .relative => host.workingDirectory
    | _ => []
  match fault? p with
  | some e => (host.files, some (.system e p))
  | none =>
    match host.files.ensureDirectories base p.parts.reverse with
    | (files, none) => (files, none)
    | (files, some (e, parts)) => (files, some (.system e ⟨p.anchor, parts⟩))

/-- Writes a file, which has no syntax tree. -/
def write (host : Host) (p : Path) (bytes : Bytes) : Except Failure FileSystem :=
  match fault? p, host.files.writeFile (host.parts p) ⟨bytes, default⟩ with
  | some e, _ | none, .error e => .error (.system e p)
  | none, .ok files => .ok files

/-- The home directory that a component such as `~` or `~name` stands for. -/
def homeOf (host : Host) (component : String) : Except Failure Path :=
  if component = "~" then .ok host.home
  else if holdsNul component then .error (.system .embeddedNul ⟨.relative, [component]⟩)
  else
    match host.accounts.lookup (String.ofList (component.toList.drop 1)) with
    | some home => .ok home
    | none => .error .unknownHome

/-- Replaces a leading `~` or `~name` by the home directory. -/
def expandUser (host : Host) (p : Path) : Except Failure Path :=
  match p.anchor, p.parts with
  | .relative, first :: rest =>
    if first.startsWith "~" then do
      let home ← host.homeOf first
      return ⟨home.anchor, home.parts ++ rest⟩
    else .ok p
  | _, _ => .ok p

end Host
end SolidityCalls
