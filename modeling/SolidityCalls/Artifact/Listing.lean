import SolidityCalls.Data.OrderedMap
import SolidityCalls.Host

/-! Listings of directories: the files below a directory with their bytes. A link to a file
counts as a file, and a link to a directory is not followed. -/
namespace SolidityCalls.Artifact

/-- Contents by the paths of files, seen from the directory. -/
abbrev Listing := OrderedMap Bytes

namespace Listing

/-- The bytes of the file that a path leads to, if it leads to one. -/
def bytesAt? (host : Host) (p : Path) : Except Failure (Option Bytes) :=
  match host.read p with
  | .ok content => .ok (some content.bytes)
  | .error .nameTooLong => .error (.system .nameTooLong p)
  | .error _ => .ok none

/-- The listing of a directory; a path that leads to none has an empty listing. -/
def ofDirectory (host : Host) (directory : Path) : Except Failure Listing :=
  match host.find directory with
  | .ok (base, .directory) =>
    (host.files.below base).filterMapM fun (rel, _) => do
      return (← bytesAt? host (directory.join ⟨.relative, rel⟩)).map fun bytes =>
        ("/".intercalate rel, bytes)
  | .error .nameTooLong => .error (.system .nameTooLong directory)
  | _ => .ok []

def names (l : Listing) : List String := l.map (·.1)

end Listing

/-- How a listing differs from the expected one. -/
structure Difference where
  mismatches : List String
  missing : List String
  extra : List String
  deriving DecidableEq, Repr

namespace Difference

def between (expected actual : Listing) : Difference where
  mismatches := NameSet.sorted (expected.names.filter fun name =>
    actual.contains name && expected.get? name != actual.get? name)
  missing := NameSet.sorted (expected.names.filter fun name => !actual.contains name)
  extra := NameSet.sorted (actual.names.filter fun name => !expected.contains name)

/-- How the listing of one directory differs from that of another. -/
def ofDirectories (host : Host) (expected actual : Path) : Except Failure Difference := do
  return between (← Listing.ofDirectory host expected) (← Listing.ofDirectory host actual)

def isEmpty (d : Difference) : Bool := d.mismatches = [] && d.missing = [] && d.extra = []

end Difference
end SolidityCalls.Artifact
