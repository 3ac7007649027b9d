import SolidityCalls.Host
import SolidityCalls.Json.Reader
import SolidityCalls.Json.Writer

/-! Files as data. A snapshot lists entries one after the other: directories, links, and files
with their text or bytes; a source comes with the syntax tree that the grammar gives it. A node
is a list of its kind, flags, field, both offsets and its children. -/
namespace SolidityCalls.Snapshot

def textOf : Value → String
  | .string s => s
  | _ => ""

def natOf : Value → Nat
  | .int n => n.toNat
  | _ => 0

def textField (v : Value) (key : String) : String := ((v.field? key).map textOf).getD ""

def fieldNamed? : String → Option Field
  | "function" => some .function
  | "object" => some .object
  | "property" => some .property
  | "name" => some .name
  | "body" => some .body
  | "source" => some .source
  | "type" => some .type
  | _ => none

mutual

/-- The tree that a value describes. The flags are letters: `n` for a named node, `m` for a
missing one, `e` for one with an error. -/
def node (source : ByteArray) : Value → Node
  | .array [kind, flags, field, start, stop, .array children] =>
    { kind := textOf kind
      named := (textOf flags).contains 'n'
      missing := (textOf flags).contains 'm'
      hasError := (textOf flags).contains 'e'
      field := fieldNamed? (textOf field)
      start := natOf start
      text := Node.textOf source (natOf start) (natOf stop)
      children := nodes source children }
  | _ => default

def nodes (source : ByteArray) : List Value → List Node
  | [] => []
  | v :: vs => node source v :: nodes source vs

end

/-- Reads a snapshot, which may nest as deeply as it is long. -/
def read? (text : String) : Option Value := Json.read? text.length text

/-- The bytes that pairs of hexadecimal digits stand for. -/
def bytesOfHex : List Char → Bytes
  | high :: low :: rest =>
    UInt8.ofNat ((Json.hexValue? high).getD 0 * 16 + (Json.hexValue? low).getD 0) ::
      bytesOfHex rest
  | _ => []

/-- The content of a file, given as `text` or `hex`, with its `tree` if it is a source. -/
def content (v : Value) : Content :=
  let bytes :=
    match v.field? "hex" with
    | some (.string digits) => bytesOfHex digits.toList
    | _ => Utf8.encode (textField v "text")
  ⟨bytes, ((v.field? "tree").map (node ⟨bytes.toArray⟩)).getD default⟩

/-- Puts an entry at its `path` below a directory, and makes the directories above it.
Directories made before a failure stay. -/
def place (area : Path) (host : Host) (v : Value) : FileSystem × Option Failure :=
  let path := area.child (textField v "path")
  let put (edit : FileSystem → Except SystemError FileSystem) : FileSystem × Option Failure :=
    match host.makeDirectories path.parent with
    | (files, some e) => (files, some e)
    | (files, none) =>
      match Host.fault? path, edit files with
      | some e, _ | none, .error e => (files, some (.system e path))
      | none, .ok files => (files, none)
  match v.field? "dir", v.field? "link" with
  | some (.bool true), _ => host.makeDirectories path
  | _, some (.string target) =>
    put fun files =>
      if Host.holdsNul target then .error .embeddedNul
      else files.makeLink (host.parts path) target
  | _, _ => put fun files => files.writeFile (host.parts path) (content v)

/-- Puts entries one after the other. -/
def placeAll (area : Path) (host : Host) (entries : List Value) : Except Failure Host :=
  entries.foldlM (fun host v =>
    match place area host v with
    | (files, none) => .ok { host with files }
    | (_, some e) => .error e) host

/-- Files that were added or changed from one file system to another. -/
def changes (before after : FileSystem) : List (Location × Bytes) :=
  after.entries.filterMap fun
    | (loc, .file content) =>
      match before.entryAt? loc with
      | some (.file old) => if old.bytes = content.bytes then none else some (loc, content.bytes)
      | _ => some (loc, content.bytes)
    | _ => none

/-- A file that was written, as an entry of a snapshot on one line. -/
def changeLine (loc : Location) (bytes : Bytes) : String :=
  (Json.object [
    ("path", .string (Path.absolute loc).render),
    ("text", .string (Utf8.decodeLossy bytes))]).line

end SolidityCalls.Snapshot
