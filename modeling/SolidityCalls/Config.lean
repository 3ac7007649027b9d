import SolidityCalls.Host
import SolidityCalls.Schema.Reader
import SolidityCalls.Toml.Reader

/-! The configuration of a project, and the directories it names. -/
namespace SolidityCalls

structure Config where
  outputDir : String
  dependencyRoot : String
  /-- Globs that entry files match; none given means all files. -/
  includes : List String
  excludes : List String
  /-- Honour ignore files below the root too. -/
  nestedIgnores : Bool
  allowParseErrors : Bool
  deriving DecidableEq, Repr

namespace Config

def standard : Config := ⟨".solgraph", "node_modules", [], [], false, false⟩

def fileName : String := "solgraph.toml"

def model : String := "SolGraphConfig"

def keys : List String :=
  ["output_dir", "dependency_root", "include", "exclude", "nested_gitignore",
    "allow_parse_errors"]

open Schema in
def dependencyRootReader : Reader String
  | .string s => if Text.strip s = "" then .fail .blankDependencyRoot else .ok s
  | v => string v

/-- One issue for every key that is not known. -/
def noOtherKeys (fields : OrderedMap Value) : Schema.Checked Unit :=
  match (fields.map (·.1)).filter (· ∉ keys) with
  | [] => .ok ()
  | others => Except.error (others.map fun key => ⟨[key], .unknownKey⟩)

open Schema in
def reader : Reader Config :=
  record model fun fields =>
    (fun config _ => config) <$>
      (Config.mk <$> optional fields "output_dir" standard.outputDir string
        <*> optional fields "dependency_root" standard.dependencyRoot dependencyRootReader
        <*> optional fields "include" [] (list string)
        <*> optional fields "exclude" [] (list string)
        <*> optional fields "nested_gitignore" false flag
        <*> optional fields "allow_parse_errors" false flag)
      <*> noOtherKeys fields

/-- The configuration in the project root; a project without one has the standard one. -/
def load (host : Host) (root : Path) : Except Failure Config :=
  let path := root.child fileName
  match host.find path with
  | .error .nameTooLong => .error (.system .nameTooLong path)
  | .ok (_, .file content) =>
    match Utf8.decode? content.bytes with
    | none => .error .undecodable
    | some text =>
      match Toml.read text with
      | .error .malformed => .error (.invalidToml path)
      | .error .oversizedInteger => .error (.oversizedInteger path)
      | .error .tooDeep => .error (.deepNesting path)
      | .ok table =>
        match Schema.validate model reader (.object table) with
        | .ok config => .ok config
        | .error report => .error (.invalidConfig path report)
  | _ => .ok standard

/-- The output directory, which must lie in the project root. -/
def resolveOutputDir (host : Host) (root : Path) (text : String) : Except Failure Path :=
  if text = "" then .error .emptyOutputDir
  else if text.startsWith "~" || (Path.parse text).isAbsolute then .error .anchoredOutputDir
  else do
    let base ← host.resolve root
    let found ← host.resolve (base.join (Path.parse text))
    match found.relativeTo? base with
    | some _ => .ok found
    | none => .error (.escapingOutputDir text)

/-- The dependency root, taken from the project root unless it is absolute. -/
def resolveDependencyRoot (host : Host) (root : Path) (text : String) : Except Failure Path := do
  let path ← host.expandUser (Path.parse text)
  host.resolve (root.join path)

end Config
end SolidityCalls
