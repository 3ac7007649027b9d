import SolidityCalls.Host
import SolidityCalls.SyntaxTree.Declaration

/-! Imports: the file an import names, and the import that provides a contract. -/
namespace SolidityCalls.Import

/-- A text that starts with a dot is taken from the directory of the importing file, any other
from the dependency root. -/
def resolve (host : Host) (dependencies : Path) (file : Path) (text : String) :
    Except Failure Path :=
  if text.startsWith "." then host.resolve (file.parent.child text)
  else host.resolve (dependencies.child text)

def paths (host : Host) (dependencies : Path) (file : Path) (root : Node) :
    Except Failure (List Path) :=
  root.importSources.mapM (resolve host dependencies file)

/-- `needle` stands somewhere in the text. -/
def occursIn (needle : List Char) : List Char → Bool
  | [] => needle.isEmpty
  | c :: cs => needle.isPrefixOf (c :: cs) || occursIn needle cs

/-- The import that provides a contract: one whose file stem is the name, or else the first one
whose file name contains it. -/
def provider? (name : String) (paths : List Path) : Option Path :=
  (paths.find? fun p => p.stem = name).or
    (if name = "" then none else paths.find? fun p => occursIn name.toList p.name.toList)

end SolidityCalls.Import
