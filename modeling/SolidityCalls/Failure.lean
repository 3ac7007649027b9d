import SolidityCalls.FileSystem.Basic
import SolidityCalls.Schema.Issue
import SolidityCalls.SyntaxTree.Fault

/-! Everything that can stop a run, and the text that tells it. -/
namespace SolidityCalls

inductive Failure where
  /-- A source file cannot be read. -/
  | unreadable (path : Path) (cause : SystemError)
  /-- A source file has a syntax error. -/
  | malformed (path : Path) (position : Position)
  /-- Imports go on beyond every file there is. -/
  | endlessImports
  | symlinkLoop (path : Path)
  | system (cause : SystemError) (path : Path)
  | unknownHome
  /-- A switch that needs a directory is given none. -/
  | noDirectoryGiven
  /-- A path without components has no first one. -/
  | emptyPath
  /-- An ignore pattern ends where a character is needed. -/
  | cutPattern
  /-- An ignore pattern has a character range in reverse, or an unclosed class. -/
  | badPattern
  /-- A text file is not well-formed UTF-8. -/
  | undecodable
  | emptyOutputDir
  | anchoredOutputDir
  | escapingOutputDir (text : String)
  | invalidToml (path : Path)
  /-- The configuration has an integer of too many digits. -/
  | oversizedInteger (path : Path)
  /-- Values of the configuration are nested too deeply. -/
  | deepNesting (path : Path)
  | invalidConfig (path : Path) (report : Schema.Report)
  | invalidRecord (report : Schema.Report)
  /-- A name that the artifact contract does not publish. -/
  | unpublished (name : String)
  /-- An artifact has an integer of more than 64 bits. -/
  | oversizedCount
  | noArtifacts (path : Path)
  | artifactsNotDirectory (path : Path)
  deriving DecidableEq, Repr

def Failure.message : Failure → String
  | .unreadable path cause => path.render ++ ": cannot read source: " ++ cause.message path
  | .malformed path position => path.render ++ ": syntax error at " ++ position.text
  | .endlessImports => "imports do not end"
  | .symlinkLoop path => "Symlink loop from " ++ Text.quoted path.render
  | .system cause path => cause.message path
  | .unknownHome => "Could not determine home directory."
  | .noDirectoryGiven => "expected a directory"
  | .emptyPath => "tuple index out of range"
  | .cutPattern => "string index out of range"
  | .badPattern => "bad character range or unterminated character set"
  | .undecodable => "invalid UTF-8"
  | .emptyOutputDir => "output_dir must be a non-empty relative path"
  | .anchoredOutputDir => "output_dir must be a relative path within the project root"
  | .escapingOutputDir text => "output_dir '" ++ text ++ "' escapes the project root"
  | .invalidToml path => "Invalid TOML in " ++ path.render
  | .oversizedInteger path => "too many digits in an integer in " ++ path.render
  | .deepNesting path => "values nested too deeply in " ++ path.render
  | .invalidConfig path report => "Invalid config in " ++ path.render ++ ": " ++ report.text
  | .invalidRecord report => report.text
  | .unpublished name => "module 'contract' has no attribute " ++ Text.quoted name
  | .oversizedCount => "Integer exceeds 64-bit range"
  | .noArtifacts path => "Artifacts directory does not exist: " ++ path.render
  | .artifactsNotDirectory path => "Artifacts path is not a directory: " ++ path.render

/-- Failures that a source file or the configuration is to blame for. -/
def Failure.isUserError : Failure → Bool
  | .unreadable .. | .malformed .. => true
  | .emptyOutputDir | .anchoredOutputDir | .escapingOutputDir .. => true
  | .invalidToml .. | .invalidConfig .. => true
  | _ => false

end SolidityCalls
