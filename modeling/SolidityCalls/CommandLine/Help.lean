import SolidityCalls.CommandLine.Grammar

/-! The pages that help shows. -/
namespace SolidityCalls.CommandLine

def helpLines : Option Command → List String
  | none => [
    "usage: solgraph [-h] [-v] \x7bgenerate,validate,verify\x7d ...",
    "",
    "positional arguments:",
    "  \x7bgenerate,validate,verify\x7d",
    "    generate            Link sources and write call graph artifacts",
    "    validate            Validate artifacts",
    "    verify              Verify determinism of artifacts",
    "",
    "options:",
    "  -h, --help            show this help message and exit",
    "  -v, --verbose         Log progress (-v) or resolution details (-vv) to",
    "                        stderr"]
  | some .generate => [
    "usage: solgraph generate [-h] [--files FILES [FILES ...]] [--out-dir OUT_DIR]",
    "                         [root]",
    "",
    "positional arguments:",
    "  root                  Project root (default: .)",
    "",
    "options:",
    "  -h, --help            show this help message and exit",
    "  --files FILES [FILES ...]",
    "                        Entry files to link (default: every .sol file under",
    "                        root)",
    "  --out-dir OUT_DIR     Output directory for generated artifacts (default:",
    "                        config output dir)"]
  | some .validate => [
    "usage: solgraph validate [-h] [--artifacts-dir ARTIFACTS_DIR] [root]",
    "",
    "positional arguments:",
    "  root                  Project root (default: .)",
    "",
    "options:",
    "  -h, --help            show this help message and exit",
    "  --artifacts-dir ARTIFACTS_DIR",
    "                        Artifacts directory (default: config output dir)"]
  | some .verify => [
    "usage: solgraph verify [-h] [--files FILES [FILES ...]]",
    "                       [--artifacts-dir ARTIFACTS_DIR]",
    "                       [root]",
    "",
    "positional arguments:",
    "  root                  Project root (default: .)",
    "",
    "options:",
    "  -h, --help            show this help message and exit",
    "  --files FILES [FILES ...]",
    "                        Entry files the artifacts were generated from",
    "  --artifacts-dir ARTIFACTS_DIR",
    "                        Artifacts directory (default: config output dir)"]

/-- The first lines of a page, which show how the program is used. -/
def usageLines (scope : Option Command) : List String := (helpLines scope).takeWhile (· ≠ "")

def helpPage (scope : Option Command) : String :=
  String.join ((helpLines scope).map fun line => line ++ "\n")

end SolidityCalls.CommandLine
