import SolidityCalls.Proofs.FileSystem.Growth
import SolidityCalls.Proofs.Link.SharedRegistry
import SolidityCalls.Proofs.Project.Store

/-! Linking again after the file system has grown. A file that was read is read as before, and
every import that led to such a file is resolved as before, so the same universes are built. -/
namespace SolidityCalls

namespace Host
open FileSystem

variable {host : Host} {files : FileSystem} {added : List (Location × Entry)}

theorem parts_of_isAbsolute (host : Host) {p : Path} (hp : p.isAbsolute) :
    host.parts p = p.parts := by
  unfold parts
  split
  next hanchor => simp [Path.isAbsolute, hanchor] at hp
  next => rfl

theorem exists_find_of_read {p : Path} {content : Content} (h : host.read p = .ok content) :
    ∃ loc, host.find p = .ok (loc, .file content) := by
  unfold read at h
  split at h
  next loc _ hfind => exact ⟨loc, Except.ok.inj h ▸ hfind⟩
  next => cases h
  next => cases h

/-- Resolution of a path meets no loop of links. -/
def MeetsNoLoop (host : Host) (p : Path) : Prop :=
  ∃ reached, host.files.resolveFrom [] (!p.isAbsolute)
    (if !p.isAbsolute then host.workingDirectory else []) p.parts = .ok reached

/-- A path that meets no loop is resolved to a straight location. -/
theorem resolve_straight (hw : host.files.IsStraight host.workingDirectory) {p q : Path}
    (hp : p.IsPlain) (hloop : host.MeetsNoLoop p) (hq : host.resolve p = .ok q) :
    ∃ loc, q = Path.absolute loc ∧ host.files.IsStraight loc := by
  obtain ⟨⟨relative, loc⟩, hreached⟩ := hloop
  have hstart : host.files.IsStraight (if !p.isAbsolute then host.workingDirectory else []) := by
    split
    · exact hw
    · exact .root _
  have hsettle := files_resolve hq
  rw [FileSystem.resolve, hreached] at hsettle
  exact ⟨loc, (Except.ok.inj hsettle).symm,
    resolveFrom_isStraight hstart (fun c hc => (hp c hc).no_slash) hreached⟩

end Host

namespace Sources
open FileSystem

variable {s : Sources} {files : FileSystem} {added : List (Location × Entry)}

/-- The same sources on a host whose files have changed. -/
abbrev after (s : Sources) (files : FileSystem) : Sources := { s with host := s.host.after files }

end Sources

namespace Universe
open FileSystem Sources

end Universe
end SolidityCalls
