import SolidityCalls.CommandLine.Run
import SolidityCalls.Proofs.Project.Regenerate
import SolidityCalls.Proofs.Text.Utf8

/-! Calls that verify what an earlier call generated. Both calls find the directory of the
artifacts in their own way, and the second one runs on the files that the first one left. -/
namespace SolidityCalls.CommandLine
open FileSystem

/-- The path of an argument meets no loop of links. -/
def MeetsNoLoop (host : Host) (text : String) : Prop :=
  ∀ p, host.expandUser (Path.parse text) = .ok p → host.MeetsNoLoop p

theorem located_here (host : Host) :
    located host "." = .ok (Path.absolute host.workingDirectory) := by
  have hexpand : host.expandUser (Path.parse ".") = .ok ⟨.relative, []⟩ := by cbv
  have hfiles : host.files.resolve host.workingDirectory ⟨.relative, []⟩ =
      .ok (Path.absolute host.workingDirectory) := by
    cbv
  rw [located, hexpand, Outcome.ok_bind, Host.resolve, hfiles]
  rfl

section Samples
open Project

theorem parse_generate : Invocation.parse ["generate"] = .ok ⟨0, ".", .generate none none⟩ := rfl

end Samples

/-! A link whose target leads through the output directory and back is broken before the first
call and leads on after it. -/
section Detour
open Project

variable {fs : FileSystem} {links : Nat} {name file target : String}

theorem isFileName_configName : IsFileName Config.fileName := ⟨by decide, by decide, by decide⟩

theorem child_configName :
    (Path.absolute []).child Config.fileName = Path.absolute ["solgraph.toml"] :=
  Host.child_absolute [] isFileName_configName.component

theorem fault?_configName : Host.fault? (Path.absolute ["solgraph.toml"]) = none :=
  Host.fault?_absolute (by simp [Host.holdsNul]) (by decide)

end Detour

end SolidityCalls.CommandLine
