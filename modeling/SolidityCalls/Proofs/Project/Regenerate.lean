import SolidityCalls.Proofs.Artifact.Listing
import SolidityCalls.Proofs.Project.Generate
import SolidityCalls.Proofs.Project.Rediscovery

/-! Comparing artifacts with what the sources give after the run that wrote them. If the output
directory had been missing, the second run sees the configuration and the sources that the first
one saw, so it makes the same artifacts and finds them in the directory. -/
namespace SolidityCalls

namespace Host
open FileSystem

/-- A machine whose files stand in directories, and whose own directories can be walked. -/
structure IsSound (host : Host) : Prop where
  tree : host.files.IsTree
  workingDirectory : host.files.entryAt? host.workingDirectory = some .directory
  home : host.home.IsPlain
  accounts : ∀ account ∈ host.accounts, account.2.IsPlain

variable {host : Host}

theorem IsSound.isComponent (h : host.IsSound) : ∀ c ∈ host.workingDirectory, IsComponent c :=
  fun c hc => (h.tree.name h.workingDirectory c hc).component

end Host

namespace Path

end Path

namespace Artifact

theorem Bundle.names_files {b : Bundle} (h : b.check = .ok ()) :
    b.files.map (·.1) = Kind.all.map Kind.fileName := by
  rw [files_of_check h, List.map_map]
  rfl

theorem Bundle.exists_kind {b : Bundle} (h : b.check = .ok ()) {f : String × Bytes}
    (hf : f ∈ b.files) : ∃ k : Kind, f.1 = k.fileName := by
  have hname : f.1 ∈ Kind.all.map Kind.fileName := names_files h ▸ List.mem_map_of_mem hf
  obtain ⟨k, _, hk⟩ := List.mem_map.mp hname
  exact ⟨k, hk.symm⟩

theorem Bundle.isFileName_of_mem {b : Bundle} (h : b.check = .ok ()) {f : String × Bytes}
    (hf : f ∈ b.files) : FileSystem.IsFileName f.1 := by
  obtain ⟨k, hk⟩ := exists_kind h hf
  exact hk ▸ Project.isFileName_fileName k

end Artifact

namespace Project
open FileSystem Artifact

section After

variable {host : Host} {files : FileSystem} {root d : Location} {dirs : List Location}
  {contents : List (String × Bytes)} {added : List (Location × Entry)} {project : Project}

theorem result_link (project : Project) (host : Host) (entries : List Path) :
    (project.link host entries).result = do
      let dependencies ←
        Config.resolveDependencyRoot host project.root project.config.dependencyRoot
      let universes ←
        (Universe.build host dependencies project.config.allowParseErrors entries).result
      return .ofUniverses project.root universes := by
  simp only [link, Logged.result_bind, Logged.result_ofExcept, Logged.result_pure]
  rfl

end After

/-- A planned run succeeds if its directory is missing and the one above it is there. -/
theorem generate_of_missing {host : Host} (hhost : host.IsSound) {r : Request} {p : Plan}
    (hplan : (plan host r).result = .ok p) (hcheck : p.bundle.check = .ok ()) {above : Location}
    {name : String} (hd : p.directory = Path.absolute (above ++ [name]))
    (habove : host.files.entryAt? above = some .directory) (hname : IsFileName name)
    (hnone : host.files.entryAt? (above ++ [name]) = none)
    (hfaults : ∀ k : Kind, Host.fault? (Path.absolute (above ++ [name] ++ [k.fileName])) = none) :
    (generate host r).result = .ok p.report := by
  have hfault : Host.fault? (Path.absolute (above ++ [name])) = none :=
    Host.fault?_absolute_of_isPrefix (List.prefix_append _ _) (hfaults .summary)
  obtain ⟨files, hstore⟩ : ∃ files,
      store host (Path.absolute (above ++ [name])) p.bundle.files = (files, none) := by
    refine exists_store hhost.tree hhost.isComponent habove hname hnone hfault
      (fun _ hf => Bundle.isFileName_of_mem hcheck hf) fun f hf => ?_
    obtain ⟨k, hk⟩ := Bundle.exists_kind hcheck hf
    exact hk ▸ hfaults k
  rw [← hd] at hstore
  simp only [generate, hplan, hstore, hcheck]
  rfl

end Project
end SolidityCalls
