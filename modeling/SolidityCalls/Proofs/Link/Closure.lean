import SolidityCalls.Proofs.Link.Termination
import Mathlib.Data.List.Nodup

/-! A walk that ends has read exactly the files that its entry leads to along imports, each once.
This holds of every order that follows all imports. -/
namespace SolidityCalls

namespace Sources

/-- A walk that has entered, read and closed exactly the files that the entry leads to, and has
read each of them once. -/
structure Covers (s : Sources) (entry : Path) (w : Walk) : Prop where
  visited_eq : w.visited = w.opened.map Path.render
  visited_nodup : w.visited.Nodup
  mem_opened : ∀ f, f ∈ w.opened ↔ s.Reaches entry f
  closed_perm : (w.closed.map (·.1.path)).Perm w.opened
  load_closed : ∀ d ∈ w.closed, s.load d.1.path = .ok d.1
  imports_closed : ∀ d ∈ w.closed, s.imports d.1 = .ok d.2

/-- A text that was entered belongs to one file only. -/
theorem mem_opened_of_render_mem {s : Sources} {entry file : Path} {opened : List Path}
    (hreach : ∀ f ∈ opened, s.Reaches entry f) (hentry : entry.IsResolved)
    (hdeps : s.dependencies.IsResolved) (hfile : file.IsResolved)
    (h : file.render ∈ opened.map Path.render) : file ∈ opened := by
  obtain ⟨g, hg, htext⟩ := List.mem_map.mp h
  have hresolved := Reaches.isResolved (hreach g hg) hdeps hentry
  exact Path.render_injective hresolved.plain hfile.plain htext ▸ hg

theorem walk_covers {s : Sources} {order : Order} (hcover : order.IsCovering) {entry : Path}
    (hentry : entry.IsResolved) (hdeps : s.dependencies.IsResolved) {w : Walk}
    (h : s.walk order entry [] = .ok w) : s.Covers entry w := by
  have hrun : Run s order (.visit entry) (.start []) w := run_of_visit h
  have hvisited : w.visited = w.opened.map Path.render :=
    hrun.visited_eq_opened List.not_mem_nil rfl
  have hreach : ∀ f ∈ w.opened, s.Reaches entry f :=
    hrun.reaches_of_mem_opened hcover .refl (by simp)
  have hperm : (w.closed.map (·.1.path)).Perm w.opened := by
    simpa using hrun.closed_perm (List.Perm.refl ([] : List Path))
  have hclosed : ∀ d ∈ w.closed, s.IsClosedIn w.visited d := hrun.isClosedIn hcover (by simp)
  refine ⟨hvisited, hrun.nodup_visited List.nodup_nil, fun f => ⟨hreach f, ?_⟩, hperm,
    fun d hd => (hclosed d hd).load, fun d hd => (hclosed d hd).imports⟩
  intro hf
  induction hf with
  | refl => exact mem_opened_of_render_mem hreach hentry hdeps hentry (hvisited ▸ hrun.mem_visited)
  | @tail f g hf himport ih =>
    -- The file before it was closed, so all its imports were entered.
    obtain ⟨source, imports, hload, himports, hmem⟩ := himport
    obtain ⟨d, hd, hpath⟩ := List.mem_map.mp (hperm.mem_iff.mpr ih)
    have hd' := hclosed d hd
    obtain rfl := Except.ok.inj (hload.symm.trans (hpath ▸ hd'.load))
    obtain rfl := Except.ok.inj (himports.symm.trans hd'.imports)
    have hg : g.IsResolved := Imports.isResolved ⟨d.1, d.2, hload, himports, hmem⟩ hdeps
      (Reaches.isResolved hf hdeps hentry)
    exact mem_opened_of_render_mem hreach hentry hdeps hg (hvisited ▸ hd'.entered g hmem)

namespace Covers

variable {s : Sources} {entry : Path} {w : Walk}

theorem mem_visited (h : s.Covers entry w) (text : String) :
    text ∈ w.visited ↔ ∃ f, s.Reaches entry f ∧ f.render = text := by
  simp only [h.visited_eq, List.mem_map, h.mem_opened]

theorem opened_nodup (h : s.Covers entry w) : w.opened.Nodup :=
  List.Nodup.of_map _ (h.visited_eq ▸ h.visited_nodup)

/-- Every file that the entry leads to is read once. -/
theorem count_opened (h : s.Covers entry w) {f : Path} (hf : s.Reaches entry f) :
    w.opened.count f = 1 :=
  List.count_eq_one_of_mem h.opened_nodup ((h.mem_opened f).mpr hf)

theorem mem_closed (h : s.Covers entry w) {d : Source × List Path} :
    d ∈ w.closed ↔
      s.Reaches entry d.1.path ∧ s.load d.1.path = .ok d.1 ∧ s.imports d.1 = .ok d.2 := by
  constructor
  · intro hd
    refine ⟨(h.mem_opened _).mp ?_, h.load_closed d hd, h.imports_closed d hd⟩
    exact h.closed_perm.mem_iff.mp (List.mem_map_of_mem hd)
  · rintro ⟨hreach, hload, himports⟩
    have hmem := h.closed_perm.mem_iff.mpr ((h.mem_opened _).mpr hreach)
    obtain ⟨d', hd', hpath⟩ := List.mem_map.mp hmem
    have hsource : d'.1 = d.1 := by
      have hload' := h.load_closed d' hd'
      rw [hpath, hload] at hload'
      exact (Except.ok.inj hload').symm
    have himports' := h.imports_closed d' hd'
    rw [hsource, himports] at himports'
    have heq : d' = d := Prod.ext hsource (Except.ok.inj himports').symm
    exact heq ▸ hd'

theorem exists_mem_closed (h : s.Covers entry w) {f : Path} (hf : s.Reaches entry f) :
    ∃ d ∈ w.closed, d.1.path = f :=
  List.mem_map.mp (h.closed_perm.mem_iff.mpr ((h.mem_opened f).mpr hf))

/-- The texts of the closed files tell them apart. -/
theorem nodup_closed (h : s.Covers entry w) : (w.closed.map fun d => d.1.path.render).Nodup := by
  have hperm := h.closed_perm.map Path.render
  rw [List.map_map, ← h.visited_eq] at hperm
  exact hperm.nodup_iff.mpr h.visited_nodup

end Covers

/-- A walk ends unless some file that the entry leads to stops it. -/
theorem exists_walk_iff {s : Sources} {order : Order} (hcover : order.IsCovering) {entry : Path}
    (hentry : entry.IsResolved) (hdeps : s.dependencies.IsResolved) :
    (∃ w, s.walk order entry [] = .ok w) ↔
      ∀ f, s.Reaches entry f → ∀ cause, ¬ s.FailsAt f cause := by
  constructor
  · rintro ⟨w, h⟩ f hf cause hfails
    have hw := walk_covers hcover hentry hdeps h
    obtain ⟨d, hd, rfl⟩ := hw.exists_mem_closed hf
    obtain ⟨_, hload, himports⟩ := hw.mem_closed.mp hd
    rcases hfails with hfails | ⟨source, hload', hfails⟩
    · rw [hload] at hfails
      cases hfails
    · obtain rfl := Except.ok.inj (hload.symm.trans hload')
      rw [himports] at hfails
      cases hfails
  · intro h
    cases hw : s.walk order entry [] with
    | ok w => exact ⟨w, rfl⟩
    | error halt =>
      obtain ⟨f, hf, hfails⟩ := exists_failsAt_of_walk_error hcover hentry hdeps hw
      exact absurd hfails (h f hf halt.cause)

/-- The number of steps never stops a walk. -/
theorem walk_ne_endless {s : Sources} {order : Order} (hcover : order.IsCovering) {entry : Path}
    (hentry : entry.IsResolved) (hdeps : s.dependencies.IsResolved) {halt : Halt}
    (h : s.walk order entry [] = .error halt) : halt.cause ≠ .endlessImports := by
  obtain ⟨f, _, hfails⟩ := exists_failsAt_of_walk_error hcover hentry hdeps h
  exact hfails.ne_endlessImports

/-- The files that a pass over the sources parses, in order. -/
def parsed (s : Sources) (order : Order) (entry : Path) : List Path :=
  match s.walk order entry [] with
  | .ok w => w.opened
  | .error halt => halt.walk.opened

/-- A walk that ends parses the files that the entry leads to, each once, and no others. -/
theorem parsed_of_walk {s : Sources} {order : Order} (hcover : order.IsCovering) {entry : Path}
    (hentry : entry.IsResolved) (hdeps : s.dependencies.IsResolved) {w : Walk}
    (h : s.walk order entry [] = .ok w) (f : Path) :
    (s.Reaches entry f → (s.parsed order entry).count f = 1) ∧
      (f ∈ s.parsed order entry → s.Reaches entry f) := by
  have hparsed : s.parsed order entry = w.opened := by simp only [parsed, h]
  have hw := walk_covers hcover hentry hdeps h
  rw [hparsed]
  exact ⟨hw.count_opened, (hw.mem_opened f).mp⟩

end Sources
end SolidityCalls
