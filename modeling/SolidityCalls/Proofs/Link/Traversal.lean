import SolidityCalls.Link.Sources
import SolidityCalls.Proofs.Data.OrderedMap
import SolidityCalls.Proofs.Data.Outcome
import Mathlib.Data.List.Basic
import Mathlib.Logic.Relation

/-! What a walk along imports does, step by step, and what every step keeps. A walk that ends is
a derivation of four kinds of steps; each fact about walks is proved along such derivations. -/
namespace SolidityCalls

namespace Walk

/-- The files read so far, in order. Reading a file is what parses it. -/
def opened (w : Walk) : List Path :=
  w.trace.filterMap fun
    | .opened source => some source.path
    | _ => none

@[simp] theorem opened_start (visited : NameSet) : (start visited).opened = [] := rfl
@[simp] theorem closed_start (visited : NameSet) : (start visited).closed = [] := rfl
@[simp] theorem visited_start (visited : NameSet) : (start visited).visited = visited := rfl

@[simp] theorem visited_enter (w : Walk) (file : Path) :
    (w.enter file).visited = w.visited.add file.render := rfl

@[simp] theorem opened_enter (w : Walk) (file : Path) : (w.enter file).opened = w.opened := rfl
@[simp] theorem closed_enter (w : Walk) (file : Path) : (w.enter file).closed = w.closed := rfl
@[simp] theorem visited_note (w : Walk) (e : WalkEvent) : (w.note e).visited = w.visited := rfl

@[simp] theorem opened_note_opened (w : Walk) (source : Source) :
    (w.note (.opened source)).opened = w.opened ++ [source.path] := by
  simp [opened, note]

@[simp] theorem opened_note_followed (w : Walk) (file target : Path) (reason : Reason) :
    (w.note (.followed file target reason)).opened = w.opened := by
  simp [opened, note]

@[simp] theorem opened_note_closed (w : Walk) (source : Source) (imports : List Path) :
    (w.note (.closed source imports)).opened = w.opened := by
  simp [opened, note]

@[simp] theorem closed_note_opened (w : Walk) (source : Source) :
    (w.note (.opened source)).closed = w.closed := by
  simp [closed, note]

@[simp] theorem closed_note_followed (w : Walk) (file target : Path) (reason : Reason) :
    (w.note (.followed file target reason)).closed = w.closed := by
  simp [closed, note]

@[simp] theorem closed_note_closed (w : Walk) (source : Source) (imports : List Path) :
    (w.note (.closed source imports)).closed = w.closed ++ [(source, imports)] := by
  simp [closed, note]

theorem hasEntered_iff {w : Walk} {file : Path} :
    w.hasEntered file ↔ file.render ∈ w.visited := by
  simp [hasEntered]

end Walk

namespace Sources

theorem load_spec {s : Sources} {file : Path} {source : Source} (h : s.load file = .ok source) :
    source.path = file ∧ ∃ content, s.host.read file = .ok content ∧
      source.tree = content.tree := by
  unfold load at h
  split at h
  next => cases h
  next => cases h
  next content hread =>
    dsimp only at h
    split_ifs at h
    · obtain rfl := Except.ok.inj h
      exact ⟨rfl, content, hread, rfl⟩
    · obtain rfl := Except.ok.inj h
      exact ⟨rfl, content, hread, rfl⟩

theorem path_of_load {s : Sources} {file : Path} {source : Source}
    (h : s.load file = .ok source) : source.path = file :=
  (load_spec h).1

/-- One part of a walk: a file with all it leads to, or the targets a file still has to follow. -/
inductive Job where
  | visit (file : Path)
  | follow (file : Path) (targets : List (Reason × Path))

/-- A walk that does a job from one state to another. -/
inductive Run (s : Sources) (order : Order) : Job → Walk → Walk → Prop where
  | visit {file : Path} {w w' : Walk} {source : Source} {imports : List Path}
      (hload : s.load file = .ok source) (himports : s.imports source = .ok imports)
      (rest : Run s order (.follow file (order source imports))
        ((w.enter file).note (.opened source)) w') :
      Run s order (.visit file) w (w'.note (.closed source imports))
  | done {file : Path} {w : Walk} : Run s order (.follow file []) w w
  | skip {file target : Path} {reason : Reason} {targets : List (Reason × Path)} {w w' : Walk}
      (hseen : w.hasEntered target) (rest : Run s order (.follow file targets) w w') :
      Run s order (.follow file ((reason, target) :: targets)) w w'
  | enter {file target : Path} {reason : Reason} {targets : List (Reason × Path)}
      {w w₁ w' : Walk} (hnew : ¬ w.hasEntered target)
      (first : Run s order (.visit target) (w.note (.followed file target reason)) w₁)
      (rest : Run s order (.follow file targets) w₁ w') :
      Run s order (.follow file ((reason, target) :: targets)) w w'

/-- Follows one target of a file, unless it has been entered. -/
def followOne (s : Sources) (order : Order) (fuel : Nat) (file : Path) (w : Walk)
    (t : Reason × Path) : Except Halt Walk :=
  if w.hasEntered t.2 then .ok w
  else s.visit order fuel t.2 (w.note (.followed file t.2 t.1))

theorem visit_of_load {s : Sources} {order : Order} {fuel : Nat} {file : Path} {w : Walk}
    {source : Source} {imports : List Path} (hload : s.load file = .ok source)
    (himports : s.imports source = .ok imports) :
    s.visit order (fuel + 1) file w =
      ((order source imports).foldlM (s.followOne order fuel file)
        ((w.enter file).note (.opened source))) >>= fun w' =>
          .ok (w'.note (.closed source imports)) := by
  rw [visit, hload]
  dsimp only
  rw [himports]
  rfl

/-- A visit that ends well has loaded the file and followed all of its targets. -/
theorem exists_of_visit_ok {s : Sources} {order : Order} {fuel : Nat} {file : Path} {w w' : Walk}
    (h : s.visit order (fuel + 1) file w = .ok w') :
    ∃ source imports w₁, s.load file = .ok source ∧ s.imports source = .ok imports ∧
      (order source imports).foldlM (s.followOne order fuel file)
          ((w.enter file).note (.opened source)) = .ok w₁ ∧
        w' = w₁.note (.closed source imports) := by
  cases hload : s.load file with
  | error e => simp [visit, hload] at h
  | ok source =>
    cases himports : s.imports source with
    | error e => simp [visit, hload, himports] at h
    | ok imports =>
      rw [visit_of_load hload himports] at h
      obtain ⟨w₁, hfold, hend⟩ := Outcome.exists_of_bind_ok h
      exact ⟨source, imports, w₁, rfl, himports, hfold, (Except.ok.inj hend).symm⟩

theorem run_of_foldlM {s : Sources} {order : Order} {fuel : Nat} {file : Path}
    (hvisit : ∀ {target w w'}, s.visit order fuel target w = .ok w' →
      Run s order (.visit target) w w')
    {targets : List (Reason × Path)} {w w' : Walk}
    (h : targets.foldlM (s.followOne order fuel file) w = .ok w') :
    Run s order (.follow file targets) w w' := by
  induction targets generalizing w with
  | nil =>
    obtain rfl := Except.ok.inj h
    exact .done
  | cons t targets ih =>
    rw [List.foldlM_cons] at h
    obtain ⟨w₁, hone, hrest⟩ := Outcome.exists_of_bind_ok h
    unfold followOne at hone
    split at hone
    next hseen =>
      obtain rfl := Except.ok.inj hone
      exact .skip hseen (ih hrest)
    next hnew => exact .enter hnew (hvisit hone) (ih hrest)

/-- A walk that ends is a derivation of steps. -/
theorem run_of_visit {s : Sources} {order : Order} {fuel : Nat} {file : Path} {w w' : Walk}
    (h : s.visit order fuel file w = .ok w') : Run s order (.visit file) w w' := by
  induction fuel generalizing file w w' with
  | zero => cases h
  | succ fuel ih =>
    obtain ⟨source, imports, w₁, hload, himports, hfold, rfl⟩ := exists_of_visit_ok h
    exact .visit hload himports (run_of_foldlM ih hfold)

variable {s : Sources} {order : Order} {job : Job} {w w' : Walk}

theorem Run.visited_subset (h : Run s order job w w') : w.visited ⊆ w'.visited := by
  induction h with
  | visit _ _ _ ih => exact fun x hx => ih (NameSet.mem_add.mpr (.inl hx))
  | done => exact List.Subset.refl _
  | skip _ _ ih => exact ih
  | enter _ _ _ ihfirst ihrest => exact List.Subset.trans ihfirst ihrest

/-- A file that was visited has been entered. -/
theorem Run.mem_visited {file : Path} (h : Run s order (.visit file) w w') :
    file.render ∈ w'.visited := by
  cases h with
  | visit _ _ rest => exact rest.visited_subset (NameSet.mem_add.mpr (.inr rfl))

/-- All targets of a file have been entered when it is closed. -/
theorem Run.mem_visited_of_mem {file : Path} {targets : List (Reason × Path)}
    (h : Run s order (.follow file targets) w w') {t : Reason × Path} (ht : t ∈ targets) :
    t.2.render ∈ w'.visited := by
  induction targets generalizing w with
  | nil => cases ht
  | cons t' targets ih =>
    cases h with
    | skip hseen rest =>
      rcases List.mem_cons.mp ht with rfl | ht
      · exact rest.visited_subset (Walk.hasEntered_iff.mp hseen)
      · exact ih rest ht
    | enter _ first rest =>
      rcases List.mem_cons.mp ht with rfl | ht
      · exact rest.visited_subset first.mem_visited
      · exact ih rest ht

theorem Run.nodup_visited (h : Run s order job w w') (hw : w.visited.Nodup) :
    w'.visited.Nodup := by
  induction h with
  | visit _ _ _ ih => exact ih (NameSet.nodup_add hw)
  | done => exact hw
  | skip _ _ ih => exact ih hw
  | enter _ _ _ ihfirst ihrest => exact ihrest (ihfirst hw)

/-- The file that a job is about to enter is new. -/
def Job.IsFresh (w : Walk) : Job → Prop
  | .visit file => file.render ∉ w.visited
  | .follow .. => True

/-- The files entered are the files read. -/
theorem Run.visited_eq_opened (h : Run s order job w w') (hfresh : job.IsFresh w)
    (hw : w.visited = w.opened.map Path.render) : w'.visited = w'.opened.map Path.render := by
  induction h with
  | @visit file w w' source imports hload _ _ ih =>
    have hnew : file.render ∉ w.visited := hfresh
    rw [Walk.visited_note, Walk.opened_note_closed]
    apply ih trivial
    rw [Walk.visited_note, Walk.visited_enter, NameSet.add, if_neg hnew, hw]
    simp [path_of_load hload]
  | done => exact hw
  | skip _ _ ih => exact ih trivial hw
  | enter hnew _ _ ihfirst ihrest =>
    refine ihrest trivial (ihfirst (fun hmem => hnew (Walk.hasEntered_iff.mpr hmem)) ?_)
    simpa using hw

/-- The files read are those closed and those still open. A job closes what it opens. -/
theorem Run.closed_perm (h : Run s order job w w') {stack : List Path}
    (hw : (w.closed.map (·.1.path) ++ stack).Perm w.opened) :
    (w'.closed.map (·.1.path) ++ stack).Perm w'.opened := by
  induction h generalizing stack with
  | @visit file w w' source imports hload _ _ ih =>
    have hopen : (((w.enter file).note (.opened source)).closed.map (·.1.path) ++
        source.path :: stack).Perm ((w.enter file).note (.opened source)).opened := by
      simpa using List.perm_middle.trans
        ((hw.cons source.path).trans (List.perm_append_singleton _ _).symm)
    simpa using ih hopen
  | done => exact hw
  | skip _ _ ih => exact ih hw
  | enter _ _ _ ihfirst ihrest => exact ihrest (ihfirst (by simpa using hw))

/-- One file imports another. -/
def Imports (s : Sources) (file target : Path) : Prop :=
  ∃ source imports, s.load file = .ok source ∧ s.imports source = .ok imports ∧ target ∈ imports

/-- The files that a file leads to along imports, itself included. -/
abbrev Reaches (s : Sources) : Path → Path → Prop := Relation.ReflTransGen s.Imports

/-- An order follows exactly the imports of a file, each for some reason and perhaps repeatedly. -/
def Order.IsCovering (order : Order) : Prop :=
  ∀ source imports target, target ∈ imports ↔ ∃ reason, (reason, target) ∈ order source imports

/-- A job starts from files that the entry leads to. -/
def Job.StartsIn (reached : Path → Prop) : Job → Prop
  | .visit file => reached file
  | .follow _ targets => ∀ t ∈ targets, reached t.2

/-- Only files that the entry leads to are read. -/
theorem Run.reaches_of_mem_opened (hcover : order.IsCovering) (h : Run s order job w w')
    {entry : Path} (hstart : job.StartsIn (s.Reaches entry))
    (hw : ∀ f ∈ w.opened, s.Reaches entry f) : ∀ f ∈ w'.opened, s.Reaches entry f := by
  induction h with
  | @visit file w w' source imports hload himports _ ih =>
    rw [Walk.opened_note_closed]
    apply ih
    · intro t ht
      have hmem : t.2 ∈ imports := (hcover source imports t.2).mpr ⟨t.1, ht⟩
      exact .tail hstart ⟨source, imports, hload, himports, hmem⟩
    · intro f hf
      rw [Walk.opened_note_opened, Walk.opened_enter, path_of_load hload] at hf
      rcases List.mem_append.mp hf with hf | hf
      · exact hw f hf
      · exact List.mem_singleton.mp hf ▸ hstart
  | done => exact hw
  | skip _ _ ih => exact ih (fun t ht => hstart t (List.mem_cons_of_mem _ ht)) hw
  | enter _ _ _ ihfirst ihrest =>
    refine ihrest (fun t ht => hstart t (List.mem_cons_of_mem _ ht)) (ihfirst ?_ ?_)
    · exact hstart _ List.mem_cons_self
    · simpa using hw

/-- What is known of a closed file: its text and imports, and that its imports were entered. -/
structure IsClosedIn (s : Sources) (visited : NameSet) (d : Source × List Path) : Prop where
  load : s.load d.1.path = .ok d.1
  imports : s.imports d.1 = .ok d.2
  entered : ∀ target ∈ d.2, target.render ∈ visited

theorem IsClosedIn.mono {visited visited' : NameSet} {d : Source × List Path}
    (h : s.IsClosedIn visited d) (hsub : visited ⊆ visited') : s.IsClosedIn visited' d :=
  ⟨h.load, h.imports, fun target ht => hsub (h.entered target ht)⟩

/-- Every file is closed with all its imports entered. -/
theorem Run.isClosedIn (hcover : order.IsCovering) (h : Run s order job w w')
    (hw : ∀ d ∈ w.closed, s.IsClosedIn w.visited d) :
    ∀ d ∈ w'.closed, s.IsClosedIn w'.visited d := by
  induction h with
  | @visit file w w' source imports hload himports rest ih =>
    intro d hd
    rw [Walk.closed_note_closed] at hd
    rcases List.mem_append.mp hd with hd | hd
    · refine ih (fun d hd => ?_) d hd
      exact (hw d (by simpa using hd)).mono fun x hx => NameSet.mem_add.mpr (.inl hx)
    · obtain rfl := List.mem_singleton.mp hd
      refine ⟨path_of_load hload ▸ hload, himports, fun target ht => ?_⟩
      obtain ⟨reason, hmem⟩ := (hcover source imports target).mp ht
      exact rest.mem_visited_of_mem hmem
  | done => exact hw
  | skip _ _ ih => exact ih hw
  | enter _ _ _ ihfirst ihrest => exact ihrest (ihfirst (by simpa using hw))

end Sources
end SolidityCalls
