import SolidityCalls.Host
import SolidityCalls.Proofs.Path.RoundTrip

/-! The form of resolved paths: they are absolute, and their components can stand between
slashes. -/
namespace SolidityCalls

/-- The form that resolution gives to paths. -/
structure Path.IsResolved (p : Path) : Prop where
  absolute : p.isAbsolute
  plain : p.IsPlain

theorem Path.eq_of_relativeTo? {p root : Path} {rest : List String}
    (h : p.relativeTo? root = some rest) : p = ⟨root.anchor, root.parts ++ rest⟩ := by
  unfold relativeTo? at h
  split at h
  next hroot =>
    obtain ⟨hanchor, hparts⟩ := hroot
    obtain ⟨rest', hrest'⟩ := List.isPrefixOf_iff_prefix.mp hparts
    obtain rfl := Option.some.inj h
    obtain ⟨anchor, parts⟩ := p
    obtain rfl : root.parts ++ rest' = parts := hrest'
    obtain rfl : anchor = root.anchor := hanchor
    rw [List.drop_left]
  next => cases h

namespace Path.IsResolved

theorem parent {p : Path} (h : p.IsResolved) : p.parent.IsResolved :=
  ⟨h.absolute, fun c hc => h.plain c (List.dropLast_subset _ hc)⟩

theorem child {p : Path} (h : p.IsResolved) (text : String) : (p.child text).IsResolved := by
  have htext := parse_isPlain text
  unfold Path.child join
  split
  next => exact ⟨h.absolute, List.forall_mem_append.mpr ⟨h.plain, htext⟩⟩
  next hanchor => exact ⟨by simpa [isAbsolute] using hanchor, htext⟩

/-- What artifacts show of a resolved path is read back as the rest below the root, or as the path
itself. -/
theorem parse_display {p : Path} (h : p.IsResolved) (root : Path) :
    parse (p.display root) = ((p.relativeTo? root).map (Path.mk .relative)).getD p := by
  unfold display
  cases hrest : p.relativeTo? root with
  | none => exact parse_render h.plain
  | some rest =>
    refine parse_render fun c hc => h.plain c ?_
    unfold relativeTo? at hrest
    split at hrest
    next =>
      obtain rfl := Option.some.inj hrest
      exact List.mem_of_mem_drop hc
    next => cases hrest

/-- Joined to the root, what artifacts show of a path is the path again. -/
theorem child_display {p : Path} (h : p.IsResolved) (root : Path) :
    root.child (p.display root) = p := by
  rw [Path.child, h.parse_display]
  cases hrest : p.relativeTo? root with
  | none =>
    have hanchor : p.anchor ≠ .relative := by simpa [isAbsolute] using h.absolute
    show root.join p = p
    unfold join
    split
    next hrelative => exact absurd hrelative hanchor
    next => rfl
  | some rest => exact (eq_of_relativeTo? hrest).symm

theorem display_injective {p q : Path} (hp : p.IsResolved) (hq : q.IsResolved) {root : Path}
    (h : p.display root = q.display root) : p = q := by
  rw [← hp.child_display root, h, hq.child_display]

end Path.IsResolved

namespace FileSystem

section Components

variable {fs : FileSystem} {P : String → Prop}

/-- The location that a resolution ends at has only components with the property. A path that was
left at a loop is absolute and has only such components, except for those that are passed over. -/
def IsMadeOf (P : String → Prop) : Except Path Reached → Prop
  | .ok (_, loc) => ∀ c ∈ loc, P c
  | .error left => left.isAbsolute ∧ ∀ c ∈ left.parts, ¬ (c = "" ∨ c = ".") → P c

theorem isMadeOf_goOn {p : Path} {rest : List String} (hp : IsMadeOf P (.error p))
    (hrest : ∀ c ∈ rest, ¬ (c = "" ∨ c = ".") → P c) : IsMadeOf P (.error (goOn p rest)) := by
  unfold goOn Path.join
  cases Path.anchorOf ("/".intercalate rest).toList with
  | relative => exact ⟨hp.1, List.forall_mem_append.mpr ⟨hp.2, hrest⟩⟩
  | root => exact ⟨rfl, hrest⟩
  | doubleRoot => exact ⟨rfl, hrest⟩

theorem linkBase_subset (target : String) (here : Location) : linkBase target here ⊆ here := by
  unfold linkBase
  split
  · exact List.nil_subset _
  · exact List.Subset.refl _

theorem forall_mem_concat {here : Location} {c : String} (h : ∀ d ∈ here, P d) (hc : P c) :
    ∀ d ∈ here ++ [c], P d :=
  List.forall_mem_append.mpr ⟨h, List.forall_mem_singleton.mpr hc⟩

/-- Resolution brings in no components but those of link targets. -/
theorem resolveFrom_isMadeOf
    (hlinks : ∀ {loc target}, fs.entryAt? loc = some (.link target) →
      ∀ c ∈ Path.pieces target, ¬ (c = "" ∨ c = ".") → P c)
    (active : List Reached) (relative : Bool) {here : Location} {parts : List String}
    (hhere : ∀ c ∈ here, P c) (hparts : ∀ c ∈ parts, ¬ (c = "" ∨ c = ".") → P c) :
    IsMadeOf P (fs.resolveFrom active relative here parts) := by
  fun_induction resolveFrom fs active relative here parts with
  | case1 => exact hhere
  | case2 _ _ here c rest hc ih => exact ih hhere (List.forall_mem_cons.mp hparts).2
  | case3 _ _ here rest hc ih =>
    exact ih (fun d hd => hhere d (List.dropLast_subset _ hd)) (List.forall_mem_cons.mp hparts).2
  | case4 _ _ here c rest hc _ target _ _ =>
    obtain ⟨hown, hrest⟩ := List.forall_mem_cons.mp hparts
    exact isMadeOf_goOn ⟨rfl, fun d hd _ => forall_mem_concat hhere (hown hc) d hd⟩ hrest
  | case5 _ _ here c rest hc _ target htarget _ _ loc hmid ihtarget ihrest =>
    have hloc := ihtarget (fun d hd => hhere d (linkBase_subset target here hd)) (hlinks htarget)
    rw [hmid] at hloc
    exact ihrest hloc (List.forall_mem_cons.mp hparts).2
  | case6 _ _ here c rest hc _ target htarget _ left hleft ih =>
    have hstopped := ih (fun d hd => hhere d (linkBase_subset target here hd)) (hlinks htarget)
    rw [hleft] at hstopped
    exact isMadeOf_goOn hstopped (List.forall_mem_cons.mp hparts).2
  | case7 _ _ here c rest hc _ _ ih =>
    obtain ⟨hown, hrest⟩ := List.forall_mem_cons.mp hparts
    exact ih (forall_mem_concat hhere (hown hc)) hrest

theorem forall_mem_collapse {parts : List String}
    (h : ∀ c ∈ parts, ¬ (c = "" ∨ c = ".") → P c) : ∀ c ∈ collapse parts, P c := by
  suffices hgo : ∀ done : List String, (∀ c ∈ done, P c) →
      ∀ c ∈ parts.foldl (fun done c =>
        if c = "" ∨ c = "." then done else if c = ".." then done.dropLast else done ++ [c]) done,
        P c from hgo [] (by simp)
  induction parts with
  | nil => exact fun done hdone => hdone
  | cons c parts ih =>
    intro done hdone
    obtain ⟨hown, hparts⟩ := List.forall_mem_cons.mp h
    rw [List.foldl_cons]
    apply ih hparts
    split_ifs with hc hup
    · exact hdone
    · exact fun d hd => hdone d (List.dropLast_subset _ hd)
    · exact forall_mem_concat hdone (hown hc)

theorem settle_isMadeOf {r : Except Path Reached} {q : Path} (hr : IsMadeOf P r)
    (h : fs.settle r = .ok q) : q.isAbsolute ∧ ∀ c ∈ q.parts, P c := by
  cases r with
  | ok reached =>
    obtain rfl := Except.ok.inj h
    exact ⟨rfl, hr⟩
  | error left =>
    unfold settle at h
    dsimp only at h
    split at h
    · cases h
    · obtain rfl := Except.ok.inj h
      exact ⟨hr.1, forall_mem_collapse hr.2⟩

/-- What holds of the components of a path, of the working directory and of all link targets holds
of the components of the resolved path. -/
theorem resolve_isMadeOf
    (hlinks : ∀ {loc target}, fs.entryAt? loc = some (.link target) →
      ∀ c ∈ Path.pieces target, ¬ (c = "" ∨ c = ".") → P c)
    {workingDirectory : Location} {p q : Path} (hp : ∀ c ∈ p.parts, P c)
    (hw : p.isAbsolute ∨ ∀ c ∈ workingDirectory, P c) (h : fs.resolve workingDirectory p = .ok q) :
    q.isAbsolute ∧ ∀ c ∈ q.parts, P c := by
  have hstart : ∀ c ∈ (if !p.isAbsolute then workingDirectory else []), P c := by
    rcases hw with hw | hw
    · simp [hw]
    · split
      · exact hw
      · simp
  exact settle_isMadeOf
    (resolveFrom_isMadeOf hlinks [] (!p.isAbsolute) hstart fun c hc _ => hp c hc) h

end Components

theorem resolve_isResolved (fs : FileSystem) {workingDirectory : Location} {p q : Path}
    (hp : p.IsPlain) (hw : p.isAbsolute ∨ ∀ c ∈ workingDirectory, IsComponent c)
    (h : fs.resolve workingDirectory p = .ok q) : q.IsResolved := by
  have hlinks {loc : Location} {target : String} (_ : fs.entryAt? loc = some (.link target)) :
      ∀ c ∈ Path.pieces target, ¬ (c = "" ∨ c = ".") → IsComponent c := fun c hc hkept =>
    ⟨fun he => hkept (.inl he), fun he => hkept (.inr he), Path.no_slash_of_mem_pieces hc⟩
  obtain ⟨habsolute, hplain⟩ := resolve_isMadeOf hlinks hp hw h
  exact ⟨habsolute, hplain⟩

end FileSystem

theorem Host.files_resolve {host : Host} {p q : Path} (h : host.resolve p = .ok q) :
    host.files.resolve host.workingDirectory p = .ok q := by
  unfold Host.resolve at h
  split at h
  · cases h
  · split at h
    next hq => rw [hq, Except.ok.inj h]
    next => cases h

theorem Host.resolve_isResolved (host : Host) {p q : Path} (hp : p.IsPlain)
    (hw : p.isAbsolute ∨ ∀ c ∈ host.workingDirectory, IsComponent c)
    (h : host.resolve p = .ok q) : q.IsResolved :=
  host.files.resolve_isResolved hp hw (Host.files_resolve h)

end SolidityCalls
