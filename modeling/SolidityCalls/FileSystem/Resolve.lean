import SolidityCalls.FileSystem.Basic

/-! Resolved paths: links are followed, `..` applies to what was resolved before it, and missing
components are kept. A link that is met again while it is being followed makes a loop. -/
namespace SolidityCalls.FileSystem

/-- A location, and whether it was reached from the working directory rather than from the
root. -/
abbrev Reached := Bool × Location

/-- Links that are not being followed. -/
def idleLinks (fs : FileSystem) (active : List Reached) : List Reached :=
  ((fs.entries.map (·.1)).flatMap fun loc => [(false, loc), (true, loc)]).filter (· ∉ active)

theorem idleLinks_lt (fs : FileSystem) {active : List Reached} {relative : Bool}
    {loc : Location} {e : Entry} (he : fs.entryAt? loc = some e) (hl : loc ≠ [])
    (hn : (relative, loc) ∉ active) :
    (fs.idleLinks ((relative, loc) :: active)).length < (fs.idleLinks active).length := by
  have hmem : loc ∈ fs.entries.map (·.1) := by
    rw [entryAt?, if_neg hl] at he
    obtain ⟨before, after, h, _⟩ := List.lookup_eq_some_iff.1 he
    simp [h]
  have hsplit : fs.idleLinks ((relative, loc) :: active) =
      (fs.idleLinks active).filter (· ≠ (relative, loc)) := by
    simp only [idleLinks, List.filter_filter, List.mem_cons, not_or, Bool.decide_and, ne_eq]
  rw [hsplit]
  refine List.length_filter_lt_length_iff_exists.2
    ⟨(relative, loc), List.mem_filter.2 ⟨List.mem_flatMap.2 ⟨loc, hmem, ?_⟩, by simpa using hn⟩,
      by simp⟩
  cases relative <;> simp

/-- The path that goes on from `p` with pieces that are left, or from the root if a slash stands
before them. -/
def goOn (p : Path) (rest : List String) : Path :=
  p.join ⟨Path.anchorOf ("/".intercalate rest).toList, rest⟩

/-- Resolves components from a location. A loop ends in the path that goes on from the link with
what is left. -/
def resolveFrom (fs : FileSystem) (active : List Reached) (relative : Bool) (here : Location) :
    List String → Except Path Reached
  | [] => .ok (relative, here)
  | c :: rest =>
    if c = "" ∨ c = "." then fs.resolveFrom active relative here rest
    else if c = ".." then fs.resolveFrom active relative here.dropLast rest
    else
      match _h : fs.entryAt? (here ++ [c]) with
      | some (.link target) =>
        if (relative, here ++ [c]) ∈ active then .error (goOn (Path.absolute (here ++ [c])) rest)
        else
          match fs.resolveFrom ((relative, here ++ [c]) :: active)
              (relative && !target.startsWith "/") (linkBase target here) (Path.pieces target) with
          | .ok (relative, loc) => fs.resolveFrom active relative loc rest
          | .error left => .error (goOn left rest)
      | _ => fs.resolveFrom active relative (here ++ [c]) rest
termination_by rest => ((fs.idleLinks active).length, rest.length)
decreasing_by
  · exact Prod.Lex.right _ (by simp)
  · exact Prod.Lex.right _ (by simp)
  · exact Prod.Lex.left _ _ (fs.idleLinks_lt _h (by simp) (by assumption))
  · exact Prod.Lex.right _ (by simp)
  · exact Prod.Lex.right _ (by simp)

/-- Components with every `..` applied to the one before it. -/
def collapse (parts : List String) : List String :=
  parts.foldl (fun done c =>
    if c = "" ∨ c = "." then done else if c = ".." then done.dropLast else done ++ [c]) []

/-- The path that a resolution ends in. A loop of links is an error only if it still stands in the
way once `..` has been applied; the error is the path that was reached. -/
def settle (fs : FileSystem) : Except Path Reached → Except Path Path
  | .ok (_, loc) => .ok (Path.absolute loc)
  | .error left =>
    let p : Path := ⟨left.anchor, collapse left.parts⟩
    match fs.find p.parts with
    | .error .tooManyLinks => .error p
    | _ => .ok p

/-- The resolved path of a path, seen from a working directory. Links on the way are seen however
long the path to them is. -/
def resolve (fs : FileSystem) (workingDirectory : Location) (p : Path) : Except Path Path :=
  let relative := !p.isAbsolute
  fs.settle (fs.resolveFrom [] relative (if relative then workingDirectory else []) p.parts)

end SolidityCalls.FileSystem
