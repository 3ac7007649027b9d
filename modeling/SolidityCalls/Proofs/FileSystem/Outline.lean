import SolidityCalls.Proofs.FileSystem.Keeps

/-! File systems without the contents of their files. Walks and edits never look at a content, so
whether they succeed is told by the outline alone. -/
namespace SolidityCalls

/-- What stands at a location, the content of a file put aside. -/
def Entry.outline : Entry → Entry
  | .file _ => .file ⟨[], default⟩
  | e => e

theorem Entry.outline_eq_link {e : Entry} {target : String} :
    e.outline = .link target ↔ e = .link target := by
  cases e <;> simp [outline]

namespace FileSystem

def outline (fs : FileSystem) : FileSystem where
  entries := fs.entries.map fun x => (x.1, x.2.outline)
  distinct := by simpa [Function.comp_def] using fs.distinct

section Walk

variable (fs : FileSystem)

theorem entryAt?_outline (loc : Location) :
    fs.outline.entryAt? loc = (fs.entryAt? loc).map Entry.outline := by
  have hlookup (entries : List (Location × Entry)) :
      (entries.map fun x => (x.1, x.2.outline)).lookup loc =
        (entries.lookup loc).map Entry.outline := by
    induction entries with
    | nil => rfl
    | cons x entries ih =>
      rw [List.map_cons, List.lookup_cons, List.lookup_cons, ih]
      cases loc == x.1 <;> rfl
  unfold entryAt?
  split
  next => rfl
  next => exact hlookup fs.entries

theorem isDirectoryAt_outline (loc : Location) :
    fs.outline.isDirectoryAt loc = fs.isDirectoryAt loc := by
  unfold isDirectoryAt
  rw [entryAt?_outline]
  rcases fs.entryAt? loc with _ | _ | _ | _ <;> rfl

theorem put_outline (loc : Location) (e : Entry) :
    (fs.put loc e).outline = fs.outline.put loc e.outline := by
  simp only [outline, put, mk.injEq, List.map_append, List.filter_map]
  rfl

/-- A walk takes the same way through the outline. -/
theorem walk_outline (created : Bool) (links : Nat) (here : Location) (parts : List String) :
    fs.outline.walk created links here parts =
      (fs.walk created links here parts).map fun x => (x.1, x.2.map Entry.outline) := by
  have hdirectory {here : Location} (hd : ¬ (!fs.isDirectoryAt here) = true) :
      fs.outline.isDirectoryAt here := by
    rw [isDirectoryAt_outline]
    simpa using hd
  fun_induction walk fs created links here parts with
  | case1 _ here =>
    rw [walk, entryAt?_outline]
    rfl
  | case2 _ here c rest hd =>
    rw [walk, isDirectoryAt_outline, if_pos hd]
    rfl
  | case3 _ here c rest hd hc ih => rw [walk_stay (hdirectory hd) hc, ih]
  | case4 _ here rest hd _ ih => rw [walk_up (hdirectory hd), ih]
  | case5 _ here c rest hd hc hup hslash =>
    rw [walk, isDirectoryAt_outline, if_neg hd, if_neg hc, if_neg hup, if_pos hslash]
    rfl
  | case6 _ here c rest hd hc hup hslash hlong =>
    rw [walk, isDirectoryAt_outline, if_neg hd, if_neg hc, if_neg hup, if_neg hslash, if_pos hlong]
    rfl
  | case7 _ here c hd hc hup hlong hnone hslash =>
    rw [walk, isDirectoryAt_outline, if_neg hd, if_neg hc, if_neg hup, if_neg hslash,
      if_neg hlong, entryAt?_outline, hnone]
    rfl
  | case8 _ here c rest hd hc hup hslash hlong hnone hrest =>
    have hmissing : fs.outline.entryAt? (here ++ [c]) = none := by rw [entryAt?_outline, hnone]; rfl
    rw [walk_missing (hdirectory hd) ⟨hc, hup, hslash, hlong⟩ hmissing hrest]
    rfl
  | case9 here c rest hd hc hup hslash hlong target htarget =>
    have hlink := congrArg (Option.map Entry.outline) htarget
    rw [← entryAt?_outline] at hlink
    rw [walk_exhausted (hdirectory hd) ⟨hc, hup, hslash, hlong⟩ hlink]
    rfl
  | case10 here c rest hd hc hup hslash hlong target htarget links ih =>
    have hlink := congrArg (Option.map Entry.outline) htarget
    rw [← entryAt?_outline] at hlink
    rw [walk_follow (hdirectory hd) ⟨hc, hup, hslash, hlong⟩ hlink, ih]
  | case11 _ here c rest hd hc hup hslash hlong e hl he ih =>
    have he' := congrArg (Option.map Entry.outline) he
    rw [← entryAt?_outline] at he'
    rw [walk_down (hdirectory hd) ⟨hc, hup, hslash, hlong⟩ he' fun target h =>
      hl target (Entry.outline_eq_link.mp h), ih]

theorem find_outline (parts : List String) :
    fs.outline.find parts = (fs.find parts).map fun x => (x.1, x.2.outline) := by
  unfold find
  rw [walk_outline]
  rcases fs.walk false maxLinks [] parts with _ | ⟨_, _ | _⟩ <;> rfl

end Walk

section Edit

variable (fs : FileSystem)

theorem makeDirectory_outline (parts : List String) :
    fs.outline.makeDirectory parts = (fs.makeDirectory parts).map outline := by
  unfold makeDirectory
  split
  next => rfl
  next name _ =>
    rw [find_outline, find_outline]
    split
    next => cases fs.find parts <;> rfl
    next =>
      rcases fs.find parts.dropLast with _ | ⟨loc, _ | _ | _⟩
      · rfl
      · dsimp only [Except.map, Entry.outline]
        split
        next => rfl
        next =>
          rw [entryAt?_outline]
          cases fs.entryAt? (loc ++ [name]) with
          | none =>
            dsimp only [Option.map]
            rw [put_outline]
            rfl
          | some _ => rfl
      · rfl
      · rfl

theorem ensureDirectory_outline (parts : List String) :
    fs.outline.ensureDirectory parts = (fs.ensureDirectory parts).map outline := by
  unfold ensureDirectory
  rw [makeDirectory_outline, find_outline]
  rcases fs.makeDirectory parts with e | _
  · cases e with
    | notFound => rfl
    | alreadyExists | notDirectory | isDirectory | tooManyLinks | nameTooLong | embeddedNul =>
      rcases fs.find parts with e | ⟨_, _ | _ | _⟩
      · cases e <;> rfl
      · rfl
      · rfl
      · rfl
  · rfl

/-- Directories are made in the outline as in the file system, with the same failure. -/
theorem ensureDirectories_outline (base reversed : List String) :
    fs.outline.ensureDirectories base reversed =
      (fs.ensureDirectories base reversed).map outline id := by
  induction reversed generalizing fs with
  | nil =>
    unfold ensureDirectories
    rw [ensureDirectory_outline]
    cases fs.ensureDirectory base <;> rfl
  | cons name above ih =>
    unfold ensureDirectories
    rw [ensureDirectory_outline]
    rcases fs.ensureDirectory (base ++ (name :: above).reverse) with e | _
    · cases e with
      | notFound =>
        dsimp only [Except.map]
        rw [ih]
        rcases fs.ensureDirectories base above with ⟨made, _ | _⟩
        · dsimp only [Prod.map, id]
          rw [ensureDirectory_outline]
          cases made.ensureDirectory (base ++ (name :: above).reverse) <;> rfl
        · rfl
      | alreadyExists | notDirectory | isDirectory | tooManyLinks | nameTooLong | embeddedNul => rfl
    · rfl

theorem writeFile_outline (parts : List String) (content : Content) :
    fs.outline.writeFile parts ⟨[], default⟩ = (fs.writeFile parts content).map outline := by
  have hput (loc : Location) : fs.outline.put loc (.file ⟨[], default⟩) =
      (fs.put loc (.file content)).outline := (fs.put_outline loc (.file content)).symm
  unfold writeFile
  rw [walk_outline]
  rcases fs.walk true maxLinks [] parts with _ | ⟨loc, _ | _ | _ | _⟩
  · rfl
  · exact congrArg Except.ok (hput loc)
  · rfl
  · exact congrArg Except.ok (hput loc)
  · exact congrArg Except.ok (hput loc)

end Edit

end FileSystem

end SolidityCalls
