import SolidityCalls.Proofs.Project.Rediscovery

/-! Why a host does not say where a path leads: names hold NUL characters, links form a loop, users
have no home, and paths are too long. -/
namespace SolidityCalls.Host

variable {host : Host} {p : Path} {e : Failure}

/-- Why a path is not resolved: it holds a NUL character, or it ends in a loop of links. -/
inductive CannotResolve (host : Host) (p : Path) : Failure → Prop where
  | nul : p.parts.any holdsNul → CannotResolve host p (.system .embeddedNul p)
  | loop {q : Path} : p.parts.any holdsNul = false →
      host.files.resolve host.workingDirectory p = .error q → CannotResolve host p (.symlinkLoop q)

theorem resolve_error_iff : host.resolve p = .error e ↔ host.CannotResolve p e := by
  unfold resolve
  constructor
  · intro h
    split at h
    next hnul =>
      obtain rfl := Except.error.inj h
      exact .nul hnul
    next hnul =>
      split at h
      next => cases h
      next q hq =>
        obtain rfl := Except.error.inj h
        exact .loop (by simpa using hnul) hq
  · rintro (hnul | ⟨hnul, hq⟩)
    · rw [if_pos hnul]
    · rw [if_neg (by simp [hnul]), hq]

theorem CannotResolve.isUserError (h : host.CannotResolve p e) : e.isUserError = false := by
  cases h <;> rfl

/-- Why there is no home: the name of the user holds a NUL character, or there is no such user. -/
inductive HasNoHome (host : Host) (p : Path) : Failure → Prop where
  | nul {user : String} {rest : List String} : p = ⟨.relative, user :: rest⟩ →
      user.startsWith "~" → user ≠ "~" → holdsNul user →
      HasNoHome host p (.system .embeddedNul ⟨.relative, [user]⟩)
  | unknown {user : String} {rest : List String} : p = ⟨.relative, user :: rest⟩ →
      user.startsWith "~" → user ≠ "~" → holdsNul user = false →
      host.accounts.lookup (String.ofList (user.toList.drop 1)) = none →
      HasNoHome host p .unknownHome

theorem expandUser_error_iff : host.expandUser p = .error e ↔ host.HasNoHome p e := by
  constructor
  · intro h
    unfold expandUser at h
    split at h
    next user rest hanchor hparts =>
      obtain rfl : p = ⟨.relative, user :: rest⟩ := by rw [← hanchor, ← hparts]
      split at h
      next hhome =>
        rcases Outcome.exists_of_bind_error h with h | ⟨_, _, h⟩
        · unfold homeOf at h
          split at h
          next => cases h
          next hne =>
            split at h
            next hnul =>
              obtain rfl := Except.error.inj h
              exact .nul rfl hhome hne hnul
            next hnul =>
              split at h
              next => cases h
              next hnone =>
                obtain rfl := Except.error.inj h
                exact .unknown rfl hhome hne (by simpa using hnul) hnone
        · cases h
      next => cases h
    next => cases h
  · rintro (⟨rfl, hhome, hne, hnul⟩ | ⟨rfl, hhome, hne, hnul, hnone⟩)
    · simp only [expandUser, hhome, if_true, homeOf, hne, if_false, hnul]
      rfl
    · simp only [expandUser, hhome, if_true, homeOf, hne, if_false, hnul, hnone]
      rfl

theorem HasNoHome.isUserError (h : host.HasNoHome p e) : e.isUserError = false := by
  cases h <;> rfl

theorem isFile_iff : host.isFile p = .ok true ↔ ∃ content, host.read p = .ok content := by
  unfold isFile ask read
  rcases host.find p with e | ⟨loc, _ | _ | _⟩
  · cases e <;> simp
  · simp
  · simp
  · simp

theorem isFile_error (h : host.isFile p = .error e) :
    host.find p = .error .nameTooLong ∧ e = .system .nameTooLong p := by
  unfold isFile ask at h
  split at h
  next => cases h
  next hlong => exact ⟨hlong, (Except.error.inj h).symm⟩
  next => cases h

/-- A path is no longer than the paths below it. -/
theorem utf8ByteSize_render_child (p : Path) {name : String} (hname : IsComponent name) :
    p.render.utf8ByteSize ≤ (p.child name).render.utf8ByteSize := by
  obtain ⟨anchor, parts⟩ := p
  have hrender (c : String) (rest : List String) : (Path.mk anchor (c :: rest)).render =
      anchor.text ++ "/".intercalate (c :: rest) := by
    cases anchor <;> rfl
  rw [child_of_isComponent _ hname]
  cases parts with
  | nil =>
    have hpos : name.utf8ByteSize ≠ 0 := by
      intro hzero
      exact hname.ne_empty (String.utf8ByteSize_eq_zero_iff.mp hzero)
    rw [List.nil_append, hrender, String.utf8ByteSize_append, String.intercalate_singleton]
    cases anchor
    · show 1 ≤ 0 + _
      omega
    · show 1 ≤ 1 + _
      omega
    · show 2 ≤ 2 + _
      omega
  | cons c rest =>
    have hsize := Path.utf8ByteSize_intercalate c rest
    have hsize' := Path.utf8ByteSize_intercalate c (rest ++ [name])
    simp only [List.map_cons, List.map_append, List.sum_cons, List.sum_append] at hsize hsize'
    rw [List.cons_append, hrender, hrender, String.utf8ByteSize_append, String.utf8ByteSize_append]
    omega

theorem fault?_child (p : Path) {name : String} (hname : IsComponent name)
    (hnul : holdsNul name = false) :
    fault? (p.child name) = fault? p ∨ fault? (p.child name) = some .nameTooLong := by
  have hsize := utf8ByteSize_render_child p hname
  have hparts : (p.child name).parts.any holdsNul = p.parts.any holdsNul := by
    rw [child_of_isComponent p hname]
    simp [hnul]
  unfold fault?
  rw [hparts]
  split_ifs
  · exact .inl rfl
  · exact .inl rfl
  · exact .inr rfl
  · omega
  · exact .inl rfl

/-- A path that is too long is too long with one more component. -/
theorem find_child_of_nameTooLong {name : String}
    (hname : IsComponent name) (hnul : holdsNul name = false)
    (h : host.find p = .error .nameTooLong) : host.find (p.child name) = .error .nameTooLong := by
  unfold find at h ⊢
  rcases fault?_child p hname hnul with hsame | hlong
  · rw [hsame, parts_child host p hname]
    split at h
    next => exact h
    next => exact FileSystem.find_append_of_nameTooLong h [name]
  · rw [hlong]

end SolidityCalls.Host
