import SolidityCalls.Proofs.Artifact.Target
import Mathlib.Computability.Language
import Mathlib.Data.List.TakeWhile

/-! The form of a target, told in three ways: by the scan that validation makes, by the parts
between the colons, and by a pattern. They agree on every text, one with newlines or empty parts
too. -/
namespace SolidityCalls.Artifact
open Computability

/-- The first two of some parts are there and not empty. -/
def namesTarget : List (List Char) → Bool
  | contract :: function :: _ => contract ≠ [] && function ≠ []
  | _ => false

/-- The part before the first colon, and the parts after it. -/
theorem splitOn_colon (cs : List Char) :
    cs.splitOn ':' = cs.takeWhile (· ≠ ':') ::
      match cs.dropWhile (· ≠ ':') with
      | [] => []
      | _ :: rest => rest.splitOn ':' := by
  induction cs with
  | nil => rfl
  | cons c cs ih =>
    rw [List.splitOn_cons_eq_if_modifyHead]
    by_cases hc : c = ':'
    · simp [hc]
    · simp [hc, ih]

theorem isCallTarget_eq (cs : List Char) : isCallTarget cs = namesTarget (cs.splitOn ':') := by
  rw [splitOn_colon, isCallTarget]
  cases cs.dropWhile (· ≠ ':') with
  | nil => cases cs.takeWhile (· ≠ ':') <;> rfl
  | cons colon rest =>
    simp only [splitOn_colon rest]
    cases cs.takeWhile (· ≠ ':') <;> simp [namesTarget]

theorem head_dropWhile_colon (cs : List Char) : ∀ c ∈ (cs.dropWhile (· ≠ ':')).head?, c = ':' := by
  intro c hc
  have hstop := List.head?_dropWhile_not (fun c : Char => decide (c ≠ ':')) cs
  rw [Option.mem_def.mp hc] at hstop
  simpa using hstop

theorem isCallTarget_iff {cs : List Char} : isCallTarget cs ↔
    ∃ contract rest, cs = contract ++ ':' :: rest ∧ (contract ≠ [] ∧ ':' ∉ contract) ∧
      rest ≠ [] ∧ rest.head? ≠ some ':' := by
  constructor
  · intro h
    unfold isCallTarget at h
    split at h
    next c contract d rest htake hdrop =>
      have hhead := head_dropWhile_colon cs
      rw [hdrop] at hhead
      obtain rfl := hhead d rfl
      refine ⟨cs.takeWhile (· ≠ ':'), rest, ?_, ⟨htake ▸ List.cons_ne_nil _ _, fun hmem => ?_⟩, ?_,
        ?_⟩
      · rw [← hdrop, List.takeWhile_append_dropWhile]
      · simpa using List.mem_takeWhile_imp hmem
      · rintro rfl
        simp at h
      · intro hcolon
        obtain ⟨rest, rfl⟩ := List.head?_eq_some_iff.mp hcolon
        simp at h
    next => cases h
  · rintro ⟨contract, rest, rfl, ⟨hne, hcontract⟩, hrest, hhead⟩
    exact isCallTarget_append hne hcontract hrest hhead

section Pattern

/-- One character that is no colon. -/
def nonColon : Language Char := {w | ∃ c, c ≠ ':' ∧ w = [c]}

def colon : Language Char := {[':']}

/-- Characters that are no colons, at least one of them. -/
def run : Language Char := nonColon * nonColon∗

/-- Two runs with a colon between them, and more of them after further colons. Those may be
empty. -/
def targetPattern : Language Char := run * colon * run * (colon * nonColon∗)∗

/-- A pattern takes a text to its end, or to a newline that ends it. -/
def Takes (pattern : Language Char) (cs : List Char) : Prop :=
  ∃ w ∈ pattern, cs = w ∨ cs = w ++ ['\n']

theorem mem_kstar_nonColon {w : List Char} : w ∈ nonColon∗ ↔ ':' ∉ w := by
  constructor
  · rintro ⟨pieces, rfl, hpieces⟩ hmem
    obtain ⟨piece, hpiece, hcolon⟩ := List.mem_flatten.mp hmem
    obtain ⟨c, hc, rfl⟩ := hpieces piece hpiece
    exact hc (List.mem_singleton.mp hcolon).symm
  · intro hw
    refine ⟨w.map ([·]), by rw [← List.flatMap_def, List.flatMap_singleton'], ?_⟩
    intro piece hpiece
    obtain ⟨c, hc, rfl⟩ := List.mem_map.mp hpiece
    exact ⟨c, fun heq => hw (heq ▸ hc), rfl⟩

theorem mem_run {w : List Char} : w ∈ run ↔ w ≠ [] ∧ ':' ∉ w := by
  rw [run, Language.mem_mul]
  constructor
  · rintro ⟨_, ⟨c, hc, rfl⟩, rest, hrest, rfl⟩
    exact ⟨by simp, List.not_mem_cons_of_ne_of_not_mem (Ne.symm hc) (mem_kstar_nonColon.mp hrest)⟩
  · rintro ⟨hne, hw⟩
    obtain ⟨c, rest, rfl⟩ := List.exists_cons_of_ne_nil hne
    refine ⟨[c], ⟨c, ?_, rfl⟩, rest, mem_kstar_nonColon.mpr fun hrest => ?_, rfl⟩
    · rintro rfl
      exact hw List.mem_cons_self
    · exact hw (List.mem_cons_of_mem c hrest)

/-- What may follow the first two runs: nothing, or anything after a colon. -/
theorem mem_kstar_colon {w : List Char} :
    w ∈ (colon * nonColon∗)∗ ↔ ∀ c ∈ w.head?, c = ':' := by
  constructor
  · rintro ⟨pieces, rfl, hpieces⟩
    cases pieces with
    | nil => simp
    | cons piece pieces =>
      obtain ⟨_, rfl, rest, _, rfl⟩ := Language.mem_mul.mp (hpieces piece List.mem_cons_self)
      simp
  · intro hhead
    induction hn : w.length using Nat.strong_induction_on generalizing w with
    | _ n ih =>
      cases w with
      | nil => exact Language.nil_mem_kstar _
      | cons c w =>
        obtain rfl := hhead c rfl
        -- The run after this colon, and what starts with the next colon.
        have hrun : ':' :: w.takeWhile (· ≠ ':') ∈ colon * nonColon∗ := by
          refine Language.mem_mul.mpr ⟨[':'], rfl, _, mem_kstar_nonColon.mpr fun hmem => ?_, rfl⟩
          simpa using List.mem_takeWhile_imp hmem
        have hrest : w.dropWhile (· ≠ ':') ∈ (colon * nonColon∗)∗ := by
          refine ih _ ?_ (head_dropWhile_colon w) rfl
          have hle := (List.dropWhile_sublist (l := w) (· ≠ ':')).length_le
          rw [List.length_cons] at hn
          omega
        have hsplit : ':' :: w = ':' :: w.takeWhile (· ≠ ':') ++ w.dropWhile (· ≠ ':') := by simp
        rw [hsplit, ← Language.one_add_self_mul_kstar_eq_kstar]
        exact .inr (Language.append_mem_mul hrun hrest)

/-- The second run and all that follows it: any text that does not start with a colon. -/
theorem mem_run_kstar {w : List Char} :
    w ∈ run * (colon * nonColon∗)∗ ↔ w ≠ [] ∧ w.head? ≠ some ':' := by
  rw [Language.mem_mul]
  constructor
  · rintro ⟨function, hfunction, rest, _, rfl⟩
    obtain ⟨hne, hcolon⟩ := mem_run.mp hfunction
    obtain ⟨c, cs, rfl⟩ := List.exists_cons_of_ne_nil hne
    refine ⟨by simp, fun hhead => hcolon ?_⟩
    obtain rfl : c = ':' := by simpa using hhead
    exact List.mem_cons_self
  · rintro ⟨hne, hhead⟩
    obtain ⟨c, cs, rfl⟩ := List.exists_cons_of_ne_nil hne
    have hc : c ≠ ':' := by simpa using hhead
    refine ⟨(c :: cs).takeWhile (· ≠ ':'), mem_run.mpr ⟨by simp [hc], fun hmem => ?_⟩,
      (c :: cs).dropWhile (· ≠ ':'), mem_kstar_colon.mpr (head_dropWhile_colon _),
      List.takeWhile_append_dropWhile⟩
    simpa using List.mem_takeWhile_imp hmem

theorem mem_targetPattern {w : List Char} : w ∈ targetPattern ↔ isCallTarget w := by
  rw [targetPattern, mul_assoc, mul_assoc, Language.mem_mul, isCallTarget_iff]
  constructor
  · rintro ⟨contract, hcontract, _, htail, rfl⟩
    obtain ⟨_, rfl, rest, hrest, rfl⟩ := Language.mem_mul.mp htail
    exact ⟨contract, rest, rfl, mem_run.mp hcontract, mem_run_kstar.mp hrest⟩
  · rintro ⟨contract, rest, rfl, hcontract, hrest⟩
    exact ⟨contract, mem_run.mpr hcontract, _,
      Language.mem_mul.mpr ⟨[':'], rfl, rest, mem_run_kstar.mpr hrest, rfl⟩, rfl⟩

/-- The newline that a pattern leaves out at the end could as well belong to the last run. -/
theorem takes_targetPattern_iff {cs : List Char} : Takes targetPattern cs ↔ isCallTarget cs := by
  constructor
  · rintro ⟨w, hw, rfl | rfl⟩
    · exact mem_targetPattern.mp hw
    · obtain ⟨contract, rest, rfl, hcontract, hne, hhead⟩ :=
        isCallTarget_iff.mp (mem_targetPattern.mp hw)
      obtain ⟨c, rest, rfl⟩ := List.exists_cons_of_ne_nil hne
      exact isCallTarget_iff.mpr
        ⟨contract, c :: rest ++ ['\n'], by simp, hcontract, by simp, hhead⟩
  · intro h
    exact ⟨cs, mem_targetPattern.mpr h, .inl rfl⟩

end Pattern

end SolidityCalls.Artifact
