import SolidityCalls.Ignore.Rule
import SolidityCalls.Proofs.Data.Outcome

/-! How ignore files fail: they are not well-formed texts, a line ends where a character is needed,
or a rule that is tried has a pattern that cannot be read. -/
namespace SolidityCalls

namespace Ignore
open Outcome

theorem failsOnly_classRegex (text : List Char) : FailsOnly .cutPattern (classRegex text) := by
  unfold classRegex
  split
  · exact .error
  · exact .ok _
  · exact .ok _
  · exact .ok _

theorem failsOnly_bodyRegex (cs : List Char) : FailsOnly .cutPattern (bodyRegex cs) := by
  fun_induction bodyRegex cs with
  | case1 => exact .ok _
  | case7 rest text rest' _ ih => exact (failsOnly_classRegex text).bind fun head => ih.map _
  | case2 _ ih | case3 _ _ ih | case4 _ _ _ ih | case5 _ ih | case6 _ ih | case8 _ _ ih
  | case9 _ _ _ _ _ _ _ _ ih => exact ih.map _

/-- A pattern fails only where it ends before a character that is needed. -/
theorem failsOnly_ruleOf (negated : Bool) (pattern : List Char) :
    FailsOnly .cutPattern (ruleOf negated pattern) := by
  have hslash (cs : List Char) : FailsOnly .cutPattern (dropSlash cs) := by
    unfold dropSlash
    split
    · exact .error
    · exact .ok _
    · exact .ok _
  have hstars (anchored : Bool) (cs : List Char) :
      FailsOnly .cutPattern (dropStars anchored cs) := by
    unfold dropStars
    split
    · exact .error
    · exact .ok _
    · exact .ok _
  have hlast (cs : List Char) : FailsOnly .cutPattern (dropLastSlash cs) := by
    unfold dropLastSlash
    split
    · exact .error
    · exact .ok _
  have hstart (cs : List Char) : FailsOnly .cutPattern (unescapeStart cs) := by
    unfold unescapeStart
    split
    · exact .error
    · exact .error
    · exact .ok _
    · exact .ok _
  unfold ruleOf
  dsimp only
  split
  · exact .ok _
  · split
    · exact .error
    · refine (hslash _).bind fun cs => (hstars _ cs).bind fun ⟨anchored, cs⟩ => ?_
      refine (hslash cs).bind fun cs => (hlast cs).bind fun cs => (hstart cs).bind fun cs => ?_
      exact (failsOnly_bodyRegex _).bind fun body => .ok _

theorem failsOnly_ruleOfLine (line : List Char) : FailsOnly .cutPattern (ruleOfLine line) := by
  unfold ruleOfLine
  split
  · exact .ok _
  · split
    · exact failsOnly_ruleOf true _
    · exact failsOnly_ruleOf false _

/-- The bytes of an ignore file have no rules: they are no text, or one of its lines is cut. -/
inductive IsFaulty (bytes : Bytes) : Failure → Prop where
  | undecodable : Utf8.decode? bytes = none → IsFaulty bytes .undecodable
  | cutPattern {text : String} {line : List Char} : Utf8.decode? bytes = some text →
      line ∈ linesOf text.toList → ruleOfLine line = .error .cutPattern →
      IsFaulty bytes .cutPattern

theorem isFaulty_of_rulesOf_error {bytes : Bytes} {e : Failure} (h : rulesOf bytes = .error e) :
    IsFaulty bytes e := by
  unfold rulesOf at h
  split at h
  next hdecode =>
    obtain rfl := Except.error.inj h
    exact .undecodable hdecode
  next text hdecode =>
    rcases exists_of_bind_error h with h | ⟨_, _, h⟩
    · obtain ⟨line, hline, hrule⟩ := exists_of_mapM_error h
      obtain rfl := failsOnly_ruleOfLine line e hrule
      exact .cutPattern hdecode hline hrule
    · cases h

theorem not_isFaulty_of_rulesOf {bytes : Bytes} {rules : List Rule} {e : Failure}
    (h : rulesOf bytes = .ok rules) : ¬ IsFaulty bytes e := by
  unfold rulesOf at h
  rintro (hdecode | ⟨hdecode, hline, hrule⟩)
  · rw [hdecode] at h
    cases h
  · rw [hdecode] at h
    obtain ⟨_, hlines, _⟩ := exists_of_bind_ok h
    obtain ⟨_, _, hok⟩ := exists_ok_of_mapM hlines hline
    cases hrule.symm.trans hok

theorem failsOnly_ignores (rules : List Rule) (path : String) :
    FailsOnly .badPattern (ignores rules path) := by
  have hmatches (r : Rule) : FailsOnly .badPattern (r.matches path) := by
    unfold Rule.matches
    split
    · exact .ok _
    · exact .error
  have hany (rules : List Rule) : FailsOnly .badPattern (anyMatch path rules) := by
    induction rules with
    | nil => exact .ok _
    | cons r rules ih =>
      refine (hmatches r).bind fun found => ?_
      cases found
      · exact ih
      · exact .ok _
  have hlast (rules : List Rule) : FailsOnly .badPattern (lastMatch path rules) := by
    induction rules with
    | nil => exact .ok _
    | cons r rules ih =>
      refine (hmatches r).bind fun found => ?_
      cases found
      · exact ih
      · exact .ok _
  unfold ignores
  split
  · exact hlast _
  · exact hany _

end Ignore
end SolidityCalls
