/-! How JSON is laid out: on one line without blanks, or indented by two blanks a level. -/
namespace SolidityCalls.Json

/-- The characters that may stand around values. -/
def isBlank (c : Char) : Bool := c == ' ' || c == '\t' || c == '\n' || c == '\r'

/-- The blanks before each part of an array or object, by the level of the part, and after the
colon of a field. -/
structure Layout where
  gap : Nat → List Char
  afterColon : List Char
  gap_blank : ∀ level, (gap level).all isBlank
  afterColon_blank : afterColon.all isBlank

namespace Layout

def oneLine : Layout where
  gap _ := []
  afterColon := []
  gap_blank _ := rfl
  afterColon_blank := rfl

def indented : Layout where
  gap level := '\n' :: List.replicate (2 * level) ' '
  afterColon := [' ']
  gap_blank level := by simp [isBlank]
  afterColon_blank := rfl

/-- The blanks before a closing bracket, none when there are no parts. -/
def closing {α : Type} (l : Layout) (level : Nat) (parts : List α) : List Char :=
  if parts.isEmpty then [] else l.gap level

end Layout

/-- The comma after a part that others follow. -/
def comma {α : Type} (others : List α) : List Char := if others.isEmpty then [] else [',']

end SolidityCalls.Json
