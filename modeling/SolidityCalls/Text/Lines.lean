import SolidityCalls.Text.Utf8

/-! Lines of bytes. A newline, a carriage return, or both in this order end a line. -/
namespace SolidityCalls.Text

def newline : UInt8 := 10
def carriageReturn : UInt8 := 13

/-- The lines of a file; nothing after the last line end is no line. -/
def lines : Bytes → List Bytes
  | [] => []
  | b :: rest =>
    if b = newline then [] :: lines rest
    else if b = carriageReturn then
      match rest with
      | 10 :: rest => [] :: lines rest
      | rest => [] :: lines rest
    else
      match lines rest with
      | [] => [[b]]
      | line :: others => (b :: line) :: others

/-- The bytes of the blanks that ASCII has. -/
def isBlankByte (b : UInt8) : Bool := b = 32 || (9 ≤ b && b ≤ 13)

def stripBytes (bs : Bytes) : Bytes :=
  ((bs.dropWhile isBlankByte).reverse.dropWhile isBlankByte).reverse

end SolidityCalls.Text
