/-! UTF-8: writing text as bytes, reading bytes strictly, and reading them with every ill-formed
byte left out. -/
namespace SolidityCalls

abbrev Bytes := List UInt8

namespace Utf8

def encode (s : String) : Bytes := s.toList.flatMap String.utf8EncodeChar

/-- The six payload bits of a continuation byte. -/
def tail? (b : UInt8) : Option Nat :=
  if 0x80 ≤ b.toNat ∧ b.toNat < 0xC0 then some (b.toNat - 0x80) else none

/-- The scalar value `v`, unless a shorter form encodes it or it is no scalar value. -/
def scalar? (least v : Nat) : Option Char :=
  if least ≤ v ∧ v.isValidChar then some (Char.ofNat v) else none

/-- The character that starts at `b`, with the number of bytes of `bs` it takes. -/
def charAt? (b : UInt8) (bs : Bytes) : Option (Char × Nat) :=
  let lead := b.toNat
  if lead < 0x80 then some (Char.ofNat lead, 0)
  else if lead < 0xC0 then none
  else if lead < 0xE0 then
    match bs with
    | b₁ :: _ => do
      let x ← tail? b₁
      let c ← scalar? 0x80 ((lead - 0xC0) * 64 + x)
      some (c, 1)
    | _ => none
  else if lead < 0xF0 then
    match bs with
    | b₁ :: b₂ :: _ => do
      let x ← tail? b₁
      let y ← tail? b₂
      let c ← scalar? 0x800 (((lead - 0xE0) * 64 + x) * 64 + y)
      some (c, 2)
    | _ => none
  else if lead < 0xF8 then
    match bs with
    | b₁ :: b₂ :: b₃ :: _ => do
      let x ← tail? b₁
      let y ← tail? b₂
      let z ← tail? b₃
      let c ← scalar? 0x10000 ((((lead - 0xF0) * 64 + x) * 64 + y) * 64 + z)
      some (c, 3)
    | _ => none
  else none

/-- The characters of a well-formed byte sequence. -/
def chars? : Bytes → Option (List Char)
  | [] => some []
  | b :: bs =>
    match charAt? b bs with
    | some (c, n) => (chars? (bs.drop n)).map (c :: ·)
    | none => none
termination_by bs => bs.length
decreasing_by simp only [List.length_drop, List.length_cons]; omega

def decode? (bs : Bytes) : Option String := (chars? bs).map String.ofList

/-- The characters of the well-formed parts, in order; a byte that starts no character is
skipped. -/
def charsLossy : Bytes → List Char
  | [] => []
  | b :: bs =>
    match charAt? b bs with
    | some (c, n) => c :: charsLossy (bs.drop n)
    | none => charsLossy bs
termination_by bs => bs.length
decreasing_by
  · simp only [List.length_drop, List.length_cons]; omega
  · simp

def decodeLossy (bs : Bytes) : String := String.ofList (charsLossy bs)

end Utf8
end SolidityCalls
