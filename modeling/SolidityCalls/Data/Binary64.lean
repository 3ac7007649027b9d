/-! Binary floating point numbers of 64 bits, as far as reading data needs them: rounding of
decimals to the nearest number, and which numbers are integers. -/
namespace SolidityCalls

/-- A finite number is `mantissa * 2 ^ exponent` with a sign. -/
inductive Binary64 where
  | finite (negative : Bool) (mantissa : Nat) (exponent : Int)
  | infinite (negative : Bool)
  | nan
  deriving DecidableEq, Repr

namespace Binary64

/-- `num / den` rounded to the nearest integer, a half to the even one. -/
def roundDiv (num den : Nat) : Nat :=
  let q := num / den
  let r := num % den
  if 2 * r < den then q
  else if den < 2 * r then q + 1
  else if q % 2 = 0 then q else q + 1

/-- `num * 2 ^ shift / den` as a fraction of natural numbers. -/
def shifted (num den : Nat) (shift : Int) : Nat × Nat :=
  if 0 ≤ shift then (num * Nat.pow 2 shift.toNat, den)
  else (num, den * Nat.pow 2 (-shift).toNat)

/-- The largest `k` with `2 ^ k ≤ num / den`, for positive numbers. -/
def logRatio (num den : Nat) : Int :=
  let k : Int := (num.log2 : Int) - (den.log2 : Int)
  let (n, d) := shifted num den (-k)
  if d ≤ n then k else k - 1

/-- The number nearest to `num / den`: 53 bits of precision, exponents from `-1074`. -/
def ofRatio (negative : Bool) (num den : Nat) : Binary64 :=
  let e := max (logRatio num den - 52) (-1074)
  let (n, d) := shifted num den (-e)
  let m := roundDiv n d
  if 971 < e ∨ (e = 971 ∧ Nat.pow 2 53 ≤ m) then .infinite negative else .finite negative m e

/-- The number nearest to `digits * 10 ^ exponent`. -/
def ofDecimal (negative : Bool) (digits : Nat) (exponent : Int) : Binary64 :=
  let width : Int := (Nat.toDigits 10 digits).length
  if digits = 0 ∨ width + exponent < -330 then .finite negative 0 0
  else if 330 < width + exponent then .infinite negative
  else if 0 ≤ exponent then ofRatio negative (digits * Nat.pow 10 exponent.toNat) 1
  else ofRatio negative digits (Nat.pow 10 (-exponent).toNat)

/-- The integer that a number is, if it is one. -/
def toInt? : Binary64 → Option Int
  | .finite negative mantissa exponent =>
    let value : Option Nat :=
      if 0 ≤ exponent then some (mantissa * Nat.pow 2 exponent.toNat)
      else
        let d := Nat.pow 2 (-exponent).toNat
        if mantissa % d = 0 then some (mantissa / d) else none
    value.map fun (n : Nat) => if negative then -(n : Int) else (n : Int)
  | _ => none

end Binary64
end SolidityCalls
