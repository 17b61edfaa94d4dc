/-! Finite double-precision numbers as their 64 bits: sign, magnitude as a whole number times a power of two,
    and how a decimal significand with a power of ten becomes one. -/

namespace Pinboard.Decimal

/-- A non-negative number `mantissa * 2 ^ exponent`. -/
structure Binary where
  mantissa : Nat
  exponent : Int
  deriving DecidableEq, Repr

/-- The bits of the mantissa field. -/
def mantissaField (bits : UInt64) : Nat := bits.toNat % Nat.pow 2 52

/-- The bits of the exponent field. -/
def exponentField (bits : UInt64) : Nat := bits.toNat / Nat.pow 2 52 % Nat.pow 2 11

/-- The sign bit is set. -/
def isNegative (bits : UInt64) : Bool := bits.toNat / Nat.pow 2 63 = 1

/-- The exponent field is the one of infinities and of what is not a number. -/
def isFinite (bits : UInt64) : Bool := exponentField bits ≠ 2047

/-- The magnitude of a finite double. -/
def magnitude (bits : UInt64) : Binary :=
  if exponentField bits = 0 then ⟨mantissaField bits, -1074⟩
  else ⟨Nat.pow 2 52 + mantissaField bits, exponentField bits - 1075⟩

/-- The double zero, with its sign. -/
def zeroBits (negative : Bool) : UInt64 := if negative then 0x8000000000000000 else 0

/-- The bits of a magnitude with a sign put on. -/
def signed (negative : Bool) (x : Float) : UInt64 := if negative then (-x).toBits else x.toBits

/-- Divides by `10 ^ 308` until the power that is left fits in one division. Three divisions take any
    64-bit significand to zero, so four steps are enough. -/
def scaleDown : Nat → Float → Int → Float × Int
  | 0, x, k => (x, k)
  | steps + 1, x, k =>
    if -308 ≤ k ∨ x == 0.0 then (x, k)
    else scaleDown steps (x / Float.ofScientific 1 false 308) (k + 308)

/-- The double of `significand * 10 ^ exponent`: the significand is rounded, and then multiplied or divided by
    the rounded power of ten with one more rounding. It is `none` beyond the largest double. -/
def toDouble? (negative : Bool) (significand : Nat) (exponent : Int) : Option UInt64 :=
  let x := significand.toUInt64.toFloat
  if exponent < 0 then
    let (y, k) := scaleDown 4 x exponent
    if y == 0.0 then some (zeroBits negative)
    else some (signed negative (y / Float.ofScientific 1 false (-k).toNat))
  else if x == 0.0 then some (zeroBits negative)
  else if 308 < exponent then none
  else
    let y := x * Float.ofScientific 1 false exponent.toNat
    if isFinite y.toBits then some (signed negative y) else none

end Pinboard.Decimal
