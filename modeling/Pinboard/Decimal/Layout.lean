import Pinboard.Decimal.Shortest

/-! How a decimal is laid out as text: where positional notation ends and how an exponent is written. -/

namespace Pinboard.Decimal

/-- The decisions of a number format. A decimal whose leading digit is worth `10 ^ k` is written
    positionally when `positionalFrom ≤ k < positionalBelow`, and with an exponent otherwise. -/
structure Layout where
  positionalFrom : Int
  positionalBelow : Int
  exponentMark : String
  positiveSign : String
  deriving DecidableEq, Repr

/-- Zeros, so many of them. -/
def zeros (n : Nat) : List Char := List.replicate n '0'

/-- The digits with the point after the first `whole` of them, filled up with zeros on either side. At least
    one digit stands before the point and one after it. -/
def positional (digits : List Char) (whole : Int) : List Char :=
  if whole ≤ 0 then '0' :: '.' :: zeros (-whole).toNat ++ digits
  else
    let n := whole.toNat
    if digits.length ≤ n then digits ++ zeros (n - digits.length) ++ ['.', '0']
    else digits.take n ++ '.' :: digits.drop n

/-- One digit before the point, the others after it, and no point when there are none. -/
def leading : List Char → List Char
  | [] => []
  | [d] => [d]
  | d :: rest => d :: '.' :: rest

/-- A decimal other than zero as text, without a sign. -/
def Layout.write (l : Layout) (d : Digits) : String :=
  let digits := Nat.toDigits 10 d.significand
  let k := d.exponent + digits.length - 1
  if l.positionalFrom ≤ k ∧ k < l.positionalBelow then String.ofList (positional digits (k + 1))
  else
    let sign := if k < 0 then "-" else l.positiveSign
    String.ofList (leading digits) ++ l.exponentMark ++ sign ++ Nat.repr k.natAbs

/-- A finite double as text. -/
def Layout.writeDouble (l : Layout) (bits : UInt64) : String :=
  let sign := if isNegative bits then "-" else ""
  if (magnitude bits).mantissa = 0 then sign ++ "0.0" else sign ++ l.write (shortest bits)

end Pinboard.Decimal
