import Pinboard.Decimal.Double

/-! The shortest decimal that reads back as a given double. A double stands for all reals that round to it,
    an interval around its value whose ends belong to it when its mantissa is even. Of the decimals in the
    interval one with the fewest digits is taken, and of those the one nearest to the value. -/

namespace Pinboard.Decimal

/-- The decimal `significand * 10 ^ exponent`. -/
structure Digits where
  significand : Nat
  exponent : Int
  deriving DecidableEq, Repr

/-- A positive number as a fraction, with the distances to the two ends of the reals that round to it, all
    over one denominator. -/
structure Neighbourhood where
  value : Nat
  below : Nat
  above : Nat
  denominator : Nat
  closed : Bool
  deriving DecidableEq, Repr

/-- The reals that round to a positive double. Below a power of two the doubles lie twice as close, except
    for the smallest powers (`evenBelow`). -/
def neighbourhood (x : Binary) (evenBelow : Bool) : Neighbourhood :=
  let up := Nat.pow 2 x.exponent.toNat
  let down := Nat.pow 2 (-x.exponent).toNat
  let narrow := x.mantissa = Nat.pow 2 52 ∧ ¬ evenBelow
  { value := 4 * x.mantissa * up
    below := if narrow then up else 2 * up
    above := 2 * up
    denominator := 4 * down
    closed := x.mantissa % 2 = 0 }

/-- The candidate `c * num / den` rounds to the double. -/
def Neighbourhood.contains (n : Neighbourhood) (num den c : Nat) : Bool :=
  let here := c * num * n.denominator
  let value := n.value * den
  if here ≤ value then
    if n.closed then value - here ≤ n.below * den else value - here < n.below * den
  else
    if n.closed then here - value ≤ n.above * den else here - value < n.above * den

/-- The point of the grid of step `num / den` that is nearest to the value and rounds to the double. Only the
    two neighbours of the value can be it; of two equally near the even one is taken. -/
def Neighbourhood.nearestOn? (n : Neighbourhood) (num den : Nat) : Option Nat :=
  let value := n.value * den
  let c := value / (num * n.denominator)
  let low := n.contains num den c
  let high := n.contains num den (c + 1)
  let toLow := value - c * num * n.denominator
  let toHigh := (c + 1) * num * n.denominator - value
  if low && high then
    if toLow < toHigh then some c
    else if toHigh < toLow then some (c + 1)
    else if c % 2 = 0 then some c else some (c + 1)
  else if low then some c
  else if high then some (c + 1)
  else none

/-- The least power of ten above the value, `steps` tries up from `point`. -/
def Neighbourhood.pointFrom (n : Neighbourhood) : Nat → Int → Int
  | 0, point => point
  | steps + 1, point =>
    if n.value * Nat.pow 10 (-point).toNat < Nat.pow 10 point.toNat * n.denominator then point
    else n.pointFrom steps (point + 1)

/-- Tries `count` digits, then one more, and so on, for a value between a tenth of `10 ^ point` and
    `10 ^ point`. -/
def Neighbourhood.shortestFrom (n : Neighbourhood) (point : Int) : Nat → Nat → Option Digits
  | 0, _ => none
  | tries + 1, count =>
    let step := point - count
    match n.nearestOn? (Nat.pow 10 step.toNat) (Nat.pow 10 (-step).toNat) with
    | some c => some ⟨c, step⟩
    | none => n.shortestFrom point tries (count + 1)

/-- The same decimal with no zero at the end of its significand; `steps` bounds the zeros. -/
def Digits.trim : Nat → Digits → Digits
  | 0, d => d
  | steps + 1, d =>
    if d.significand % 10 = 0 ∧ d.significand ≠ 0 then Digits.trim steps ⟨d.significand / 10, d.exponent + 1⟩
    else d

/-- The shortest decimal of a finite double other than zero. Seventeen digits always suffice. The search for
    the power of ten above the value starts from its binary logarithm, a little low. -/
def shortest (bits : UInt64) : Digits :=
  let x := magnitude bits
  let n := neighbourhood x (exponentField bits ≤ 1)
  let point := n.pointFrom 8 ((x.exponent + (Nat.log2 x.mantissa : Int)) * 30103 / 100000 - 1)
  ((n.shortestFrom point 17 1).getD ⟨0, 0⟩).trim 20

end Pinboard.Decimal
