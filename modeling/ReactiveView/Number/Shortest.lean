import ReactiveView.Number.Binary64

/-!
# Shortest decimals

The decimal with the fewest digits that reads back as a given double-precision number.  The reals
that round to the number form an interval, whose ends belong to it when the significand is even.
Grids of 1, 2, … 17 digits are tried in turn; on each, only the two neighbours of the number can
be nearest to it, and the first grid with a neighbour inside the interval wins.
-/

namespace ReactiveView

/-- The decimal `digits · 10 ^ exponent`. -/
structure Decimal where
  digits : Nat
  exponent : Int
  deriving DecidableEq, Repr, Inhabited

namespace Binary64

/-! ## 1. The interval of reals that round to a number -/

/-- The reals that round to a positive number, in multiples of `2 ^ -1076`. -/
structure Rounding where
  low : Nat
  value : Nat
  high : Nat
  -- Whether the two ends round to the number as well.
  closed : Bool
  deriving DecidableEq, Repr

/-- The rounding interval reaches half way to the neighbours; below a power of two the next
    smaller number is only half as far away. -/
def rounding (x : Binary64) : Rounding where
  low := 4 * x.scaled - (if x.fraction = 0 ∧ 1 < x.exponent then x.ulp else 2 * x.ulp)
  value := 4 * x.scaled
  high := 4 * x.scaled + 2 * x.ulp
  closed := x.significand % 2 == 0

/-- Whether `n / d`, in multiples of `2 ^ -1076`, lies in the interval. -/
def Rounding.contains (r : Rounding) (n d : Nat) : Bool :=
  (r.low * d < n && n < r.high * d) || (r.closed && (n == r.low * d || n == r.high * d))

/-! ## 2. Grids -/

/-- The exponent of the leading decimal digit of a positive finite number. -/
def decade (x : Binary64) : Int :=
  if one ≤ x.scaled then decimalLength (x.scaled / one) - 1
  else -(decimalLength ((one - 1) / x.scaled) : Int)

/-- The multiple of `step / d` that is nearest to the value of the interval, of those that lie in it.
    A value half way between two such multiples goes up. -/
def Rounding.nearest? (r : Rounding) (step d : Nat) : Option Nat :=
  let below := r.value * d / step
  match r.contains (below * step) d, r.contains ((below + 1) * step) d with
  | true, true =>
    if 2 * (r.value * d) < (2 * below + 1) * step then some below else some (below + 1)
  | true, false => some below
  | false, true => some (below + 1)
  | false, false => none

/-- The multiple of `10 ^ k` that is nearest to the number, of those that round to it. -/
def onGrid? (x : Binary64) (k : Int) : Option Nat :=
  x.rounding.nearest? (Nat.pow 10 k.toNat * (4 * one)) (Nat.pow 10 (-k).toNat)

/-- The first hit on the grids of `n`, `n + 1`, … digits, at most `tries` of them, for a number whose
    leading digit stands for `10 ^ decade`. -/
def firstHit (grid : Int → Option Nat) (decade : Int) : (tries n : Nat) → Decimal
  | 0, _ => ⟨0, 0⟩
  | tries + 1, n =>
    let k := decade - (n : Int) + 1
    match grid k with
    | some digits => if digits % 10 = 0 then ⟨digits / 10, k + 1⟩ else ⟨digits, k⟩
    | none => firstHit grid decade tries (n + 1)

/-- The shortest decimal of the magnitude of a finite number, nearest to it among the shortest.
    Seventeen digits always suffice. -/
def shortest (x : Binary64) : Decimal :=
  if x.isZero then ⟨0, 0⟩ else firstHit x.onGrid? x.decade 17 1

end Binary64

end ReactiveView
