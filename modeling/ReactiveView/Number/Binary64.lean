/-!
# Double-precision numbers

Numbers in the IEEE 754 format `binary64`, given by their 64 bits.  The magnitude of a finite
number is a natural multiple of the least positive one, `2 ^ -1074`; comparison, rounding and
addition are exact arithmetic on these multiples, so nothing here depends on the machine.
-/

namespace ReactiveView

/-- A number in the format `binary64`. -/
structure Binary64 where
  bits : UInt64
  deriving DecidableEq, Repr, Inhabited

namespace Binary64

/-! ## 1. Fields of the format -/

/-- The 64 bits as a natural number. -/
def word (x : Binary64) : Nat := x.bits.toNat

/-- Whether the sign bit is set; it is on negative zero too. -/
def isNegative (x : Binary64) : Bool := Nat.pow 2 63 ≤ x.word

/-- The biased exponent, below 2048. -/
def exponent (x : Binary64) : Nat := x.word / Nat.pow 2 52 % 2048

/-- The 52 bits of the fraction. -/
def fraction (x : Binary64) : Nat := x.word % Nat.pow 2 52

def isNaN (x : Binary64) : Bool := x.exponent == 2047 && x.fraction != 0

def isInfinite (x : Binary64) : Bool := x.exponent == 2047 && x.fraction == 0

def isFinite (x : Binary64) : Bool := x.exponent != 2047

/-- Whether the number is zero, of either sign. -/
def isZero (x : Binary64) : Bool := x.exponent == 0 && x.fraction == 0

/-! ## 2. The value of a finite number -/

/-- The significand, with the leading bit that normal numbers leave out. -/
def significand (x : Binary64) : Nat :=
  if x.exponent = 0 then x.fraction else Nat.pow 2 52 + x.fraction

/-- The distance to the next larger magnitude, in multiples of `2 ^ -1074`. -/
def ulp (x : Binary64) : Nat := Nat.pow 2 (x.exponent - 1)

/-- The magnitude in multiples of `2 ^ -1074`. -/
def scaled (x : Binary64) : Nat := x.significand * x.ulp

/-- The finite value in multiples of `2 ^ -1074`. -/
def signedScaled (x : Binary64) : Int :=
  if x.isNegative then -(x.scaled : Int) else x.scaled

/-- How many multiples of `2 ^ -1074` make 1.  Irreducible, as no proof should unfold it by accident. -/
@[irreducible]
def one : Nat := Nat.pow 2 1074

/-- The magnitude as a natural number, if it is one. -/
def magnitude? (x : Binary64) : Option Nat :=
  if x.isFinite && x.scaled % one == 0 then some (x.scaled / one) else none

/-! ## 3. Comparison -/

/-- Equality of numbers: a NaN equals nothing, and the two zeros are equal. -/
def equal (x y : Binary64) : Bool :=
  !x.isNaN && !y.isNaN && (x.bits == y.bits || (x.isZero && y.isZero))

/-! ## 4. Building and rounding -/

/-- The number with these 64 bits; higher bits are dropped. -/
def ofWord (n : Nat) : Binary64 := ⟨UInt64.ofNat n⟩

/-- The bit of a sign. -/
def signWord (negative : Bool) : Nat := if negative then Nat.pow 2 63 else 0

def nan : Binary64 := ofWord (2047 * Nat.pow 2 52 + Nat.pow 2 51)

def infinity (negative : Bool) : Binary64 := ofWord (signWord negative + 2047 * Nat.pow 2 52)

def zero (negative : Bool) : Binary64 := ofWord (signWord negative)

/-- `n / d` rounded to the nearest natural number, a half going to the even neighbour. -/
def roundHalfEven (n d : Nat) : Nat :=
  let q := n / d
  let r := n % d
  if 2 * r < d then q else if d < 2 * r then q + 1 else q + q % 2

/-- The number nearest to `± n / d`, of two the one with the even significand; from half a unit
    above the greatest finite number on it is infinite. -/
def round (negative : Bool) (n d : Nat) : Binary64 :=
  let m := n * one
  let p := (m / d).log2 - 52
  let magnitude := p * Nat.pow 2 52 + roundHalfEven m (d * Nat.pow 2 p)
  ofWord (signWord negative + min magnitude (2047 * Nat.pow 2 52))

/-- The number nearest to an integer; zero is positive. -/
def ofInt (i : Int) : Binary64 := round (i < 0) i.natAbs 1

/-- How many decimal digits `n` has; none for zero. -/
def decimalLength (n : Nat) : Nat :=
  if n = 0 then 0 else (Nat.toDigits 10 n).length

/-- The number nearest to `± digits · 10 ^ exponent`.  Beyond the range of the format the powers
    are not computed: from `10 ^ 310` on the result is infinite, below `10 ^ -330` zero. -/
def ofDecimal (negative : Bool) (digits : Nat) (exponent : Int) : Binary64 :=
  if digits = 0 then zero negative
  else if 310 < exponent + decimalLength digits then infinity negative
  else if exponent + decimalLength digits < -330 then zero negative
  else round negative (digits * Nat.pow 10 exponent.toNat) (Nat.pow 10 (-exponent).toNat)

/-! ## 5. Addition -/

/-- The sum, correctly rounded.  Opposite infinities have no sum, an exact zero is positive
    unless both operands are negative zeros. -/
def add (x y : Binary64) : Binary64 :=
  if x.isNaN || y.isNaN then nan
  else if x.isInfinite then
    if y.isInfinite && x.isNegative != y.isNegative then nan else x
  else if y.isInfinite then y
  else
    let s := x.signedScaled + y.signedScaled
    if s = 0 then zero (x.isNegative && y.isNegative) else round (s < 0) s.natAbs one

end Binary64

end ReactiveView
