import Mathlib.Algebra.Order.Field.Power
import Mathlib.Data.Rat.Cast.Order
import Mathlib.Order.Monotone.Basic
import Mathlib.Tactic.FieldSimp
import Mathlib.Tactic.Linarith
import Mathlib.Tactic.NormNum
import Mathlib.Tactic.Positivity
import Mathlib.Tactic.Ring
import ReactiveView.Number.Shortest

/-!
# The rationals that round to a number

The value of a number is read off its bits as IEEE 754 has it, and a rational rounds to the nearest
number, of two to the one whose last bit is clear.  Magnitudes grow with the bits below the sign, by
one unit in the last place at a time, so that a rational only has to be compared with the two
neighbours of a number: those that round to it lie in the interval that `rounding` computes.
-/

namespace ReactiveView

namespace Binary64

/-! ## 1. Values -/

/-- One or minus one. -/
def sign (x : Binary64) : ℚ :=
  if x.isNegative then -1 else 1

/-- The value of a finite number.  An infinity counts as the power of two behind the greatest
    finite number, as it does in rounding. -/
def toRat (x : Binary64) : ℚ :=
  x.sign *
    if x.exponent = 0 then (x.fraction / 2 ^ 52 : ℚ) * 2 ^ (-1022 : ℤ)
    else (1 + x.fraction / 2 ^ 52 : ℚ) * 2 ^ ((x.exponent : ℤ) - 1023)

/-- The value without its sign. -/
def magnitude (x : Binary64) : ℚ := |x.toRat|

/-- `a` is nearer to `q` than `b`, or as near and then either the same or preferred. -/
def Nearer (preferred : Prop) (q a b : ℚ) : Prop :=
  |q - a| < |q - b| ∨ |q - a| = |q - b| ∧ (a = b ∨ preferred)

/-- The rational `q` rounds to `x`: no number is nearer, and one that is as near only gives way to
    `x` if the last bit of `x` is clear. -/
def RoundsTo (q : ℚ) (x : Binary64) : Prop :=
  x.isFinite = true ∧
    ∀ y : Binary64, y.isNaN = false → Nearer (x.fraction % 2 = 0) q x.toRat y.toRat

theorem sign_mul_self (x : Binary64) : x.sign * x.sign = 1 := by
  unfold sign
  split <;> norm_num

theorem cast_pow_two (n : ℕ) : ((Nat.pow 2 n : ℕ) : ℚ) = 2 ^ (n : ℤ) := by
  rw [zpow_natCast]
  exact Nat.cast_pow 2 n

theorem cast_one : (one : ℚ) = 2 ^ ((1074 : ℕ) : ℤ) := by
  obtain ⟨n, hn, hone⟩ : ∃ n, n = 1074 ∧ one = Nat.pow 2 n := ⟨1074, rfl, by unfold one; rfl⟩
  rw [hone, cast_pow_two, hn]

theorem one_pos : (0 : ℚ) < one := by
  rw [cast_one]
  exact zpow_pos two_pos _

theorem toRat_eq (x : Binary64) : x.toRat = x.sign * (x.scaled / one) := by
  have hunit : ∀ a : ℤ, (2 : ℚ) ^ a = 2 ^ (a + (1074 : ℕ)) / one := fun a => by
    rw [cast_one, zpow_add₀ two_ne_zero, mul_div_cancel_right₀ _ (zpow_ne_zero _ two_ne_zero)]
  unfold toRat scaled significand ulp
  rw [Nat.cast_mul, cast_pow_two]
  congr 1
  split
  · rename_i hzero
    rw [hzero, hunit]
    norm_num
    ring
  · rename_i hnormal
    have hexponent : (x.exponent : ℤ) - 1023 + (1074 : ℕ) = 52 + (x.exponent - 1 : ℕ) := by omega
    rw [hunit, hexponent, zpow_add₀ two_ne_zero, Nat.cast_add,
      show ((Nat.pow 2 52 : ℕ) : ℚ) = 2 ^ (52 : ℤ) from cast_pow_two 52]
    field_simp

theorem magnitude_eq (x : Binary64) : x.magnitude = x.scaled / one := by
  have hsign : |x.sign| = 1 := by
    unfold sign
    split <;> norm_num
  rw [magnitude, toRat_eq, abs_mul, hsign, one_mul]
  exact abs_of_nonneg (div_nonneg (Nat.cast_nonneg _) one_pos.le)

theorem scaled_eq_mul (x : Binary64) : (x.scaled : ℚ) = x.magnitude * one := by
  rw [magnitude_eq, div_mul_cancel₀ _ one_pos.ne']

/-! ## 2. The order of the magnitudes -/

/-- The bits below the sign. -/
def low (x : Binary64) : ℕ := x.word % 2 ^ 63

/-- The distance, in multiples of `2 ^ -1074`, from the magnitude with the bits `w` to the next. -/
def ulpAt (w : ℕ) : ℕ := 2 ^ (w / 2 ^ 52 - 1)

/-- The magnitude with the bits `w`, in multiples of `2 ^ -1074`. -/
def scaledAt (w : ℕ) : ℕ :=
  (if w / 2 ^ 52 = 0 then w % 2 ^ 52 else 2 ^ 52 + w % 2 ^ 52) * ulpAt w

theorem scaledAt_succ (w : ℕ) : scaledAt (w + 1) = scaledAt w + ulpAt w := by
  unfold scaledAt ulpAt
  rcases Nat.lt_or_ge (w % 2 ^ 52 + 1) (2 ^ 52) with hroom | hfull
  · have hexponent : (w + 1) / 2 ^ 52 = w / 2 ^ 52 := by omega
    have hfraction : (w + 1) % 2 ^ 52 = w % 2 ^ 52 + 1 := by omega
    rw [hexponent, hfraction]
    split <;> ring
  · -- the fraction is full, so that the exponent grows
    have hexponent : (w + 1) / 2 ^ 52 = w / 2 ^ 52 + 1 := by omega
    have hfraction : (w + 1) % 2 ^ 52 = 0 := by omega
    have hmax : w % 2 ^ 52 = 2 ^ 52 - 1 := by omega
    rw [hexponent, hfraction, hmax, if_neg (Nat.succ_ne_zero _), Nat.add_sub_cancel]
    cases w / 2 ^ 52 with
    | zero => rfl
    | succ e =>
      rw [if_neg (Nat.succ_ne_zero _), Nat.add_sub_cancel, pow_succ]
      ring

theorem strictMono_scaledAt : StrictMono scaledAt :=
  strictMono_nat_of_lt_succ fun w => by
    rw [scaledAt_succ]
    exact Nat.lt_add_of_pos_right (Nat.pow_pos two_pos)

theorem exponent_eq (x : Binary64) : x.exponent = x.low / 2 ^ 52 := by
  show x.word / 2 ^ 52 % 2048 = x.word % 2 ^ 63 / 2 ^ 52
  omega

theorem fraction_eq (x : Binary64) : x.fraction = x.low % 2 ^ 52 := by
  show x.word % 2 ^ 52 = x.word % 2 ^ 63 % 2 ^ 52
  omega

theorem ulp_eq (x : Binary64) : x.ulp = ulpAt x.low := by
  rw [ulp, exponent_eq, ulpAt]
  rfl

theorem scaled_eq (x : Binary64) : x.scaled = scaledAt x.low := by
  rw [scaled, significand, ulp_eq, exponent_eq, fraction_eq, scaledAt]
  rfl

theorem isFinite_iff {x : Binary64} : x.isFinite = true ↔ x.low < 2047 * 2 ^ 52 := by
  have hlow : x.low < 2 ^ 63 := Nat.mod_lt _ (by decide)
  rw [isFinite, bne_iff_ne, exponent_eq]
  omega

theorem isZero_iff {x : Binary64} : x.isZero = true ↔ x.low = 0 := by
  rw [isZero, Bool.and_eq_true, beq_iff_eq, beq_iff_eq, exponent_eq, fraction_eq]
  omega

theorem isNaN_eq_false_iff {x : Binary64} : x.isNaN = false ↔ x.low ≤ 2047 * 2 ^ 52 := by
  have hlow : x.low < 2 ^ 63 := Nat.mod_lt _ (by decide)
  rw [isNaN, Bool.and_eq_false_iff, beq_eq_false_iff_ne, bne_eq_false_iff_eq, exponent_eq, fraction_eq]
  omega

/-- Every magnitude comes with every sign. -/
theorem exists_low (x : Binary64) {w : ℕ} (h : w < 2 ^ 63) :
    ∃ y : Binary64, y.isNegative = x.isNegative ∧ y.low = w := by
  have hsign : signWord x.isNegative = if x.isNegative then 2 ^ 63 else 0 := rfl
  have hword : (ofWord (signWord x.isNegative + w)).word = signWord x.isNegative + w := by
    refine UInt64.toNat_ofNat_of_lt' ?_
    show _ < 2 ^ 64
    rw [hsign]
    split <;> omega
  refine ⟨ofWord (signWord x.isNegative + w), ?_, ?_⟩
  · rw [isNegative, hword, hsign]
    show decide (2 ^ 63 ≤ _) = _
    cases x.isNegative
    · simp
      omega
    · simp
  · rw [low, hword, hsign]
    cases x.isNegative
    · simp
      omega
    · simp
      omega

/-- Twice the distance to the next smaller magnitude. -/
def slack (x : Binary64) : ℕ :=
  if x.fraction = 0 ∧ 1 < x.exponent then x.ulp else 2 * x.ulp

theorem slack_eq {x : Binary64} {w : ℕ} (h : x.low = w + 1) : x.slack = 2 * ulpAt w := by
  rw [slack, ulp_eq, exponent_eq, fraction_eq, h, ulpAt, ulpAt]
  split
  · rename_i hpower
    have hexponent : (w + 1) / 2 ^ 52 - 1 = w / 2 ^ 52 - 1 + 1 := by omega
    rw [hexponent, pow_succ, Nat.mul_comm]
  · rename_i hother
    have hexponent : (w + 1) / 2 ^ 52 - 1 = w / 2 ^ 52 - 1 := by omega
    rw [hexponent]

/-- The magnitudes next to that of `x`. -/
theorem scaledAt_apart (x : Binary64) (w : ℕ) :
    w = x.low ∨ scaledAt x.low + x.ulp ≤ scaledAt w ∨
      2 * scaledAt w + x.slack ≤ 2 * scaledAt x.low := by
  rcases Nat.lt_trichotomy w x.low with hlt | heq | hgt
  · obtain ⟨v, hv⟩ : ∃ v, x.low = v + 1 := ⟨x.low - 1, by omega⟩
    have hle : scaledAt w ≤ scaledAt v := strictMono_scaledAt.monotone (by omega)
    rw [slack_eq hv, hv, scaledAt_succ]
    omega
  · exact .inl heq
  · have hle : scaledAt (x.low + 1) ≤ scaledAt w := strictMono_scaledAt.monotone hgt
    rw [scaledAt_succ] at hle
    rw [ulp_eq]
    exact .inr (.inl hle)

/-! ## 3. The interval -/

section Nearer

variable {preferred : Prop} {q a b : ℚ}

theorem nearer_of_gt (h : a < b) :
    Nearer preferred q a b ↔ 2 * q < a + b ∨ 2 * q = a + b ∧ preferred := by
  have hlt : |q - a| < |q - b| ↔ 2 * q < a + b := by
    rw [← sq_lt_sq]
    constructor <;> intro h' <;> nlinarith
  have heq : |q - a| = |q - b| ↔ 2 * q = a + b := by
    rw [← sq_eq_sq_iff_abs_eq_abs]
    constructor
    · intro h'
      have hprod : (b - a) * (2 * q - (a + b)) = 0 := by linarith
      rcases mul_eq_zero.1 hprod with h0 | h0 <;> linarith
    · intro h'
      have hq : q = (a + b) / 2 := by linarith
      rw [hq]
      ring
  rw [Nearer, hlt, heq, or_iff_right h.ne]

theorem nearer_of_lt (h : b < a) :
    Nearer preferred q a b ↔ a + b < 2 * q ∨ 2 * q = a + b ∧ preferred := by
  have hneg : Nearer preferred q a b ↔ Nearer preferred (-q) (-a) (-b) := by
    rw [Nearer, Nearer, neg_sub_neg, neg_sub_neg, abs_sub_comm a, abs_sub_comm b, neg_inj]
  rw [hneg, nearer_of_gt (neg_lt_neg h)]
  constructor <;> rintro (h' | ⟨h', hp⟩)
  · exact .inl (by linarith)
  · exact .inr ⟨by linarith, hp⟩
  · exact .inl (by linarith)
  · exact .inr ⟨by linarith, hp⟩

theorem nearer_mul {c : ℚ} (hc : c ≠ 0) :
    Nearer preferred (c * q) (c * a) (c * b) ↔ Nearer preferred q a b := by
  have habs : 0 < |c| := abs_pos.2 hc
  rw [Nearer, Nearer, ← mul_sub, ← mul_sub, abs_mul, abs_mul, mul_lt_mul_iff_right₀ habs,
    mul_right_inj' habs.ne', mul_right_inj' hc]

end Nearer

/-- The rational `v`, in multiples of `2 ^ -1076`, lies in the interval. -/
def Rounding.Holds (r : Rounding) (v : ℚ) : Prop :=
  (r.low < v ∧ v < r.high) ∨ (r.closed = true ∧ (v = r.low ∨ v = r.high))

theorem Rounding.contains_iff {r : Rounding} {n d : ℕ} (hd : 0 < d) :
    r.contains n d = true ↔ r.Holds (n / d) := by
  have hpos : (0 : ℚ) < d := by exact_mod_cast hd
  unfold Rounding.contains Rounding.Holds
  rw [lt_div_iff₀ hpos, div_lt_iff₀ hpos, div_eq_iff hpos.ne', div_eq_iff hpos.ne']
  simp only [Bool.or_eq_true, Bool.and_eq_true, decide_eq_true_eq, beq_iff_eq]
  norm_cast

/-- The magnitude of `y`, negative if the sign is not that of `x`. -/
def along (x y : Binary64) : ℚ :=
  if y.isNegative = x.isNegative then y.scaled else -y.scaled

theorem along_self (x : Binary64) : x.along x = x.scaled :=
  if_pos rfl

-- Seen from `x`, in multiples of `2 ^ -1076`.
theorem sign_mul_toRat (x y : Binary64) : x.sign * (4 * one) * y.toRat = 4 * x.along y := by
  have hone := one_pos.ne'
  rw [toRat_eq, along, sign, sign]
  cases x.isNegative <;> cases y.isNegative <;> simp <;> field_simp

theorem nearer_toRat_iff {preferred : Prop} (x y : Binary64) (q : ℚ) :
    Nearer preferred (x.sign * q) x.toRat y.toRat ↔
      Nearer preferred (4 * one * q) (4 * x.scaled) (4 * x.along y) := by
  have hc : x.sign * (4 * one) ≠ 0 := by
    have hone := one_pos.ne'
    have hsign : x.sign ≠ 0 := left_ne_zero_of_mul_eq_one x.sign_mul_self
    positivity
  rw [← nearer_mul hc, sign_mul_toRat, sign_mul_toRat, along_self]
  congr! 1
  rw [mul_mul_mul_comm, x.sign_mul_self, one_mul]

theorem exists_low_succ {x : Binary64} (hzero : x.isZero = false) : ∃ v, x.low = v + 1 := by
  refine ⟨x.low - 1, (Nat.sub_add_cancel (Nat.one_le_iff_ne_zero.2 fun h => ?_)).symm⟩
  rw [isZero_iff.2 h] at hzero
  cases hzero

theorem slack_le {x : Binary64} (hzero : x.isZero = false) : x.slack ≤ 2 * x.scaled := by
  obtain ⟨v, hv⟩ := exists_low_succ hzero
  rw [slack_eq hv, scaled_eq, hv, scaledAt_succ]
  omega

theorem ulp_pos (x : Binary64) : (0 : ℚ) < x.ulp := by
  rw [ulp_eq, ulpAt]
  positivity

theorem slack_pos {x : Binary64} (hzero : x.isZero = false) : (0 : ℚ) < x.slack := by
  obtain ⟨v, hv⟩ := exists_low_succ hzero
  rw [slack_eq hv, ulpAt]
  positivity

/-- The numbers next to `x`. -/
theorem along_apart {x : Binary64} (hzero : x.isZero = false) (y : Binary64) :
    x.along y = x.scaled ∨ x.scaled + x.ulp ≤ x.along y ∨
      2 * x.along y + x.slack ≤ 2 * x.scaled := by
  unfold along
  split
  · have hapart := x.scaledAt_apart y.low
    rw [← scaled_eq, ← scaled_eq] at hapart
    rcases hapart with hsame | habove | hbelow
    · rw [y.scaled_eq, hsame, ← scaled_eq]
      exact .inl rfl
    · exact .inr (.inl (by exact_mod_cast habove))
    · exact .inr (.inr (by exact_mod_cast hbelow))
  · have hslack : (x.slack : ℚ) ≤ 2 * x.scaled := by exact_mod_cast slack_le hzero
    have hy : (0 : ℚ) ≤ y.scaled := Nat.cast_nonneg _
    exact .inr (.inr (by linarith))

theorem rounding_low {x : Binary64} (hzero : x.isZero = false) :
    (x.rounding.low : ℚ) = 4 * x.scaled - x.slack := by
  have hslack := slack_le hzero
  show ((4 * x.scaled - x.slack : ℕ) : ℚ) = _
  rw [Nat.cast_sub (by omega), Nat.cast_mul, Nat.cast_ofNat]

theorem rounding_high (x : Binary64) : (x.rounding.high : ℚ) = 4 * x.scaled + 2 * x.ulp := by
  show ((4 * x.scaled + 2 * x.ulp : ℕ) : ℚ) = _
  push_cast
  rfl

theorem rounding_closed (x : Binary64) : x.rounding.closed = true ↔ x.fraction % 2 = 0 := by
  show (x.significand % 2 == 0) = true ↔ _
  rw [beq_iff_eq, significand]
  split
  · rfl
  · rw [show Nat.pow 2 52 = 2 * 2 ^ 51 from rfl, Nat.mul_add_mod]

/-- **The rationals that round to a number** are those in its interval. -/
theorem roundsTo_iff {x : Binary64} (hfinite : x.isFinite = true) (hzero : x.isZero = false) (q : ℚ) :
    RoundsTo (x.sign * q) x ↔ x.rounding.Holds (4 * one * q) := by
  have hulp := x.ulp_pos
  have hslack := slack_pos hzero
  unfold Rounding.Holds
  rw [rounding_low hzero, rounding_high, rounding_closed]
  generalize hv : 4 * (one : ℚ) * q = v
  constructor
  · rintro ⟨-, hnear⟩
    have hlow := isFinite_iff.1 hfinite
    obtain ⟨w, hw⟩ := exists_low_succ hzero
    obtain ⟨above, hasign, halow⟩ := x.exists_low (w := x.low + 1) (by omega)
    obtain ⟨below, hbsign, hblow⟩ := x.exists_low (w := w) (by omega)
    have haalong : x.along above = x.scaled + x.ulp := by
      rw [along, if_pos hasign, scaled_eq, scaled_eq, ulp_eq, halow, scaledAt_succ, Nat.cast_add]
    have hbalong : 2 * x.along below = 2 * x.scaled - x.slack := by
      rw [along, if_pos hbsign, slack_eq hw, scaled_eq, scaled_eq, hblow, hw, scaledAt_succ]
      push_cast
      ring
    have hup := hnear above (isNaN_eq_false_iff.2 (by omega))
    have hdown := hnear below (isNaN_eq_false_iff.2 (by omega))
    rw [nearer_toRat_iff, hv, haalong, nearer_of_gt (by linarith)] at hup
    rw [nearer_toRat_iff, hv, nearer_of_lt (by linarith)] at hdown
    rcases hup with hup | ⟨hup, heven⟩
    · rcases hdown with hdown | ⟨hdown, heven⟩
      · exact .inl ⟨by linarith, by linarith⟩
      · exact .inr ⟨heven, .inl (by linarith)⟩
    · exact .inr ⟨heven, .inr (by linarith)⟩
  · intro hholds
    refine ⟨hfinite, fun y hy => ?_⟩
    rw [nearer_toRat_iff, hv]
    rcases along_apart hzero y with hsame | habove | hbelow
    · rw [hsame]
      exact .inr ⟨rfl, .inl rfl⟩
    · rw [nearer_of_gt (by linarith)]
      rcases hholds with ⟨-, hhigh⟩ | ⟨heven, hend | hend⟩
      · exact .inl (by linarith)
      · exact .inl (by linarith)
      · rcases habove.eq_or_lt with heq | hlt
        · exact .inr ⟨by linarith, heven⟩
        · exact .inl (by linarith)
    · rw [nearer_of_lt (by linarith)]
      rcases hholds with ⟨hlow, -⟩ | ⟨heven, hend | hend⟩
      · exact .inl (by linarith)
      · rcases hbelow.eq_or_lt with heq | hlt
        · exact .inr ⟨by linarith, heven⟩
        · exact .inl (by linarith)
      · exact .inl (by linarith)

/-! ## 4. Order of the intervals -/

theorem rounding_low_le (x : Binary64) : (x.rounding.low : ℚ) ≤ x.rounding.high := by
  have hle : x.rounding.low ≤ x.rounding.high := by
    show 4 * x.scaled - x.slack ≤ 4 * x.scaled + 2 * x.ulp
    omega
  exact_mod_cast hle

/-- Between two rationals that round to a number every rational does. -/
theorem Rounding.Holds.between {x : Binary64} {u v w : ℚ} (hu : x.rounding.Holds u)
    (hw : x.rounding.Holds w) (huv : u ≤ v) (hvw : v ≤ w) : x.rounding.Holds v := by
  rcases huv.eq_or_lt with rfl | huv
  · exact hu
  rcases hvw.eq_or_lt with rfl | hvw
  · exact hw
  have hends := x.rounding_low_le
  unfold Rounding.Holds at *
  refine .inl ⟨?_, ?_⟩
  · rcases hu with hu | ⟨-, hu | hu⟩ <;> linarith
  · rcases hw with hw | ⟨-, hw | hw⟩ <;> linarith

theorem holds_value {x : Binary64} (hzero : x.isZero = false) :
    x.rounding.Holds (4 * x.scaled) := by
  have hulp := x.ulp_pos
  have hslack := slack_pos hzero
  refine .inl ⟨?_, ?_⟩
  · rw [rounding_low hzero]
    linarith
  · rw [rounding_high]
    linarith

/-- What rounds to a smaller number is smaller: intervals that meet are of neighbours, whose last
    bits differ, so that the end belongs to one of them only. -/
theorem Rounding.Holds.lt {x y : Binary64} {v w : ℚ} (hv : x.rounding.Holds v)
    (hw : y.rounding.Holds w) (hlow : x.low < y.low) : v < w := by
  have hzero : y.isZero = false := by
    rw [← Bool.not_eq_true, isZero_iff]
    omega
  obtain ⟨u, hu⟩ : ∃ u, y.low = u + 1 := ⟨y.low - 1, by omega⟩
  -- twice the places half way between the numbers and their neighbours
  have hhigh : (x.rounding.high : ℚ) = 2 * (scaledAt x.low + scaledAt (x.low + 1)) := by
    rw [rounding_high, scaledAt_succ, scaled_eq, ulp_eq]
    push_cast
    ring
  have hlower : (y.rounding.low : ℚ) = 2 * (scaledAt u + scaledAt y.low) := by
    rw [rounding_low hzero, slack_eq hu, scaled_eq, hu, scaledAt_succ]
    push_cast
    ring
  have hfirst : (scaledAt x.low : ℚ) ≤ scaledAt u := by
    exact_mod_cast strictMono_scaledAt.monotone (by omega)
  have hsecond : (scaledAt (x.low + 1) : ℚ) ≤ scaledAt y.low := by
    exact_mod_cast strictMono_scaledAt.monotone (by omega)
  by_contra hle
  rw [not_lt] at hle
  have hxends := x.rounding_low_le
  have hyends := y.rounding_low_le
  have hmeet : v = x.rounding.high ∧ w = y.rounding.low ∧
      (scaledAt (x.low + 1) : ℚ) = scaledAt y.low := by
    rcases hv with hv | ⟨-, hv | hv⟩ <;> rcases hw with hw | ⟨-, hw | hw⟩ <;>
      refine ⟨?_, ?_, ?_⟩ <;> linarith
  obtain ⟨hvend, hwend, hmeet⟩ := hmeet
  have hnext : x.low + 1 = y.low := strictMono_scaledAt.injective (by exact_mod_cast hmeet)
  have hxeven : x.fraction % 2 = 0 := by
    rcases hv with hv | ⟨hclosed, -⟩
    · exact absurd hvend hv.2.ne
    · exact x.rounding_closed.1 hclosed
  have hyeven : y.fraction % 2 = 0 := by
    rcases hw with hw | ⟨hclosed, -⟩
    · exact absurd hwend hw.1.ne'
    · exact y.rounding_closed.1 hclosed
  rw [fraction_eq] at hxeven hyeven
  omega

end Binary64

end ReactiveView
