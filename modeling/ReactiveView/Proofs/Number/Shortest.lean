import Mathlib.Tactic.GCongr
import ReactiveView.Proofs.Number.Rounding

/-!
# Shortest decimals

On a grid of multiples of a power of ten only the two neighbours of a number can be the nearest
point that rounds to it, since what rounds to it is an interval around it.  A decimal of `k` digits
that rounds to a number lies on the grid of `k` digits or has a point of the grid between itself and
the number, so that the first grid that is hit has the shortest decimals, and its nearest point is
nearest among them.  The seventeenth grid is always hit.
-/

namespace ReactiveView

namespace Binary64

variable {x : Binary64}

/-! ## 1. Magnitudes that round to a number -/

/-- The magnitude `v` rounds to that of `x`. -/
def Catches (x : Binary64) (v : ℚ) : Prop := RoundsTo (x.sign * v) x

section Catches

variable (hfinite : x.isFinite = true) (hzero : x.isZero = false)
include hfinite hzero

theorem catches_iff (v : ℚ) : x.Catches v ↔ x.rounding.Holds (4 * one * v) :=
  roundsTo_iff hfinite hzero v

theorem catches_magnitude : x.Catches x.magnitude := by
  rw [catches_iff hfinite hzero, mul_assoc, mul_comm (one : ℚ), ← scaled_eq_mul]
  exact holds_value hzero

theorem Catches.between {u v w : ℚ} (hu : x.Catches u) (hw : x.Catches w) (huv : u ≤ v)
    (hvw : v ≤ w) : x.Catches v := by
  rw [catches_iff hfinite hzero] at *
  have hone := one_pos
  exact hu.between hw (by gcongr) (by gcongr)

end Catches

/-! ## 2. Grids -/

/-- How many steps go into the value of the interval. -/
def Rounding.below (r : Rounding) (step d : ℕ) : ℕ := r.value * d / step

theorem Rounding.nearest?_eq_none {r : Rounding} {step d : ℕ} (h : r.nearest? step d = none) :
    ¬ r.contains (r.below step d * step) d ∧ ¬ r.contains ((r.below step d + 1) * step) d := by
  unfold nearest? at h
  rw [← below] at h
  dsimp only at h
  split at h
  · split at h <;> cases h
  · cases h
  · cases h
  · rename_i hlower hupper
    exact ⟨ne_true_of_eq_false hlower, ne_true_of_eq_false hupper⟩

theorem Rounding.nearest?_eq_some {r : Rounding} {step d m : ℕ} (h : r.nearest? step d = some m) :
    m = r.below step d ∧ r.contains (m * step) d ∧
        (r.contains ((m + 1) * step) d → 2 * (r.value * d) < (2 * m + 1) * step) ∨
      m = r.below step d + 1 ∧ r.contains (m * step) d ∧
        (r.contains (r.below step d * step) d →
          (2 * r.below step d + 1) * step ≤ 2 * (r.value * d)) := by
  unfold nearest? at h
  rw [← below] at h
  dsimp only at h
  split at h
  · rename_i hlower hupper
    split at h <;> cases h
    · rename_i hnearer
      exact .inl ⟨rfl, hlower, fun _ => hnearer⟩
    · rename_i hfarther
      exact .inr ⟨rfl, hupper, fun _ => not_lt.1 hfarther⟩
  · rename_i hlower hupper
    cases h
    exact .inl ⟨rfl, hlower, fun hnext => absurd hnext (ne_true_of_eq_false hupper)⟩
  · rename_i hlower hupper
    cases h
    exact .inr ⟨rfl, hupper, fun hprevious => absurd hprevious (ne_true_of_eq_false hlower)⟩
  · cases h

/-! ## 3. The grid of a power of ten -/

/-- The distance between two multiples of `10 ^ k`, in multiples of `2 ^ -1076 / denominator k`. -/
def step (k : ℤ) : ℕ := Nat.pow 10 k.toNat * (4 * one)

def denominator (k : ℤ) : ℕ := Nat.pow 10 (-k).toNat

theorem step_pos (k : ℤ) : 0 < step k :=
  Nat.mul_pos (Nat.pow_pos (by decide)) (Nat.mul_pos (by decide) (Nat.cast_pos.1 one_pos))

theorem denominator_pos (k : ℤ) : 0 < denominator k := Nat.pow_pos (by decide)

theorem cast_step (k : ℤ) : (step k : ℚ) = 4 * one * 10 ^ k * denominator k := by
  have hcast : ∀ n : ℕ, ((Nat.pow 10 n : ℕ) : ℚ) = 10 ^ (n : ℤ) := fun n => by
    rw [zpow_natCast]
    exact Nat.cast_pow 10 n
  have hsplit : (10 : ℚ) ^ (k.toNat : ℤ) = 10 ^ k * 10 ^ ((-k).toNat : ℤ) := by
    rw [← zpow_add₀ (by norm_num)]
    congr 1
    omega
  rw [step, denominator, Nat.cast_mul, hcast, hcast, hsplit]
  push_cast
  ring

/-- How many multiples of `10 ^ k` go into the magnitude. -/
def below (x : Binary64) (k : ℤ) : ℕ := x.rounding.below (step k) (denominator k)

section Grid

variable (x) (k : ℤ)

theorem cast_value : (x.rounding.value : ℚ) = 4 * one * x.magnitude := by
  rw [show x.rounding.value = 4 * x.scaled from rfl, Nat.cast_mul, scaled_eq_mul]
  push_cast
  ring

theorem point_le_iff (m n : ℕ) :
    m * step k ≤ n * (x.rounding.value * denominator k) ↔ (m * 10 ^ k : ℚ) ≤ n * x.magnitude := by
  have hscale : (0 : ℚ) < 4 * one * denominator k :=
    mul_pos (mul_pos (by norm_num) one_pos) (Nat.cast_pos.2 (denominator_pos k))
  have hpoint : ((m * step k : ℕ) : ℚ) = 4 * one * denominator k * (m * 10 ^ k) := by
    rw [Nat.cast_mul, cast_step]
    ring
  have hvalue : ((n * (x.rounding.value * denominator k) : ℕ) : ℚ) =
      4 * one * denominator k * (n * x.magnitude) := by
    rw [Nat.cast_mul, Nat.cast_mul, cast_value]
    ring
  rw [← Nat.cast_le (α := ℚ), hpoint, hvalue, mul_le_mul_iff_right₀ hscale]

theorem below_le : (x.below k * 10 ^ k : ℚ) ≤ x.magnitude := by
  have hle : x.below k * step k ≤ 1 * (x.rounding.value * denominator k) := by
    rw [Nat.one_mul]
    exact Nat.div_mul_le_self _ _
  simpa using (point_le_iff x k _ 1).1 hle

theorem lt_below : x.magnitude < ((x.below k + 1 : ℕ) * 10 ^ k : ℚ) := by
  have hlt : ¬ (x.below k + 1) * step k ≤ 1 * (x.rounding.value * denominator k) := by
    rw [Nat.one_mul, not_le, Nat.mul_comm _ (step k)]
    exact Nat.lt_mul_div_succ _ (step_pos k)
  rw [point_le_iff, Nat.cast_one, one_mul, not_le] at hlt
  exact hlt

end Grid

/-! ## 4. The nearest point of a grid -/

/-- The point `m` of the grid rounds to `x`, and none that does is nearer. -/
structure Nearest (x : Binary64) (k : ℤ) (m : ℕ) : Prop where
  catches : x.Catches (m * 10 ^ k)
  least : ∀ m' : ℕ, x.Catches (m' * 10 ^ k) →
    |x.magnitude - m * 10 ^ k| ≤ |x.magnitude - m' * 10 ^ k|

section Nearest

variable (hfinite : x.isFinite = true) (hzero : x.isZero = false) {k : ℤ} {m : ℕ}
include hfinite hzero

theorem contains_iff_catches (k : ℤ) (m : ℕ) :
    x.rounding.contains (m * step k) (denominator k) = true ↔ x.Catches (m * 10 ^ k) := by
  have hdenominator : (denominator k : ℚ) ≠ 0 := Nat.cast_ne_zero.2 (denominator_pos k).ne'
  have hpoint : ((m * step k : ℕ) : ℚ) / denominator k = 4 * one * (m * 10 ^ k) := by
    rw [Nat.cast_mul, cast_step]
    field_simp
  rw [Rounding.contains_iff (denominator_pos k), hpoint, catches_iff hfinite hzero]

/-- If a point of a grid is hit, so is the neighbour of the number on the same side. -/
theorem Catches.neighbour (h : x.Catches (m * 10 ^ k)) :
    m ≤ x.below k ∧ x.Catches (x.below k * 10 ^ k) ∨
      x.below k + 1 ≤ m ∧ x.Catches ((x.below k + 1 : ℕ) * 10 ^ k) := by
  have hself := catches_magnitude hfinite hzero
  rcases Nat.lt_or_ge (x.below k) m with hlt | hle
  · exact .inr ⟨hlt, hself.between hfinite hzero h (lt_below x k).le (by gcongr; exact hlt)⟩
  · exact .inl ⟨hle, h.between hfinite hzero hself (by gcongr) (below_le x k)⟩

theorem onGrid?_eq_none (h : x.onGrid? k = none) (m : ℕ) : ¬ x.Catches (m * 10 ^ k) := by
  obtain ⟨hlower, hupper⟩ := Rounding.nearest?_eq_none h
  intro hm
  rcases hm.neighbour hfinite hzero with ⟨-, hbelow⟩ | ⟨-, habove⟩
  · exact hlower ((contains_iff_catches hfinite hzero k _).2 hbelow)
  · exact hupper ((contains_iff_catches hfinite hzero k _).2 habove)

theorem onGrid?_eq_some (h : x.onGrid? k = some m) :
    Nearest x k m ∧ (m = x.below k ∨ m = x.below k + 1) := by
  have hle := below_le x k
  have hlt := lt_below x k
  have hchoice := Rounding.nearest?_eq_some
    (show x.rounding.nearest? (step k) (denominator k) = some m from h)
  rw [show x.rounding.below (step k) (denominator k) = x.below k from rfl] at hchoice
  rcases hchoice with ⟨hm, hhit, hnext⟩ | ⟨hm, hhit, hprevious⟩
  · refine ⟨⟨(contains_iff_catches hfinite hzero k m).1 hhit, fun m' hm' => ?_⟩, .inl hm⟩
    rw [hm] at hnext ⊢
    rw [abs_of_nonneg (sub_nonneg.2 hle)]
    rcases hm'.neighbour hfinite hzero with ⟨hside, -⟩ | ⟨hside, habove⟩
    · have hside : (m' * 10 ^ k : ℚ) ≤ x.below k * 10 ^ k := by gcongr
      exact le_trans (by linarith) (le_abs_self _)
    · have hside : ((x.below k + 1 : ℕ) * 10 ^ k : ℚ) ≤ m' * 10 ^ k := by gcongr
      have hnearer := hnext ((contains_iff_catches hfinite hzero k _).2 habove)
      rw [← not_le, point_le_iff, not_le] at hnearer
      push_cast at hside hnearer
      exact le_trans (by linarith) (neg_le_abs _)
  · refine ⟨⟨(contains_iff_catches hfinite hzero k m).1 hhit, fun m' hm' => ?_⟩, .inr hm⟩
    rw [hm, abs_of_nonpos (sub_nonpos.2 hlt.le)]
    rcases hm'.neighbour hfinite hzero with ⟨hside, hbelow⟩ | ⟨hside, -⟩
    · have hside : (m' * 10 ^ k : ℚ) ≤ x.below k * 10 ^ k := by gcongr
      have hfarther := hprevious ((contains_iff_catches hfinite hzero k _).2 hbelow)
      rw [point_le_iff] at hfarther
      push_cast at hfarther ⊢
      exact le_trans (by linarith) (le_abs_self _)
    · have hside : ((x.below k + 1 : ℕ) * 10 ^ k : ℚ) ≤ m' * 10 ^ k := by gcongr
      exact le_trans (by linarith) (neg_le_abs _)

end Nearest

/-! ## 5. The leading digit -/

theorem length_toDigits_bounds {n : ℕ} (h : 0 < n) :
    10 ^ ((Nat.toDigits 10 n).length - 1) ≤ n ∧ n < 10 ^ (Nat.toDigits 10 n).length := by
  have hpos : 0 < (Nat.toDigits 10 n).length := Nat.length_toDigits_pos
  refine ⟨?_, (Nat.length_toDigits_le_iff (by decide) hpos).1 (Nat.le_refl _)⟩
  rcases Nat.eq_or_lt_of_le hpos with hsingle | hlonger
  · rw [← hsingle]
    exact h
  · by_contra hlt
    rw [not_le, ← Nat.length_toDigits_le_iff (by decide) (by omega)] at hlt
    omega

theorem exists_decimalLength {n : ℕ} (h : 0 < n) :
    ∃ l, decimalLength n = l + 1 ∧ 10 ^ l ≤ n ∧ n < 10 ^ (l + 1) := by
  obtain ⟨hle, hlt⟩ := length_toDigits_bounds h
  have hpos : 0 < (Nat.toDigits 10 n).length := Nat.length_toDigits_pos
  refine ⟨(Nat.toDigits 10 n).length - 1, ?_, hle, ?_⟩
  · rw [decimalLength, if_neg h.ne']
    omega
  · rwa [Nat.sub_add_cancel hpos]

/-- A quotient of at least one has its leading digit where its whole part has it. -/
theorem decade_of_le {a b : ℕ} (hb : 0 < b) (h : b ≤ a) :
    (10 : ℚ) ^ ((decimalLength (a / b) : ℤ) - 1) ≤ a / b ∧
      (a / b : ℚ) < 10 ^ ((decimalLength (a / b) : ℤ) - 1 + 1) := by
  obtain ⟨l, hl, hle, hlt⟩ := exists_decimalLength (Nat.div_pos h hb)
  have hpos : (0 : ℚ) < b := Nat.cast_pos.2 hb
  rw [hl, Nat.cast_succ, add_sub_cancel_right, le_div_iff₀ hpos, div_lt_iff₀ hpos]
  have hlower : 10 ^ l * b ≤ a := (Nat.le_div_iff_mul_le hb).1 hle
  have hupper : a < 10 ^ (l + 1) * b := (Nat.div_lt_iff_lt_mul hb).1 hlt
  exact ⟨by exact_mod_cast hlower, by exact_mod_cast hupper⟩

/-- A quotient below one has it where the quotient the other way round goes below. -/
theorem decade_of_lt {a b : ℕ} (ha : 0 < a) (h : a < b) :
    (10 : ℚ) ^ (-(decimalLength ((b - 1) / a) : ℤ)) ≤ a / b ∧
      (a / b : ℚ) < 10 ^ (-(decimalLength ((b - 1) / a) : ℤ) + 1) := by
  obtain ⟨l, hl, hle, hlt⟩ := exists_decimalLength (Nat.div_pos (Nat.le_sub_one_of_lt h) ha)
  have hpos : (0 : ℚ) < b := Nat.cast_pos.2 (by omega)
  have hpow : (0 : ℚ) < 10 ^ l := by positivity
  have hnext : (0 : ℚ) < 10 ^ (l + 1) := by positivity
  rw [hl, Nat.cast_succ, neg_add_rev, neg_add_cancel_comm, zpow_neg, ← neg_add_rev, zpow_neg,
    zpow_natCast, ← Nat.cast_succ, zpow_natCast, inv_eq_one_div, inv_eq_one_div,
    div_le_div_iff₀ hnext hpos, div_lt_div_iff₀ hpos hpow]
  have hlower : 10 ^ l * a ≤ b - 1 := (Nat.le_div_iff_mul_le ha).1 hle
  have hupper : b - 1 < 10 ^ (l + 1) * a := (Nat.div_lt_iff_lt_mul ha).1 hlt
  have hbelow : a * 10 ^ l < 1 * b := by
    rw [Nat.mul_comm]
    omega
  have habove : 1 * b ≤ a * 10 ^ (l + 1) := by
    rw [Nat.mul_comm a]
    omega
  exact ⟨by exact_mod_cast habove, by exact_mod_cast hbelow⟩

theorem decade_bounds (hzero : x.isZero = false) :
    (10 : ℚ) ^ x.decade ≤ x.magnitude ∧ x.magnitude < 10 ^ (x.decade + 1) := by
  have hscaled : 0 < x.scaled := by
    obtain ⟨v, hv⟩ := exists_low_succ hzero
    rw [scaled_eq, hv, scaledAt_succ]
    exact Nat.add_pos_right _ (Nat.pow_pos two_pos)
  rw [magnitude_eq]
  unfold decade
  split
  · rename_i hle
    exact decade_of_le (Nat.cast_pos.1 one_pos) hle
  · rename_i hlt
    exact decade_of_lt hscaled (not_le.1 hlt)

/-! ## 6. Decimals -/

/-- The number `s` has `k` decimal digits. -/
def HasDigits (k s : ℕ) : Prop := 1 ≤ k ∧ 10 ^ (k - 1) ≤ s ∧ s < 10 ^ k

/-- The `k` digits of `s`, with the point behind the first `n` of them, are a shortest decimal that
    rounds to the magnitude of `x`, and among those of this length none is closer to it. -/
structure Shortest (x : Binary64) (k s : ℕ) (n : ℤ) : Prop where
  digits : HasDigits k s
  rounds : x.Catches (s * 10 ^ (n - k))
  least : ∀ k' s' n', HasDigits k' s' → x.Catches (s' * 10 ^ (n' - k' : ℤ)) → k ≤ k'
  closest : ∀ s' n', HasDigits k s' → x.Catches (s' * 10 ^ (n' - k : ℤ)) →
    |x.magnitude - s * 10 ^ (n - k)| ≤ |x.magnitude - s' * 10 ^ (n' - k : ℤ)|

theorem zpow_add_natCast (e : ℤ) (j : ℕ) : (10 : ℚ) ^ (e + j) = 10 ^ j * 10 ^ e := by
  rw [zpow_add₀ (by norm_num), zpow_natCast, mul_comm]

theorem HasDigits.bounds {k s : ℕ} (h : HasDigits k s) (n : ℤ) :
    (10 : ℚ) ^ (n - 1) ≤ s * 10 ^ (n - k) ∧ (s * 10 ^ (n - k) : ℚ) < 10 ^ n := by
  obtain ⟨hk, hle, hlt⟩ := h
  have hpos : (0 : ℚ) < 10 ^ (n - k) := zpow_pos (by norm_num) _
  constructor
  · rw [show n - 1 = n - k + (k - 1 : ℕ) by omega, zpow_add_natCast]
    exact mul_le_mul_of_nonneg_right (by exact_mod_cast hle) hpos.le
  · rw [show (10 : ℚ) ^ n = 10 ^ (n - k + k : ℤ) by rw [sub_add_cancel], zpow_add_natCast]
    exact mul_lt_mul_of_pos_right (by exact_mod_cast hlt) hpos

/-- The powers of ten are the decimals of the single digit one. -/
theorem hasDigits_one : HasDigits 1 1 := ⟨le_rfl, by norm_num, by norm_num⟩

/-- If a power of ten rounds to `x`, the shortest decimals have one digit. -/
theorem Shortest.le_of_power {k s : ℕ} {n p : ℤ} (h : x.Shortest k s n) (hp : x.Catches (10 ^ p)) :
    k = 1 ∧ |x.magnitude - s * 10 ^ (n - k)| ≤ |x.magnitude - 10 ^ p| := by
  have hpower : ((1 : ℕ) : ℚ) * 10 ^ (p + 1 - (1 : ℕ)) = 10 ^ p := by
    rw [Nat.cast_one, one_mul, Nat.cast_one, add_sub_cancel_right]
  have hk : k = 1 := le_antisymm (h.least 1 1 (p + 1) hasDigits_one (by rwa [hpower])) h.digits.1
  subst hk
  have hclosest := h.closest 1 (p + 1) hasDigits_one (by rwa [hpower])
  rw [hpower] at hclosest
  exact ⟨rfl, hclosest⟩

section Decimals

variable (hfinite : x.isFinite = true) (hzero : x.isZero = false)
include hfinite hzero

/-- For every decimal that rounds to `x` the grid of as many digits has a point that does and is not
    farther away. -/
theorem exists_point {k s : ℕ} {e : ℤ} (hs : HasDigits k s) (h : x.Catches (s * 10 ^ e)) :
    ∃ m : ℕ, x.Catches (m * 10 ^ (x.decade - k + 1)) ∧
      |x.magnitude - m * 10 ^ (x.decade - k + 1)| ≤ |x.magnitude - s * 10 ^ e| := by
  obtain ⟨hdecade, -⟩ := decade_bounds hzero
  generalize x.decade = d at hdecade ⊢
  rcases le_or_gt (d - k + 1) e with hcoarse | hfine
  · -- the decimal is a point itself
    obtain ⟨j, rfl⟩ : ∃ j : ℕ, e = d - k + 1 + j := ⟨(e - (d - k + 1)).toNat, by omega⟩
    have hsame : ((s * 10 ^ j : ℕ) : ℚ) * 10 ^ (d - k + 1) = s * 10 ^ (d - k + 1 + j) := by
      rw [zpow_add_natCast]
      push_cast
      ring
    refine ⟨s * 10 ^ j, ?_, ?_⟩
    · rwa [hsame]
    · rw [hsame]
  · -- the decimal has a lower leading digit than the number
    have hpoint : ((10 ^ (k - 1) : ℕ) : ℚ) * 10 ^ (d - k + 1) = 10 ^ d := by
      have hk := hs.1
      rw [Nat.cast_pow, Nat.cast_ofNat, ← zpow_add_natCast]
      congr 1
      omega
    have hbelow : (s * 10 ^ e : ℚ) ≤ 10 ^ d := by
      have hdigits := (hs.bounds (e + k)).2.le
      rw [add_sub_cancel_right] at hdigits
      exact hdigits.trans (zpow_le_zpow_right₀ (by norm_num) (by omega))
    refine ⟨10 ^ (k - 1), ?_, ?_⟩
    · rw [hpoint]
      exact h.between hfinite hzero (catches_magnitude hfinite hzero) hbelow hdecade
    · rw [hpoint, abs_of_nonneg (sub_nonneg.2 hdecade)]
      exact le_trans (by linarith) (le_abs_self _)

theorem not_catches_of_miss {k s : ℕ} {e : ℤ} (h : x.onGrid? (x.decade - k + 1) = none)
    (hs : HasDigits k s) : ¬ x.Catches (s * 10 ^ e) := by
  intro hcatches
  obtain ⟨m, hm, -⟩ := exists_point hfinite hzero hs hcatches
  exact onGrid?_eq_none hfinite hzero h m hm

omit hfinite in
-- The points next to the number on the grid of `k` digits.
theorem below_bounds {k : ℕ} (hk : 1 ≤ k) :
    10 ^ (k - 1) ≤ x.below (x.decade - k + 1) ∧ x.below (x.decade - k + 1) < 10 ^ k := by
  obtain ⟨hdecade, hnext⟩ := decade_bounds hzero
  generalize x.decade = d at hdecade hnext ⊢
  have hle := below_le x (d - k + 1)
  have hlt := lt_below x (d - k + 1)
  have hstep : (0 : ℚ) < 10 ^ (d - k + 1) := zpow_pos (by norm_num) _
  have hlower : ((10 ^ (k - 1) : ℕ) : ℚ) < (x.below (d - k + 1) + 1 : ℕ) := by
    refine (mul_lt_mul_iff_left₀ hstep).1 (lt_of_le_of_lt ?_ hlt)
    rw [Nat.cast_pow, Nat.cast_ofNat, ← zpow_add_natCast]
    exact (congrArg _ (by omega)).trans_le hdecade
  have hupper : (x.below (d - k + 1) : ℚ) < (10 ^ k : ℕ) := by
    refine (mul_lt_mul_iff_left₀ hstep).1 (lt_of_le_of_lt hle ?_)
    rw [Nat.cast_pow, Nat.cast_ofNat, ← zpow_add_natCast]
    exact hnext.trans_eq (congrArg _ (by omega))
  exact ⟨Nat.le_of_lt_succ (by exact_mod_cast hlower), by exact_mod_cast hupper⟩

omit hfinite hzero in
/-- The interval is wider than the last of sixteen digits. -/
theorem scaled_lt_width (x : Binary64) : 4 * x.scaled < 10 ^ 16 * (2 * x.ulp + x.slack) := by
  have hulp : 0 < x.ulp := Nat.cast_pos.1 x.ulp_pos
  by_cases hpower : x.fraction = 0 ∧ 1 < x.exponent
  · rw [scaled, significand, if_neg (by omega), slack, if_pos hpower, hpower.1]
    show 4 * ((2 ^ 52 + 0) * x.ulp) < _
    omega
  · have hsignificand : x.significand < 2 ^ 53 := by
      have hfraction : x.fraction < 2 ^ 52 := Nat.mod_lt _ (by decide)
      rw [significand, show Nat.pow 2 52 = 2 ^ 52 from rfl]
      split <;> omega
    have hscaled : x.scaled < 2 ^ 53 * x.ulp := Nat.mul_lt_mul_of_pos_right hsignificand hulp
    rw [slack, if_neg hpower]
    omega

/-- A grid that misses the interval is coarser than the interval is wide. -/
theorem width_le_of_miss {g : ℤ} (h : x.onGrid? g = none) :
    (2 * x.ulp + x.slack : ℚ) ≤ 4 * one * 10 ^ g := by
  have hle := below_le x g
  have hlt := lt_below x g
  have hlower := onGrid?_eq_none hfinite hzero h (x.below g)
  have hupper := onGrid?_eq_none hfinite hzero h (x.below g + 1)
  have hone := one_pos
  have hulp := x.ulp_pos
  have hslack := slack_pos hzero
  have hscaled : (4 * x.scaled : ℚ) = 4 * one * x.magnitude := by
    rw [scaled_eq_mul]
    ring
  rw [catches_iff hfinite hzero, Rounding.Holds, rounding_low hzero, rounding_high, hscaled]
    at hlower hupper
  push_cast at hlt hlower hupper
  generalize (x.below g : ℚ) = b at *
  generalize (10 : ℚ) ^ g = p at *
  generalize x.magnitude = v at *
  have hfirst : 4 * one * (b * p) ≤ 4 * one * v - x.slack := by
    by_contra hinside
    have hbelow : 4 * one * (b * p) ≤ 4 * one * v := by gcongr
    exact hlower (.inl ⟨not_le.1 hinside, by linarith⟩)
  have hsecond : 4 * one * v + 2 * x.ulp ≤ 4 * one * ((b + 1) * p) := by
    by_contra hinside
    have habove : 4 * one * v ≤ 4 * one * ((b + 1) * p) := by gcongr
    exact hupper (.inl ⟨by linarith, not_le.1 hinside⟩)
  linarith

/-- The seventeenth grid is fine enough. -/
theorem onGrid?_seventeen : x.onGrid? (x.decade - (17 : ℕ) + 1) ≠ none := by
  intro hnone
  obtain ⟨hdecade, -⟩ := decade_bounds hzero
  have hcoarse := width_le_of_miss hfinite hzero hnone
  have hwidth : (4 * x.scaled : ℚ) < 10 ^ 16 * (2 * x.ulp + x.slack) := by
    exact_mod_cast x.scaled_lt_width
  have hdigits : (10 : ℚ) ^ 16 * 10 ^ (x.decade - (17 : ℕ) + 1) ≤ x.magnitude := by
    rw [← zpow_add_natCast]
    exact (congrArg _ (by omega)).trans_le hdecade
  have hone := one_pos
  have hsteps : (4 * one * (10 ^ 16 * 10 ^ (x.decade - (17 : ℕ) + 1)) : ℚ) ≤ 4 * one * x.magnitude := by
    gcongr
  rw [scaled_eq_mul] at hwidth
  linarith

/-- The nearest point of the first grid that is hit, without a trailing zero. -/
def trimmed (m : ℕ) (k : ℤ) : Decimal :=
  if m % 10 = 0 then ⟨m / 10, k + 1⟩ else ⟨m, k⟩

theorem shortest_of_hit {n m : ℕ} (hn : 1 ≤ n)
    (hmiss : ∀ j : ℕ, 1 ≤ j → j < n → x.onGrid? (x.decade - j + 1) = none)
    (h : x.onGrid? (x.decade - n + 1) = some m) :
    ∃ k, x.Shortest k (trimmed m (x.decade - n + 1)).digits
      ((trimmed m (x.decade - n + 1)).exponent + k) := by
  obtain ⟨hnearest, hm⟩ := onGrid?_eq_some hfinite hzero h
  obtain ⟨hlower, hupper⟩ := below_bounds hzero hn
  -- no decimal with fewer digits rounds to the number
  have hleast : ∀ k' s' (e' : ℤ), HasDigits k' s' → x.Catches (s' * 10 ^ e') → n ≤ k' := by
    intro k' s' e' hs' hcatches
    by_contra hlt
    exact not_catches_of_miss hfinite hzero (hmiss k' hs'.1 (not_le.1 hlt)) hs' hcatches
  have hclosest : ∀ s' (e' : ℤ), HasDigits n s' → x.Catches (s' * 10 ^ e') →
      |x.magnitude - m * 10 ^ (x.decade - n + 1)| ≤ |x.magnitude - s' * 10 ^ e'| := by
    intro s' e' hs' hcatches
    obtain ⟨m', hm', hdistance⟩ := exists_point hfinite hzero hs' hcatches
    exact le_trans (hnearest.least m' hm') hdistance
  have hrounds := hnearest.catches
  have hcoarser : 1 < n → x.onGrid? (x.decade - n + 1 + 1) = none := fun hlt => by
    have hprevious := hmiss (n - 1) (by omega) (by omega)
    rwa [show x.decade - ((n - 1 : ℕ) : ℤ) + 1 = x.decade - n + 1 + 1 by omega] at hprevious
  clear hmiss hnearest h
  generalize x.decade - (n : ℤ) + 1 = g at *
  unfold trimmed
  split
  · rename_i hten
    -- a trailing zero would have been hit before, so that this is the number ten
    have hsame : ((m / 10 : ℕ) : ℚ) * 10 ^ (g + 1) = m * 10 ^ g := by
      have hm : (m : ℚ) = 10 * (m / 10 : ℕ) := by exact_mod_cast (by omega : m = 10 * (m / 10))
      rw [hm, zpow_add_one₀ (by norm_num)]
      ring
    have hfirst : n = 1 := by
      by_contra hother
      refine onGrid?_eq_none hfinite hzero (hcoarser (by omega)) (m / 10) ?_
      rw [hsame]
      exact hrounds
    subst hfirst
    have hdigit : m / 10 = 1 := by omega
    have hexponent : g + 1 + (1 : ℕ) - (1 : ℕ) = g + 1 := by ring
    rw [hdigit] at hsame
    show ∃ k, x.Shortest k (m / 10) (g + 1 + k)
    rw [hdigit]
    refine ⟨1, hasDigits_one, ?_, fun k' s' n' => hleast k' s' _, fun s' n' => ?_⟩
    · rwa [hexponent, hsame]
    · rw [hexponent, hsame]
      exact hclosest s' _
  · rename_i hten
    show ∃ k, x.Shortest k m (g + k)
    have hexponent : g + n - n = g := by ring
    have hlt : m < 10 ^ n := by
      have hmax : m ≤ 10 ^ n := by omega
      refine lt_of_le_of_ne hmax fun heq => hten ?_
      rw [heq, ← Nat.sub_add_cancel hn, pow_succ, Nat.mul_mod_left]
    refine ⟨n, ⟨hn, by omega, hlt⟩, ?_, fun k' s' n' => hleast k' s' _, fun s' n' => ?_⟩
    · rwa [hexponent]
    · rw [hexponent]
      exact hclosest s' _

theorem shortest_firstHit {tries n : ℕ} (hn : 1 ≤ n)
    (hmiss : ∀ j : ℕ, 1 ≤ j → j < n → x.onGrid? (x.decade - j + 1) = none)
    (hhit : ∃ j : ℕ, n ≤ j ∧ j < n + tries ∧ x.onGrid? (x.decade - j + 1) ≠ none) :
    ∃ k, x.Shortest k (firstHit x.onGrid? x.decade tries n).digits
      ((firstHit x.onGrid? x.decade tries n).exponent + k) := by
  induction tries generalizing n with
  | zero =>
    obtain ⟨j, hle, hlt, -⟩ := hhit
    omega
  | succ tries ih =>
    rw [firstHit]
    split
    · rename_i m hm
      exact shortest_of_hit hfinite hzero hn hmiss hm
    · rename_i hnone
      refine ih (by omega) (fun j hj hlt => ?_) ?_
      · rcases Nat.lt_succ_iff_lt_or_eq.1 hlt with hlt | rfl
        · exact hmiss j hj hlt
        · exact hnone
      · obtain ⟨j, hle, hlt, hj⟩ := hhit
        have hne : j ≠ n := by
          rintro rfl
          exact hj hnone
        exact ⟨j, by omega, by omega, hj⟩

/-- **The decimal of a number is a shortest one**, and of the shortest ones none is closer. -/
theorem exists_shortest : ∃ k, x.Shortest k x.shortest.digits (x.shortest.exponent + k) := by
  have hsearch : x.shortest = firstHit x.onGrid? x.decade 17 1 := by
    rw [shortest, if_neg (by rw [hzero]; decide)]
  rw [hsearch]
  refine shortest_firstHit hfinite hzero le_rfl (fun j hj hlt => ?_)
    ⟨17, by decide, by decide, onGrid?_seventeen hfinite hzero⟩
  omega

end Decimals

end Binary64

end ReactiveView
