import ReactiveView.Proofs.Number.Shortest
import ReactiveView.Value

/-!
# Interpolated numbers

The layout of a decimal in a template is that of JavaScript.  A number is written as the standard
has it, by the digits of a shortest decimal, unless it is a whole number below `1e21`: those have
all their digits, which are the shortest ones below `2 ^ 53` but need not be from there on.
-/

namespace ReactiveView

/-! ## 1. Layout -/

/-- An exponent with its sign. -/
def exponentText (e : ℤ) : List Char :=
  (if e < 0 then '-' else '+') :: Nat.toDigits 10 e.natAbs

/-- The characters that stand for some decimal digits with the point behind the first `n` of them. -/
inductive Written (digits : List Char) (n : ℤ) : List Char → Prop
  | whole {zeros : ℕ} (hn : n = digits.length + zeros) (hlimit : n ≤ 21) :
      Written digits n (digits ++ List.replicate zeros '0')
  | point {front back : List Char} (hdigits : digits = front ++ back) (hfront : front ≠ [])
      (hback : back ≠ []) (hn : n = front.length) (hlimit : n ≤ 21) :
      Written digits n (front ++ '.' :: back)
  | small {zeros : ℕ} (hn : n = -zeros) (hlimit : -6 < n) :
      Written digits n ('0' :: '.' :: (List.replicate zeros '0' ++ digits))
  | digit {d : Char} (hdigits : digits = [d]) (hout : n ≤ -6 ∨ 21 < n) :
      Written digits n (d :: 'e' :: exponentText (n - 1))
  | digits {d : Char} {rest : List Char} (hdigits : digits = d :: rest) (hrest : rest ≠ [])
      (hout : n ≤ -6 ∨ 21 < n) :
      Written digits n (d :: '.' :: (rest ++ 'e' :: exponentText (n - 1)))

namespace Layout

theorem written_positional {ds : List Char} {e : ℤ} (hne : ds ≠ []) (hleast : -6 < e + ds.length)
    (hlimit : e + ds.length ≤ 21) :
    Written ds (e + ds.length) (interpolated.positional ds e) := by
  unfold positional
  dsimp only
  split
  · rename_i hwhole
    have hplain : (if interpolated.marksWhole then ['.', '0'] else []) = ([] : List Char) := rfl
    rw [hplain, List.append_nil]
    exact .whole (by omega) hlimit
  · rename_i hfraction
    split
    · rename_i hpoint
      have hlength := List.length_pos_iff.2 hne
      have hfront : (ds.take (ds.length + e).toNat).length = (ds.length + e).toNat := by
        rw [List.length_take]
        omega
      refine .point (List.take_append_drop _ ds).symm ?_ ?_ ?_ hlimit
      · exact List.ne_nil_of_length_pos (by omega)
      · exact List.ne_nil_of_length_pos (by rw [List.length_drop]; omega)
      · omega
    · rename_i hsmall
      rw [List.cons_append, List.cons_append]
      exact .small (by omega) hleast

theorem written_scientific {ds : List Char} {n : ℤ} (hne : ds ≠ []) (hout : n ≤ -6 ∨ 21 < n) :
    Written ds n (interpolated.scientific ds (n - 1)) := by
  have hexponent : (if n - 1 < 0 then ['-'] else if interpolated.marksPlus then ['+'] else []) ++
      Nat.toDigits 10 (n - 1).natAbs = exponentText (n - 1) := by
    rw [exponentText, show interpolated.marksPlus = true from rfl]
    split <;> rfl
  unfold scientific
  dsimp only
  rw [List.append_assoc, List.cons_append, hexponent]
  match ds with
  | [d] => exact .digit rfl hout
  | d :: e :: rest =>
    rw [List.cons_append]
    exact .digits rfl (List.cons_ne_nil _ _) hout

theorem written_render (d : Decimal) :
    Written (Nat.toDigits 10 d.digits) (d.exponent + (Nat.toDigits 10 d.digits).length)
      (interpolated.render d).toList := by
  have hne : Nat.toDigits 10 d.digits ≠ [] := List.ne_nil_of_length_pos Nat.length_toDigits_pos
  unfold render
  dsimp only
  rw [String.toList_ofList]
  split
  · rename_i hpositional
    obtain ⟨hleast, hlimit⟩ := hpositional
    change (-6 : ℤ) ≤ _ at hleast
    change _ < (21 : ℤ) at hlimit
    exact written_positional hne (by omega) (by omega)
  · rename_i hscientific
    change ¬ ((-6 : ℤ) ≤ _ ∧ _ < (21 : ℤ)) at hscientific
    exact written_scientific hne (by omega)

end Layout

/-! ## 2. Digits -/

namespace Binary64

theorem HasDigits.pos {k s : ℕ} (h : HasDigits k s) : 0 < s :=
  lt_of_lt_of_le (Nat.pow_pos (by decide)) h.2.1

theorem HasDigits.length {k s : ℕ} (h : HasDigits k s) : (Nat.toDigits 10 s).length = k := by
  obtain ⟨hk, hle, hlt⟩ := h
  refine le_antisymm ((Nat.length_toDigits_le_iff (by decide) hk).2 hlt) ?_
  by_contra hshort
  have hpos : 0 < (Nat.toDigits 10 s).length := Nat.length_toDigits_pos
  have hsmall := (Nat.length_toDigits_le_iff (k := k - 1) (by decide) (by omega)).1
    (show (Nat.toDigits 10 s).length ≤ k - 1 by omega)
  omega

theorem hasDigits_length {s : ℕ} (h : 0 < s) : HasDigits (Nat.toDigits 10 s).length s :=
  ⟨Nat.length_toDigits_pos, length_toDigits_bounds h⟩

theorem toDigits_mul_pow {s : ℕ} (h : 0 < s) (j : ℕ) :
    Nat.toDigits 10 (s * 10 ^ j) = Nat.toDigits 10 s ++ List.replicate j '0' := by
  induction j with
  | zero => rw [pow_zero, Nat.mul_one, List.replicate_zero, List.append_nil]
  | succ j ih =>
    have hpos : 0 < s * 10 ^ j := Nat.mul_pos h (Nat.pow_pos (by decide))
    rw [pow_succ, ← Nat.mul_assoc, Nat.mul_comm (s * 10 ^ j), ← Nat.add_zero (10 * (s * 10 ^ j)),
      ← Nat.toDigits_append_toDigits (by decide) hpos (by decide : 0 < 10), ih, List.append_assoc,
      List.replicate_succ']
    rfl

theorem toDigits_injective {a b : ℕ} (h : Nat.toDigits 10 a = Nat.toDigits 10 b) : a = b := by
  rw [← Nat.ofDigitChars_ten_toDigits (n := a), h, Nat.ofDigitChars_ten_toDigits]

-- A text of digits only can only be a whole number.
theorem written_toDigits_iff {s n : ℕ} (hs : 0 < s) {m : ℤ} :
    Written (Nat.toDigits 10 s) m (Nat.toDigits 10 n) ↔
      ∃ j : ℕ, n = s * 10 ^ j ∧ m = (Nat.toDigits 10 s).length + j ∧ m ≤ 21 := by
  have hdigit : ∀ c ∈ Nat.toDigits 10 n, c.isDigit = true := fun c hc =>
    Nat.isDigit_of_mem_toDigits (by decide) (by decide) hc
  constructor
  · intro h
    generalize htext : Nat.toDigits 10 n = text at h hdigit
    cases h with
    | @whole j hn hlimit =>
      rw [← toDigits_mul_pow hs] at htext
      exact ⟨j, toDigits_injective htext, hn, hlimit⟩
    | point => exact absurd (hdigit '.' (by simp)) (by decide)
    | small => exact absurd (hdigit '.' (by simp)) (by decide)
    | digit => exact absurd (hdigit 'e' (by simp)) (by decide)
    | digits => exact absurd (hdigit '.' (by simp)) (by decide)
  · rintro ⟨j, rfl, hm, hlimit⟩
    rw [toDigits_mul_pow hs]
    exact .whole hm hlimit

/-! ## 3. The standard's text -/

/-- The text that the standard gives a number: a shortest decimal that rounds to it, closest to it
    among those, in its layout and behind its sign. -/
inductive Standard (x : Binary64) : String → Prop
  | nan (h : x.isNaN = true) : Standard x "NaN"
  | infinity (h : x.isInfinite = true) : Standard x (x.signed "Infinity")
  | zero (h : x.isZero = true) : Standard x "0"
  | number {k s : ℕ} {n : ℤ} {cs : List Char} (hfinite : x.isFinite = true)
      (hzero : x.isZero = false) (h : x.Shortest k s n) (hw : Written (Nat.toDigits 10 s) n cs) :
      Standard x (x.signed (String.ofList cs))

section Standard

variable {x : Binary64} (hfinite : x.isFinite = true) (hzero : x.isZero = false)
include hfinite hzero

theorem standard_render : x.Standard (x.signed (Layout.interpolated.render x.shortest)) := by
  obtain ⟨k, hk⟩ := exists_shortest hfinite hzero
  have hwritten := Layout.written_render x.shortest
  rw [hk.digits.length] at hwritten
  have htext : Layout.interpolated.render x.shortest =
      String.ofList (Layout.interpolated.render x.shortest).toList := String.ofList_toList.symm
  rw [htext]
  exact .number hfinite hzero hk hwritten

end Standard

/-! ## 4. Whole numbers -/

theorem magnitude?_eq_some_iff {x : Binary64} {n : ℕ} :
    x.magnitude? = some n ↔ x.isFinite = true ∧ x.magnitude = n := by
  have hone := one_pos
  have hwhole : x.magnitude = n ↔ x.scaled = n * one := by
    rw [magnitude_eq, div_eq_iff hone.ne']
    exact_mod_cast Iff.rfl
  rw [hwhole]
  have hunit : 0 < one := Nat.cast_pos.1 hone
  unfold magnitude?
  split
  · rename_i hexact
    rw [Bool.and_eq_true, beq_iff_eq] at hexact
    rw [Option.some.injEq, Nat.div_eq_iff_eq_mul_left hunit (Nat.dvd_of_mod_eq_zero hexact.2)]
    exact (and_iff_right hexact.1).symm
  · rename_i hinexact
    refine iff_of_false nofun fun ⟨hfinite, hscaled⟩ => hinexact ?_
    rw [hfinite, hscaled, Nat.mul_mod_left]
    rfl

theorem isNaN_of_isFinite {x : Binary64} (h : x.isFinite = true) : x.isNaN = false := by
  rw [isFinite, bne_iff_ne] at h
  rw [isNaN, beq_eq_false_iff_ne.2 h, Bool.false_and]

theorem isInfinite_of_isFinite {x : Binary64} (h : x.isFinite = true) : x.isInfinite = false := by
  rw [isFinite, bne_iff_ne] at h
  rw [isInfinite, beq_eq_false_iff_ne.2 h, Bool.false_and]

section Finite

variable {x : Binary64} (hfinite : x.isFinite = true) (hzero : x.isZero = false)
include hfinite hzero

theorem interpolation_of_finite :
    x.interpolation =
      match x.magnitude? with
      | some n =>
        x.signed (if n < Nat.pow 10 21 then n.repr else Layout.interpolated.render x.shortest)
      | none => x.signed (Layout.interpolated.render x.shortest) := by
  rw [interpolation, isNaN_of_isFinite hfinite, isInfinite_of_isFinite hfinite, hzero]
  rfl

theorem interpolation_of_lt {n : ℕ} (hn : x.magnitude = n) (hlt : n < 10 ^ 21) :
    x.interpolation = x.signed n.repr := by
  rw [interpolation_of_finite hfinite hzero, magnitude?_eq_some_iff.2 ⟨hfinite, hn⟩]
  exact congrArg x.signed (if_pos hlt)

theorem interpolation_of_not_lt (h : ∀ n : ℕ, x.magnitude = n → ¬ n < 10 ^ 21) :
    x.interpolation = x.signed (Layout.interpolated.render x.shortest) := by
  rw [interpolation_of_finite hfinite hzero]
  split
  · rename_i n hn
    exact congrArg x.signed (if_neg (h n (magnitude?_eq_some_iff.1 hn).2))
  · rfl

end Finite

theorem signed_injective (x : Binary64) {a b : String} (h : x.signed a = x.signed b) : a = b := by
  unfold signed at h
  split at h
  · exact (String.append_right_inj _).1 h
  · exact h

/-- A shortest decimal does not end in a zero. -/
theorem Shortest.not_ten_dvd {x : Binary64} {k s : ℕ} {m : ℤ} (h : x.Shortest k s m) :
    ¬ 10 ∣ s := by
  rintro ⟨t, rfl⟩
  obtain ⟨hk, hle, hlt⟩ := h.digits
  obtain ⟨j, rfl⟩ : ∃ j, k = j + 2 := by
    refine ⟨k - 2, ?_⟩
    have hone : k ≠ 1 := by
      rintro rfl
      omega
    omega
  have hdigits : HasDigits (j + 1) t := by
    rw [show j + 2 - 1 = j + 1 from rfl, pow_succ] at hle
    rw [show j + 2 = j + 1 + 1 from rfl, pow_succ] at hlt
    exact ⟨by omega, by rw [Nat.add_sub_cancel]; omega, by omega⟩
  have hsame : (t * 10 ^ (m - (j + 1 : ℕ)) : ℚ) = (10 * t : ℕ) * 10 ^ (m - (j + 2 : ℕ)) := by
    rw [show m - (j + 1 : ℕ) = m - (j + 2 : ℕ) + 1 by omega, zpow_add_one₀ (by norm_num)]
    push_cast
    ring
  have hshorter := h.least (j + 1) t m hdigits (by rw [hsame]; exact h.rounds)
  omega

/-- A shortest decimal that is a whole number ends where its digits do or further to the left. -/
theorem Shortest.exists_zeros {x : Binary64} {k s n : ℕ} {m : ℤ} (h : x.Shortest k s m)
    (hexact : s * 10 ^ (m - k) = (n : ℚ)) : ∃ j : ℕ, n = s * 10 ^ j ∧ m = k + j := by
  rcases le_or_gt (k : ℤ) m with hle | hlt
  · obtain ⟨j, rfl⟩ : ∃ j : ℕ, m = k + j := ⟨(m - k).toNat, by omega⟩
    refine ⟨j, ?_, rfl⟩
    rw [add_sub_cancel_left, zpow_natCast] at hexact
    exact_mod_cast hexact.symm
  · obtain ⟨j, hj⟩ : ∃ j : ℕ, m - k = -(j + 1 : ℕ) := ⟨(k - m).toNat - 1, by omega⟩
    rw [hj, zpow_neg, zpow_natCast, ← div_eq_mul_inv, div_eq_iff (by positivity)] at hexact
    have hdvd : s = n * 10 ^ (j + 1) := by exact_mod_cast hexact
    exact absurd ⟨n * 10 ^ j, by rw [hdvd, pow_succ]; ring⟩ h.not_ten_dvd

section Whole

variable {x : Binary64} {n : ℕ} (hfinite : x.isFinite = true) (hzero : x.isZero = false)
include hfinite hzero

/-- All digits of a whole number are the standard's text of it if they are a shortest decimal. -/
theorem standard_repr_iff (hlt : n < 10 ^ 21) :
    x.Standard (x.signed n.repr) ↔
      ∃ k s m, x.Shortest k s m ∧ s * 10 ^ (m - k : ℤ) = (n : ℚ) := by
  constructor
  · intro h
    generalize htext : x.signed n.repr = text at h
    cases h with
    | nan h => rw [isNaN_of_isFinite hfinite] at h; cases h
    | infinity h => rw [isInfinite_of_isFinite hfinite] at h; cases h
    | zero h => rw [hzero] at h; cases h
    | number _ _ h hw =>
      have hdigits := congrArg String.toList (x.signed_injective htext)
      rw [String.toList_ofList] at hdigits
      rw [← hdigits, Nat.toList_repr] at hw
      obtain ⟨j, hj, hm, -⟩ := (written_toDigits_iff h.digits.pos).1 hw
      refine ⟨_, _, _, h, ?_⟩
      rw [hm, h.digits.length, add_sub_cancel_left, zpow_natCast, hj]
      push_cast
      rfl
  · rintro ⟨k, s, m, h, hexact⟩
    obtain ⟨j, hj, hm⟩ := h.exists_zeros hexact
    obtain ⟨hk, hle, -⟩ := h.digits
    have hlimit : m ≤ 21 := by
      have hpow : 10 ^ (k - 1 + j) < 10 ^ 21 := by
        rw [pow_add]
        exact lt_of_le_of_lt (Nat.mul_le_mul_right _ hle) (hj ▸ hlt)
      have hexponent := (Nat.pow_lt_pow_iff_right (by decide)).1 hpow
      omega
    refine .number hfinite hzero h ((written_toDigits_iff h.digits.pos).2 ⟨j, hj, ?_, hlimit⟩)
    rw [hm, h.digits.length]

variable (hn : x.magnitude = n)
include hn

omit hfinite hzero in
/-- Below `2 ^ 53` numbers are less than two apart. -/
theorem ulp_lt_of_lt (hsafe : n < 2 ^ 53) : x.ulp < 2 * one := by
  have hscaled : x.scaled = n * one := by
    have hcast : (x.scaled : ℚ) = n * one := by rw [scaled_eq_mul, hn]
    exact_mod_cast hcast
  have hpos : 0 < one := Nat.cast_pos.1 one_pos
  by_contra hle
  rw [not_lt] at hle
  have hnormal : x.exponent ≠ 0 := by
    intro hexponent
    rw [ulp, hexponent] at hle
    change 2 * one ≤ 1 at hle
    omega
  have hsignificand : 2 ^ 52 ≤ x.significand := by
    rw [significand, if_neg hnormal]
    exact Nat.le_add_right _ _
  have hlarge : 2 ^ 52 * (2 * one) ≤ x.scaled := Nat.mul_le_mul hsignificand hle
  have hsmall : n * one < 2 ^ 53 * one := Nat.mul_lt_mul_of_pos_right hsafe hpos
  omega

/-- Below `2 ^ 53` no other whole number rounds to a whole number. -/
theorem eq_of_catches (hsafe : n < 2 ^ 53) {w : ℕ} (hw : x.Catches w) : w = n := by
  have hone := one_pos
  have hscaled : (x.scaled : ℚ) = n * one := by rw [scaled_eq_mul, hn]
  have hulp : (x.ulp : ℚ) < 2 * one := by
    exact_mod_cast ulp_lt_of_lt hn hsafe
  have hslack : (x.slack : ℚ) ≤ 2 * x.ulp := by
    have hle : x.slack ≤ 2 * x.ulp := by
      rw [slack]
      split <;> omega
    exact_mod_cast hle
  rw [catches_iff hfinite hzero, Rounding.Holds, rounding_low hzero, rounding_high, hscaled] at hw
  have hnear : (n : ℚ) - 1 < w ∧ (w : ℚ) < n + 1 := by
    constructor
    · refine (mul_lt_mul_iff_right₀ (show (0 : ℚ) < 4 * one by linarith)).1 ?_
      rcases hw with ⟨hlow, -⟩ | ⟨-, hw | hw⟩ <;> linarith
    · refine (mul_lt_mul_iff_right₀ (show (0 : ℚ) < 4 * one by linarith)).1 ?_
      rcases hw with ⟨-, hhigh⟩ | ⟨-, hw | hw⟩ <;> linarith
  have hlower : (n : ℚ) < (w + 1 : ℕ) := by
    rw [Nat.cast_succ]
    linarith only [hnear.1]
  have hupper : (w : ℚ) < (n + 1 : ℕ) := by
    rw [Nat.cast_succ]
    exact hnear.2
  exact le_antisymm (Nat.le_of_lt_succ (Nat.cast_lt.1 hupper))
    (Nat.le_of_lt_succ (Nat.cast_lt.1 hlower))

/-- Below `2 ^ 53` the shortest decimal of a whole number is the number itself. -/
theorem Shortest.exact (hsafe : n < 2 ^ 53) {k s : ℕ} {m : ℤ} (h : x.Shortest k s m) :
    s * 10 ^ (m - k) = (n : ℚ) := by
  have hself : x.Catches n := hn ▸ catches_magnitude hfinite hzero
  rcases le_or_gt (k : ℤ) m with hle | hlt
  · obtain ⟨j, hj⟩ : ∃ j : ℕ, m - k = j := ⟨(m - k).toNat, by omega⟩
    have hwhole : (s * 10 ^ (m - k) : ℚ) = (s * 10 ^ j : ℕ) := by
      rw [hj, zpow_natCast]
      push_cast
      rfl
    have hrounds := h.rounds
    rw [hwhole] at hrounds ⊢
    rw [eq_of_catches hfinite hzero hn hsafe hrounds]
  · -- the power of ten with the leading digit of `n` lies in between, so that it is `n`
    have hpos : 0 < n := by
      have hmagnitude := lt_of_lt_of_le (zpow_pos (by norm_num) _) (decade_bounds hzero).1
      rw [hn] at hmagnitude
      exact Nat.cast_pos.1 hmagnitude
    obtain ⟨l, hl⟩ : ∃ l, (Nat.toDigits 10 n).length = l + 1 :=
      ⟨(Nat.toDigits 10 n).length - 1, (Nat.sub_add_cancel Nat.length_toDigits_pos).symm⟩
    have hdigits := hasDigits_length hpos
    rw [hl] at hdigits
    have hlength : k ≤ l + 1 := by
      refine h.least (l + 1) n (l + 1 : ℕ) hdigits ?_
      rwa [sub_self, zpow_zero, mul_one]
    have hbelow : (s * 10 ^ (m - k) : ℚ) ≤ (10 ^ l : ℕ) := by
      rw [Nat.cast_pow, Nat.cast_ofNat, ← zpow_natCast]
      exact (h.digits.bounds m).2.le.trans (zpow_le_zpow_right₀ (by norm_num) (by omega))
    have habove : ((10 ^ l : ℕ) : ℚ) ≤ n := Nat.cast_le.2 hdigits.2.1
    have hpower : 10 ^ l = n := eq_of_catches hfinite hzero hn hsafe
      (h.rounds.between hfinite hzero hself hbelow habove)
    have hpoint : (10 : ℚ) ^ (l : ℤ) = n := by
      rw [zpow_natCast, ← hpower, Nat.cast_pow, Nat.cast_ofNat]
    obtain ⟨-, hclosest⟩ := h.le_of_power (p := l) (by rwa [hpoint])
    rw [hpoint, hn, sub_self, abs_zero] at hclosest
    linarith [abs_nonpos_iff.1 hclosest]

end Whole

/-! ## 5. The borders of positional notation -/

/-- The number nearest to a millionth. -/
def millionth : Binary64 := ⟨0x3eb0c6f7a0b5ed8d⟩

/-- The number `10 ^ 21`. -/
def sextillion : Binary64 := ⟨0x444b1ae4d6e2ef50⟩

theorem catches_iff_contains {x : Binary64} (hfinite : x.isFinite = true) (hzero : x.isZero = false)
    {v : ℚ} {n d : ℕ} (hd : 0 < d) (hv : v * d = n) :
    x.Catches v ↔ x.rounding.contains (4 * one * n) d = true := by
  have hpos : (0 : ℚ) < d := Nat.cast_pos.2 hd
  have hpoint : ((4 * one * n : ℕ) : ℚ) / d = 4 * one * v := by
    rw [div_eq_iff hpos.ne', mul_assoc (4 * (one : ℚ)), hv, Nat.cast_mul, Nat.cast_mul, Nat.cast_ofNat]
  rw [Rounding.contains_iff hd, hpoint, catches_iff hfinite hzero]

theorem magnitude_le_iff {x y : Binary64} : x.magnitude ≤ y.magnitude ↔ x.low ≤ y.low := by
  rw [magnitude_eq, magnitude_eq, div_le_div_iff_of_pos_right one_pos, Nat.cast_le, scaled_eq,
    scaled_eq, strictMono_scaledAt.le_iff_le]

/-- A power of ten rounds to the number `b`, and the largest decimal of one digit below it does
    not. -/
structure Border (b : Binary64) (p : ℤ) : Prop where
  finite : b.isFinite = true
  nonzero : b.isZero = false
  power : b.Catches (10 ^ p)
  before : ¬ b.Catches (9 * 10 ^ (p - 1))

theorem Catches.lt {x y : Binary64} (hx : x.isFinite = true ∧ x.isZero = false)
    (hy : y.isFinite = true ∧ y.isZero = false) {v w : ℚ} (hv : x.Catches v) (hw : y.Catches w)
    (hlow : x.low < y.low) : v < w := by
  rw [catches_iff hx.1 hx.2] at hv
  rw [catches_iff hy.1 hy.2] at hw
  exact lt_of_mul_lt_mul_left (hv.lt hw hlow) (mul_pos (by norm_num) one_pos).le

-- The interval only depends on the bits below the sign.
theorem catches_congr {x y : Binary64} (hx : x.isFinite = true ∧ x.isZero = false)
    (hy : y.isFinite = true ∧ y.isZero = false) (hlow : x.low = y.low) (v : ℚ) :
    x.Catches v ↔ y.Catches v := by
  have hrounding : x.rounding = y.rounding := by
    simp only [rounding, significand, scaled_eq, ulp_eq, exponent_eq, fraction_eq, hlow]
  rw [catches_iff hx.1 hx.2, catches_iff hy.1 hy.2, hrounding]

/-- The shortest decimals reach a power of ten with the number that it rounds to. -/
theorem Border.le_iff {b x : Binary64} {p : ℤ} (hb : b.Border p) (hfinite : x.isFinite = true)
    (hzero : x.isZero = false) {k s : ℕ} {n : ℤ} (h : x.Shortest k s n) :
    b.magnitude ≤ x.magnitude ↔ p < n := by
  obtain ⟨hlower, hupper⟩ := h.digits.bounds n
  rw [magnitude_le_iff]
  constructor
  · intro hle
    by_contra hshort
    have hpower : (10 : ℚ) ^ n ≤ 10 ^ p := zpow_le_zpow_right₀ (by norm_num) (by omega)
    rcases hle.eq_or_lt with hsame | hlt
    · -- the power of ten is a decimal of one digit, and all shorter ones of one digit are too small
      have hcongr := catches_congr ⟨hb.finite, hb.nonzero⟩ ⟨hfinite, hzero⟩ hsame
      have hpower' := (hcongr _).1 hb.power
      obtain ⟨rfl, -⟩ := h.le_of_power hpower'
      have hnine : (s * 10 ^ (n - (1 : ℕ)) : ℚ) ≤ 9 * 10 ^ (p - 1) := by
        have hs : (s : ℚ) ≤ 9 := by exact_mod_cast Nat.le_of_lt_succ h.digits.2.2
        have hstep : (10 : ℚ) ^ (n - (1 : ℕ) : ℤ) ≤ 10 ^ (p - 1) :=
          zpow_le_zpow_right₀ (by norm_num) (by omega)
        gcongr
      have hten : (9 * 10 ^ (p - 1) : ℚ) ≤ 10 ^ p := by
        rw [show (10 : ℚ) ^ p = 10 ^ (p - 1 + 1) by rw [sub_add_cancel], zpow_add_one₀ (by norm_num)]
        have hpos : (0 : ℚ) < 10 ^ (p - 1) := zpow_pos (by norm_num) _
        linarith
      exact hb.before ((hcongr _).2 (h.rounds.between hfinite hzero hpower' hnine hten))
    · have hreach := hb.power.lt ⟨hb.finite, hb.nonzero⟩ ⟨hfinite, hzero⟩ h.rounds hlt
      linarith
  · intro hlong
    by_contra hlt
    have hreach := h.rounds.lt ⟨hfinite, hzero⟩ ⟨hb.finite, hb.nonzero⟩ hb.power (not_le.1 hlt)
    have hpower : (10 : ℚ) ^ p ≤ 10 ^ (n - 1) := zpow_le_zpow_right₀ (by norm_num) (by omega)
    linarith

theorem border_millionth : millionth.Border (-6) where
  finite := by decide +kernel
  nonzero := by decide +kernel
  power := by
    rw [catches_iff_contains (by decide +kernel) (by decide +kernel) (by decide : 0 < 10 ^ 6)
      (show (10 : ℚ) ^ (-6 : ℤ) * (10 ^ 6 : ℕ) = (1 : ℕ) by norm_num)]
    decide +kernel
  before := by
    rw [catches_iff_contains (by decide +kernel) (by decide +kernel) (by decide : 0 < 10 ^ 7)
      (show 9 * (10 : ℚ) ^ (-6 - 1 : ℤ) * (10 ^ 7 : ℕ) = (9 : ℕ) by norm_num)]
    decide +kernel

theorem border_sextillion : sextillion.Border 21 where
  finite := by decide +kernel
  nonzero := by decide +kernel
  power := by
    rw [catches_iff_contains (by decide +kernel) (by decide +kernel) (by decide : 0 < 1)
      (show (10 : ℚ) ^ (21 : ℤ) * (1 : ℕ) = (10 ^ 21 : ℕ) by norm_num)]
    decide +kernel
  before := by
    rw [catches_iff_contains (by decide +kernel) (by decide +kernel) (by decide : 0 < 1)
      (show 9 * (10 : ℚ) ^ (21 - 1 : ℤ) * (1 : ℕ) = (9 * 10 ^ 20 : ℕ) by norm_num)]
    decide +kernel

end Binary64

/-! ## 6. The text of a number -/

open Binary64

/-- The number is whole, and so large that its digits need not all be needed, but below `1e21`. -/
def Binary64.Spelled (x : Binary64) (n : ℕ) : Prop :=
  x.isFinite = true ∧ x.magnitude = n ∧ 2 ^ 53 ≤ n ∧ n < 10 ^ 21

theorem Binary64.standard_of_not_spelled {x : Binary64} (h : ∀ n, ¬ x.Spelled n) :
    x.Standard x.interpolation := by
  by_cases hnan : x.isNaN = true
  · rw [interpolation, if_pos hnan]
    exact .nan hnan
  by_cases hinfinite : x.isInfinite = true
  · rw [interpolation, if_neg hnan, if_pos hinfinite]
    exact .infinity hinfinite
  by_cases hzero : x.isZero = true
  · rw [interpolation, if_neg hnan, if_neg hinfinite, if_pos hzero]
    exact .zero hzero
  have hfinite : x.isFinite = true := by
    rw [isFinite, bne_iff_ne]
    intro hexponent
    rw [isNaN, hexponent] at hnan
    rw [isInfinite, hexponent] at hinfinite
    simp at hnan hinfinite
    exact hinfinite hnan
  rw [Bool.not_eq_true] at hzero
  by_cases hwhole : ∃ n : ℕ, x.magnitude = n ∧ n < 10 ^ 21
  · obtain ⟨n, hn, hlt⟩ := hwhole
    have hsafe : n < 2 ^ 53 := by
      by_contra hlarge
      exact h n ⟨hfinite, hn, not_lt.1 hlarge, hlt⟩
    obtain ⟨k, hk⟩ := exists_shortest hfinite hzero
    rw [interpolation_of_lt hfinite hzero hn hlt, standard_repr_iff hfinite hzero hlt]
    exact ⟨k, _, _, hk, hk.exact hfinite hzero hn hsafe⟩
  · rw [interpolation_of_not_lt hfinite hzero fun n hn hlt => hwhole ⟨n, hn, hlt⟩]
    exact standard_render hfinite hzero

/-- **The text of a number** is the standard's, unless the number is whole, at least `2 ^ 53` and
    below `10 ^ 21`.  Such a number is written with all its digits, which is the standard's text if
    and only if they are a shortest decimal.  The borders of positional notation are those of the
    numbers: a millionth and `10 ^ 21`. -/
theorem Value.number_text (x : Binary64) :
    ((∀ n, ¬ x.Spelled n) → x.Standard (Value.number x).display) ∧
      (∀ n, x.Spelled n →
        (Value.number x).display = x.signed n.repr ∧
          (x.Standard (Value.number x).display ↔
            ∃ k s m, x.Shortest k s m ∧ s * 10 ^ (m - k : ℤ) = (n : ℚ))) ∧
      RoundsTo (10 ^ (-6 : ℤ)) millionth ∧
      ∀ k s m, x.isZero = false → x.Shortest k s m →
        ((-6 < m ↔ millionth.magnitude ≤ x.magnitude) ∧ (m ≤ 21 ↔ x.magnitude < 10 ^ 21)) := by
  refine ⟨standard_of_not_spelled, ?_, ?_, ?_⟩
  · rintro n ⟨hfinite, hn, hlarge, hlt⟩
    have hzero : x.isZero = false := by
      rw [← Bool.not_eq_true, isZero_iff]
      intro hlow
      rw [magnitude_eq, scaled_eq, hlow, show scaledAt 0 = 0 from rfl, Nat.cast_zero, zero_div] at hn
      have hnone : n = 0 := by exact_mod_cast hn.symm
      omega
    have htext : (Value.number x).display = x.signed n.repr := interpolation_of_lt hfinite hzero hn hlt
    exact ⟨htext, htext ▸ standard_repr_iff hfinite hzero hlt⟩
  · have hpower := border_millionth.power
    rwa [Catches, show millionth.sign = 1 from if_neg (by decide +kernel), one_mul] at hpower
  · intro k s m hzero h
    have hfinite : x.isFinite = true := h.rounds.1
    refine ⟨(border_millionth.le_iff hfinite hzero h).symm, ?_⟩
    have hsextillion : sextillion.magnitude = 10 ^ 21 := by
      have hwhole : sextillion.magnitude? = some (10 ^ 21) := by decide +kernel
      rw [(magnitude?_eq_some_iff.1 hwhole).2, Nat.cast_pow, Nat.cast_ofNat]
    rw [← hsextillion, ← not_le, border_sextillion.le_iff hfinite hzero h, not_lt]

/-- The number `2 ^ 64`. -/
def wordCount : Binary64 := ⟨0x43f0000000000000⟩

/-- Seventeen digits suffice for the number `2 ^ 64`, and all twenty are written. -/
theorem Value.number_text_wordCount :
    (Value.number wordCount).display = "18446744073709551616" ∧
      ¬ wordCount.Standard "18446744073709551616" ∧
      wordCount.Standard "18446744073709552000" := by
  have hfinite : wordCount.isFinite = true := by decide +kernel
  have hzero : wordCount.isZero = false := by decide +kernel
  refine ⟨by decide +kernel, fun h => ?_, ?_⟩
  · have hexact : wordCount.signed (18446744073709551616 : ℕ).repr = "18446744073709551616" := by
      decide +kernel
    rw [← hexact, standard_repr_iff hfinite hzero (by decide)] at h
    obtain ⟨k, s, m, hs, hvalue⟩ := h
    have hseventeen :
        wordCount.Catches ((18446744073709552 : ℕ) * 10 ^ (20 - (17 : ℕ) : ℤ)) := by
      rw [catches_iff_contains hfinite hzero (by decide : 0 < 1)
        (show ((18446744073709552 : ℕ) * 10 ^ (20 - (17 : ℕ) : ℤ) : ℚ) * (1 : ℕ) =
          (18446744073709552000 : ℕ) by norm_num)]
      decide +kernel
    have hk : k ≤ 17 :=
      hs.least 17 18446744073709552 20 ⟨by decide, by decide, by decide⟩ hseventeen
    have hshort : s < 10 ^ 17 := lt_of_lt_of_le hs.digits.2.2 (Nat.pow_le_pow_right (by decide) hk)
    obtain ⟨j, hj, -⟩ := hs.exists_zeros hvalue
    cases j with
    | zero =>
      rw [pow_zero, Nat.mul_one] at hj
      omega
    | succ j =>
      have hten : 18446744073709551616 % 10 = 0 := by
        rw [hj, pow_succ, ← Nat.mul_assoc, Nat.mul_mod_left]
      exact absurd hten (by decide)
  · have hshortest : wordCount.signed (Layout.interpolated.render wordCount.shortest) =
        "18446744073709552000" := by decide +kernel
    exact hshortest ▸ standard_render hfinite hzero

end ReactiveView
