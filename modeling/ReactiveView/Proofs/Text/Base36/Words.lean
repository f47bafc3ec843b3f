import ReactiveView.Proofs.Text.Base36

/-!
# Numerals of 64-bit words

The numeral of a word has at most 13 digits and no zero in front.  Repeated division of the word
gives the same digits, the last one first.
-/

namespace ReactiveView.Text.Base36

/-! ## 1. The form of a numeral -/

/-- The text `s` is the numeral of `n`, as far as the numbers below `2 ^ 64` go. -/
structure Numeral (n : Nat) (s : String) : Prop where
  nonempty : 1 ≤ s.toList.length
  short : s.toList.length ≤ 13
  digits : ∀ c ∈ s.toList, ('0' ≤ c ∧ c ≤ '9') ∨ ('a' ≤ c ∧ c ≤ 'z')
  leading : s.toList.head? = some '0' → n = 0
  value : decode s = some n

theorem digitChar_range {d : Nat} (h : d < 36) :
    ('0' ≤ digitChar d ∧ digitChar d ≤ '9') ∨ ('a' ≤ digitChar d ∧ digitChar d ≤ 'z') := by
  revert d
  decide

theorem digitChar_eq_zero {d : Nat} (h : d < 36) (hd : digitChar d = '0') : d = 0 := by
  revert d
  decide

theorem length_digitsBefore {fuel n k : Nat} (h : n < 36 ^ (k + 1)) (rest : List Char) :
    (digitsBefore fuel n rest).length ≤ k + 1 + rest.length := by
  induction fuel generalizing n k rest with
  | zero =>
    rw [digitsBefore]
    omega
  | succ fuel ih =>
    rw [digitsBefore]
    by_cases hn : n < 36
    · rw [if_pos hn, List.length_cons]
      omega
    · rw [if_neg hn]
      cases k with
      | zero => omega
      | succ k =>
        have hdiv : n / 36 < 36 ^ (k + 1) := by
          rw [Nat.pow_succ] at h
          omega
        have hlength := ih hdiv (digitChar (n % 36) :: rest)
        rw [List.length_cons] at hlength
        omega

theorem digitsBefore_range {fuel n : Nat} {rest : List Char}
    (h : ∀ c ∈ rest, ('0' ≤ c ∧ c ≤ '9') ∨ ('a' ≤ c ∧ c ≤ 'z')) :
    ∀ c ∈ digitsBefore fuel n rest, ('0' ≤ c ∧ c ≤ '9') ∨ ('a' ≤ c ∧ c ≤ 'z') := by
  induction fuel generalizing n rest with
  | zero => exact h
  | succ fuel ih =>
    rw [digitsBefore]
    split
    · rename_i hn
      intro c hc
      rcases List.mem_cons.1 hc with rfl | hc
      · exact digitChar_range hn
      · exact h c hc
    · apply ih
      intro c hc
      rcases List.mem_cons.1 hc with rfl | hc
      · exact digitChar_range (Nat.mod_lt n (by omega))
      · exact h c hc

-- The first digit is the last quotient, which is not zero.
theorem head?_digitsBefore {fuel n : Nat} (h : n < 36 ^ fuel) (hn : n ≠ 0) (rest : List Char) :
    (digitsBefore fuel n rest).head? ≠ some '0' := by
  induction fuel generalizing n rest with
  | zero => omega
  | succ fuel ih =>
    rw [digitsBefore]
    split
    · rename_i hlt
      intro hhead
      exact hn (digitChar_eq_zero hlt (Option.some.inj hhead))
    · apply ih
      · rw [Nat.pow_succ] at h
        omega
      · omega

theorem decode_encode (n : Nat) : decode (encode n) = some n := by
  have hne : (encode n).isEmpty = false := by
    rw [Bool.eq_false_iff, Ne, String.isEmpty_iff]
    intro hempty
    apply encode_ne_nil n
    rw [hempty]
    rfl
  rw [decode, hne]
  exact decodeFrom_encode n

/-- **The numerals of 64-bit words.** -/
theorem numeral_encode {n : Nat} (h : n < 2 ^ 64) : Numeral n (encode n) := by
  have hlist : (encode n).toList = digitsBefore (n.log2 + 1) n [] := by
    rw [encode, String.toList_ofList]
  constructor
  · exact List.length_pos_iff.2 (encode_ne_nil n)
  · have hlt : n < 36 ^ (12 + 1) := by omega
    rw [hlist]
    exact length_digitsBefore hlt []
  · rw [hlist]
    exact digitsBefore_range fun c hc => absurd hc List.not_mem_nil
  · intro hhead
    rw [hlist] at hhead
    apply Decidable.byContradiction
    intro hn
    exact head?_digitsBefore (lt_pow_log2 n) hn [] hhead
  · exact decode_encode n

/-! ## 2. Repeated division -/

/-- The digits of a word, the last one first: remainders, until the quotient is zero. -/
def remainders (n : UInt64) : List Char :=
  if n = 0 then [] else digitChar (n % 36).toNat :: remainders (n / 36)
termination_by n.toNat
decreasing_by
  rename_i hn
  have hpos : n.toNat ≠ 0 := fun h => hn (UInt64.toNat.inj h)
  rw [UInt64.toNat_div]
  exact Nat.div_lt_self (Nat.pos_of_ne_zero hpos) (by decide)

/-- The numeral of a word by repeated division. -/
def encodeWord (n : UInt64) : String :=
  if n = 0 then "0" else String.ofList (remainders n).reverse

theorem digitsBefore_remainders {fuel : Nat} {n : UInt64} (h : n.toNat < 36 ^ fuel) (hn : n ≠ 0)
    (rest : List Char) : digitsBefore fuel n.toNat rest = (remainders n).reverse ++ rest := by
  induction fuel generalizing n rest with
  | zero =>
    have hzero : n.toNat = 0 := by omega
    exact absurd (UInt64.toNat.inj hzero) hn
  | succ fuel ih =>
    have hdiv : (n / 36).toNat = n.toNat / 36 := UInt64.toNat_div n 36
    have hmod : (n % 36).toNat = n.toNat % 36 := UInt64.toNat_mod n 36
    rw [digitsBefore, remainders, if_neg hn, List.reverse_cons, List.append_assoc, hmod]
    by_cases hlt : n.toNat < 36
    · have hzero : n / 36 = 0 := UInt64.toNat.inj (by rw [hdiv]; exact Nat.div_eq_of_lt hlt)
      rw [if_pos hlt, hzero, remainders, if_pos rfl, Nat.mod_eq_of_lt hlt]
      rfl
    · have hne : n / 36 ≠ 0 := by
        intro hzero
        rw [hzero] at hdiv
        have hpos : n.toNat / 36 = 0 := hdiv.symm
        omega
      have hless : (n / 36).toNat < 36 ^ fuel := by
        rw [hdiv]
        rw [Nat.pow_succ] at h
        omega
      rw [if_neg hlt, ← hdiv, ih hless hne]
      rfl

/-- **Repeated division gives the numeral.** -/
theorem encodeWord_eq (n : UInt64) : encodeWord n = encode n.toNat := by
  unfold encodeWord
  split
  · rename_i hn
    rw [hn]
    rfl
  · rename_i hn
    rw [encode, digitsBefore_remainders (lt_pow_log2 _) hn, List.append_nil]

example : encodeWord 18446744073709551615 = "3w5e11264sgsf" := by
  rw [encodeWord_eq]
  decide +kernel

end ReactiveView.Text.Base36
