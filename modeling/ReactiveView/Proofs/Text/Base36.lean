import Mathlib.Algebra.Group.Nat.Defs
import ReactiveView.Text.Base36

/-!
# Reading numerals back

Every number is read back from its numeral, so that different numbers have different numerals.
-/

namespace ReactiveView.Text.Base36

theorem decodeFrom_cons {d : Nat} (h : d < 36) (acc : Nat) (cs : List Char) :
    decodeFrom acc (digitChar d :: cs) = decodeFrom (36 * acc + d) cs := by
  rw [decodeFrom, digitValue?_digitChar h]
  rfl

-- As long as the fuel lasts, the digits before `rest` denote the number.
theorem decodeFrom_digitsBefore {fuel n : Nat} (h : n < 36 ^ fuel) (rest : List Char) :
    decodeFrom 0 (digitsBefore fuel n rest) = decodeFrom n rest := by
  induction fuel generalizing n rest with
  | zero =>
    have hn : n = 0 := by omega
    rw [hn, digitsBefore]
  | succ fuel ih =>
    rw [digitsBefore]
    by_cases hn : n < 36
    · rw [if_pos hn, decodeFrom_cons hn, Nat.mul_zero, Nat.zero_add]
    · have hdiv : n / 36 < 36 ^ fuel := by
        rw [Nat.pow_succ] at h
        omega
      have hmod : n % 36 < 36 := Nat.mod_lt n (by omega)
      rw [if_neg hn, ih hdiv, decodeFrom_cons hmod, Nat.div_add_mod]

theorem lt_pow_log2 (n : Nat) : n < 36 ^ (n.log2 + 1) :=
  Nat.lt_of_lt_of_le Nat.lt_log2_self (Nat.pow_le_pow_left (by omega) _)

-- Every number is read back.
theorem decodeFrom_encode (n : Nat) : decodeFrom 0 (encode n).toList = some n := by
  rw [encode, String.toList_ofList]
  exact decodeFrom_digitsBefore (lt_pow_log2 n) []

/-- **Different numbers have different numerals.** -/
theorem encode_injective {m n : Nat} (h : encode m = encode n) : m = n := by
  have hm := decodeFrom_encode m
  rw [h, decodeFrom_encode n] at hm
  exact (Option.some.inj hm).symm

theorem decodeFrom_append (acc : Nat) (cs ds : List Char) :
    decodeFrom acc (cs ++ ds) = (decodeFrom acc cs).bind fun n => decodeFrom n ds := by
  induction cs generalizing acc with
  | nil => rfl
  | cons c cs ih =>
    rw [List.cons_append, decodeFrom, decodeFrom]
    cases digitValue? c with
    | none => rfl
    | some d => exact ih _

-- More digits never denote less.
theorem le_of_decodeFrom {acc n : Nat} {cs : List Char} (h : decodeFrom acc cs = some n) :
    acc ≤ n := by
  induction cs generalizing acc with
  | nil => exact Nat.le_of_eq (Option.some.inj h)
  | cons c cs ih =>
    rw [decodeFrom] at h
    obtain ⟨d, -, h⟩ := Option.bind_eq_some_iff.1 h
    have hle := ih h
    omega

-- What can be read consists of digits.
theorem digits_of_decodeFrom {acc n : Nat} {cs : List Char} (h : decodeFrom acc cs = some n) :
    ∀ c ∈ cs, ∃ d, digitValue? c = some d := by
  induction cs generalizing acc with
  | nil => exact fun c hc => nomatch hc
  | cons c cs ih =>
    rw [decodeFrom] at h
    obtain ⟨d, hd, h⟩ := Option.bind_eq_some_iff.1 h
    intro c' hc'
    rcases List.mem_cons.1 hc' with rfl | hc'
    · exact ⟨d, hd⟩
    · exact ih h c' hc'

theorem encode_ne_nil (n : Nat) : (encode n).toList ≠ [] := by
  have hread : ∀ {fuel n rest}, rest ≠ [] → digitsBefore fuel n rest ≠ [] := by
    intro fuel
    induction fuel with
    | zero => exact fun h => h
    | succ fuel ih =>
      intro n rest _
      rw [digitsBefore]
      split
      · exact List.cons_ne_nil _ _
      · exact ih (List.cons_ne_nil _ _)
  rw [encode, String.toList_ofList, digitsBefore]
  split
  · exact List.cons_ne_nil _ _
  · exact hread (List.cons_ne_nil _ _)

-- The numeral of a number does not begin with that of a greater one.
theorem encode_append_ne {m n : Nat} (h : m < n) (cs : List Char) :
    (encode n).toList ++ cs ≠ (encode m).toList := by
  intro heq
  have hm := decodeFrom_encode m
  rw [← heq, decodeFrom_append, decodeFrom_encode, Option.bind_some] at hm
  exact Nat.not_lt.2 (le_of_decodeFrom hm) h

end ReactiveView.Text.Base36
