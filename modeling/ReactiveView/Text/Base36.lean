/-!
# Base-36 numerals

Natural numbers written with the digits `0`–`9` and `a`–`z`, most significant digit first and
without leading zeros, and the reading of such numerals.
-/

namespace ReactiveView.Text.Base36

/-! ## 1. Digits -/

/-- The character of a digit below 36. -/
def digitChar (d : Nat) : Char :=
  if d < 10 then Char.ofNat (48 + d) else Char.ofNat (87 + d)

/-- The digit that a character stands for, if it is `0`–`9` or `a`–`z`. -/
def digitValue? (c : Char) : Option Nat :=
  let n := c.toNat
  if 48 ≤ n ∧ n < 58 then some (n - 48)
  else if 97 ≤ n ∧ n < 123 then some (n - 87)
  else none

theorem digitValue?_digitChar {d : Nat} (h : d < 36) : digitValue? (digitChar d) = some d := by
  revert d; decide

/-! ## 2. Writing -/

/-- The digits of `n` before those of `rest`, one step of `fuel` for each. -/
def digitsBefore : (fuel n : Nat) → (rest : List Char) → List Char
  | 0, _, rest => rest
  | fuel + 1, n, rest =>
    if n < 36 then digitChar n :: rest
    else digitsBefore fuel (n / 36) (digitChar (n % 36) :: rest)

/-- The numeral of `n`.  A number has at most as many base-36 digits as binary ones, so the fuel
    never runs out. -/
def encode (n : Nat) : String :=
  String.ofList (digitsBefore (n.log2 + 1) n [])

/-! ## 3. Reading -/

/-- The number that the digits `cs` denote after the ones already read, `acc`. -/
def decodeFrom : (acc : Nat) → List Char → Option Nat
  | acc, [] => some acc
  | acc, c :: cs => (digitValue? c).bind fun d => decodeFrom (36 * acc + d) cs

/-- The number that a numeral denotes; the empty text is no numeral. -/
def decode (s : String) : Option Nat :=
  if s.isEmpty then none else decodeFrom 0 s.toList

end ReactiveView.Text.Base36
