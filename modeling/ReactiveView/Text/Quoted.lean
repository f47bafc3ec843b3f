import ReactiveView.Text.Unprinted

/-!
# Quoted text

Text between double quotes as diagnostic output shows it: quotes and backslashes are escaped, the
common control characters have their short escapes, and unprinted characters are written by
their number in hexadecimal.
-/

namespace ReactiveView.Text

/-- The hexadecimal numeral of `n`, with small letters and no leading zeros. -/
def hexadecimal (n : Nat) : String :=
  String.ofList (Nat.toDigits 16 n)

/-- A character as it stands inside quoted text. -/
def escapeChar (c : Char) : String :=
  if c = '"' then "\\\""
  else if c = '\\' then "\\\\"
  else if c = '\n' then "\\n"
  else if c = '\r' then "\\r"
  else if c = '\t' then "\\t"
  else if c.toNat = 0 then "\\0"
  else if isUnprinted c then "\\u\x7b" ++ hexadecimal c.toNat ++ "\x7d"
  else c.toString

/-- `s` between double quotes. -/
def quoted (s : String) : String :=
  "\"" ++ String.join (s.toList.map escapeChar) ++ "\""

end ReactiveView.Text
