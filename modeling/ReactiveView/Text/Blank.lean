/-!
# Blank characters

The characters of the Unicode property `White_Space`, and the trimming of text by them.  Attribute
values, attribute names and configured settings all end at, or are stripped of, exactly these.
-/

namespace ReactiveView.Text

/-! ## 1. The property -/

/-- Whether `c` has the Unicode property `White_Space`: 25 characters. -/
def isBlank (c : Char) : Bool :=
  let n := c.toNat
  (9 ≤ n && n ≤ 13) || n == 0x20 || n == 0x85 || n == 0xa0 || n == 0x1680 ||
    (0x2000 ≤ n && n ≤ 0x200a) || n == 0x2028 || n == 0x2029 || n == 0x202f || n == 0x205f ||
    n == 0x3000

/-! ## 2. Trimming -/

/-- `cs` without the blanks at its end. -/
def trimEnd (cs : List Char) : List Char :=
  (cs.reverse.dropWhile isBlank).reverse

/-- `s` without the blanks at its two ends. -/
def trim (s : String) : String :=
  String.ofList (trimEnd (s.toList.dropWhile isBlank))

/-- Whether `s` holds nothing but blanks; this is when `trim s` is empty. -/
def isAllBlank (s : String) : Bool :=
  s.toList.all isBlank

/-! ## 3. Letter case -/

/-- `s` with the ASCII capital letters made small; every other character stays. -/
def lowerAscii (s : String) : String :=
  s.map Char.toLower

end ReactiveView.Text
