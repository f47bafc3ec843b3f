import ReactiveView.Number.Shortest

/-!
# Number texts

The text of a decimal, positional or with an exponent, and the three texts of a number that this
library writes: the one that templates interpolate, the diagnostic one and the one of JSON.
-/

namespace ReactiveView

/-! ## 1. Laying out a decimal -/

/-- Where positional notation begins and ends, and how the two notations are marked. -/
structure Layout where
  -- The least exponent of the leading digit that is written positionally.
  least : Int
  -- The first exponent of the leading digit that is no longer written positionally.
  limit : Int
  -- Whether a whole number written positionally ends in `.0`.
  marksWhole : Bool
  -- Whether exponents that are not negative carry a plus sign.
  marksPlus : Bool
  deriving Repr

namespace Layout

/-- Positional notation of the digits `ds` times `10 ^ exponent`. -/
def positional (l : Layout) (ds : List Char) (exponent : Int) : List Char :=
  let point := (ds.length : Int) + exponent
  if 0 ≤ exponent then
    ds ++ List.replicate exponent.toNat '0' ++ (if l.marksWhole then ['.', '0'] else [])
  else if 0 < point then ds.take point.toNat ++ '.' :: ds.drop point.toNat
  else '0' :: '.' :: List.replicate (-point).toNat '0' ++ ds

/-- Exponent notation of the digits `ds`, of which the first stands for `10 ^ lead`. -/
def scientific (l : Layout) (ds : List Char) (lead : Int) : List Char :=
  let mantissa := match ds with
    | [] => []
    | [d] => [d]
    | d :: rest => d :: '.' :: rest
  let sign := if lead < 0 then ['-'] else if l.marksPlus then ['+'] else []
  mantissa ++ 'e' :: sign ++ Nat.toDigits 10 lead.natAbs

/-- The text of a decimal. -/
def render (l : Layout) (d : Decimal) : String :=
  let ds := Nat.toDigits 10 d.digits
  let lead := d.exponent + ds.length - 1
  String.ofList <|
    if l.least ≤ lead ∧ lead < l.limit then l.positional ds d.exponent else l.scientific ds lead

/-- Interpolated numbers are positional from `1e-6` up to `1e21`; exponents are signed. -/
def interpolated : Layout := ⟨-6, 21, false, true⟩

/-- Diagnostic numbers are positional from `1e-4` up to `1e16`, and whole ones show it. -/
def diagnostic : Layout := ⟨-4, 16, true, false⟩

/-- JSON numbers are positional from `1e-5` up to `1e16`, and whole ones show it. -/
def json : Layout := ⟨-5, 16, true, false⟩

end Layout

/-! ## 2. Texts of a number -/

namespace Binary64

/-- A magnitude's text behind the sign of the number. -/
def signed (x : Binary64) (magnitude : String) : String :=
  if x.isNegative then "-" ++ magnitude else magnitude

/-- The text of a number in a template.  Zero has no sign.  A whole number below `1e21` is written
    with all its digits, any other number with the fewest digits that read back as it. -/
def interpolation (x : Binary64) : String :=
  if x.isNaN then "NaN"
  else if x.isInfinite then x.signed "Infinity"
  else if x.isZero then "0"
  else match x.magnitude? with
    | some n =>
      x.signed (if n < Nat.pow 10 21 then n.repr else Layout.interpolated.render x.shortest)
    | none => x.signed (Layout.interpolated.render x.shortest)

/-- The diagnostic text of a number. -/
def diagnostic (x : Binary64) : String :=
  if x.isNaN then "NaN"
  else if x.isInfinite then x.signed "inf"
  else x.signed (Layout.diagnostic.render x.shortest)

/-- The text of a finite number in JSON. -/
def json (x : Binary64) : String :=
  x.signed (Layout.json.render x.shortest)

end Binary64

end ReactiveView
