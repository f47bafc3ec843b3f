import ReactiveView.Text.Blank

/-!
# Id attributes

The `id=` attributes of a piece of markup.  An attribute stands at the start of the markup or behind
a blank; its value is quoted on both sides, or is a non-empty run of characters that are neither
blanks nor quotes nor `>` nor `/`.  Attributes are read from left to right without overlaps.
-/

namespace ReactiveView.IdAttribute

/-! ## 1. Values -/

/-- Whether `c` may stand in a value without quotes. -/
def isBareChar (c : Char) : Bool :=
  !Text.isBlank c && !(['>', '"', '\x27', '/'].contains c)

/-- The text before the next `quote`, if there is one. -/
def quotedValue? (quote : Char) (cs : List Char) : Option (List Char) :=
  let value := cs.takeWhile (· != quote)
  if value.length == cs.length then none else some value

/-- The value that `cs` begins with, and the length of its written form. -/
def value? : List Char → Option (List Char × Nat)
  | [] => none
  | c :: rest =>
    if c = '"' ∨ c = '\x27' then (quotedValue? c rest).map fun v => (v, v.length + 2)
    else
      let value := (c :: rest).takeWhile isBareChar
      if value.isEmpty then none else some (value, value.length)

/-! ## 2. Attributes -/

/-- The value of the attribute that begins with its name, and the length of the attribute. -/
def named? : List Char → Option (List Char × Nat)
  | 'i' :: 'd' :: '=' :: rest => (value? rest).map fun v => (v.1, v.2 + 3)
  | _ => none

/-- The attribute that `cs` begins with: at the start of the markup with its name, anywhere with
    the blank before it. -/
def at? (start : Bool) (cs : List Char) : Option (List Char × Nat) :=
  (if start then named? cs else none).or <|
    match cs with
    | c :: rest => if Text.isBlank c then (named? rest).map fun v => (v.1, v.2 + 1) else none
    | [] => none

/-- The values of the attributes of a piece of markup of which the first `skip` characters belong
    to an attribute already read. -/
def valuesFrom : (start : Bool) → (skip : Nat) → List Char → List String
  | _, _, [] => []
  | _, skip + 1, _ :: rest => valuesFrom false skip rest
  | start, 0, c :: rest =>
    match at? start (c :: rest) with
    | some v => String.ofList v.1 :: valuesFrom false (v.2 - 1) rest
    | none => valuesFrom false 0 rest

/-- The values of the id attributes of `markup`, in order. -/
def values (markup : String) : List String := valuesFrom true 0 markup.toList

end ReactiveView.IdAttribute
