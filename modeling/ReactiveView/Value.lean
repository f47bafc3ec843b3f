import ReactiveView.Fields
import ReactiveView.Number.Layout

/-!
# Values

Plain data: what a view model supplies and what a property holds before anyone observes it.  The
display text and the truth value are those of template interpolation; strict equality compares
scalars only, because a plain object has no identity.
-/

namespace ReactiveView

/-- A plain value.  `undefined` is what an absent property reads as. -/
inductive Value where
  | undefined
  | null
  | bool (b : Bool)
  | number (n : Binary64)
  | text (s : String)
  | object (fields : List (String × Value))
  deriving Inhabited, Repr

namespace Value

/-! ## 1. Reading a value -/

def isObject : Value → Bool
  | object _ => true
  | _ => false

/-- Zero, NaN, the empty text, `null` and `undefined` count as false. -/
def truthy : Value → Bool
  | undefined => false
  | null => false
  | bool b => b
  | number n => !n.isZero && !n.isNaN
  | text s => !s.isEmpty
  | object _ => true

/-- The text of an object, whatever it holds. -/
def objectText : String := "[object Object]"

/-- The text that stands for the value in a rendered template. -/
def display : Value → String
  | undefined => "undefined"
  | null => "null"
  | bool b => if b then "true" else "false"
  | number n => n.interpolation
  | text s => s
  | object _ => objectText

/-! ## 2. Equalities -/

/-- Strict equality: scalars of one kind by value, numbers as numbers.  Two plain objects are never
    strictly equal. -/
def strictEqual : Value → Value → Bool
  | undefined, undefined => true
  | null, null => true
  | bool a, bool b => a == b
  | number a, number b => a.equal b
  | text a, text b => a == b
  | _, _ => false

mutual

/-- Structural equality, with numbers compared as numbers: a value holding a NaN differs from
    itself. -/
def sameAs : Value → Value → Bool
  | undefined, undefined => true
  | null, null => true
  | bool a, bool b => a == b
  | number a, number b => a.equal b
  | text a, text b => a == b
  | object as, object bs => sameFields as bs
  | _, _ => false

/-- Structural equality of field lists, key by key. -/
def sameFields : List (String × Value) → List (String × Value) → Bool
  | [], [] => true
  | (k, a) :: as, (l, b) :: bs => k == l && sameAs a b && sameFields as bs
  | _, _ => false

end

/-! ## 3. Objects -/

/-- The fields of an object, each key once and in ascending order. -/
def ofFields (entries : List (String × Value)) : Value := object (Fields.ofList entries)

mutual

/-- Every object inside the value has its keys in strictly ascending order. -/
def WellFormed : Value → Prop
  | object fields => Fields.Ordered fields ∧ WellFormedFields fields
  | _ => True

/-- Every value in the list is well formed. -/
def WellFormedFields : List (String × Value) → Prop
  | [] => True
  | (_, v) :: rest => WellFormed v ∧ WellFormedFields rest

end

end Value

end ReactiveView
