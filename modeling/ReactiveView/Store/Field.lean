import ReactiveView.Value

/-!
# Fields of observed objects

What a read through an observable gives: a scalar, or the identity of the observable that now
stands for a nested object.
-/

namespace ReactiveView

/-- The identity of a data tree. -/
structure TreeId where
  index : Nat
  deriving DecidableEq, Repr, Inhabited

/-- The identity of an observable: its data tree, and its place there. -/
structure ObjectId where
  tree : TreeId
  index : Nat
  deriving DecidableEq, Repr, Inhabited

/-- The identity of a watcher: the data tree that it watches, and its place there.  The number that
    a watcher shows is another one; attempts that failed have used up numbers too. -/
structure WatcherId where
  tree : TreeId
  index : Nat
  deriving DecidableEq, Repr, Inhabited

/-- The identity of a registry of watchers. -/
inductive RegistryId where
  -- The registry that belongs to an observable.
  | ofObject (o : ObjectId)
  -- A registry that belongs to none.
  | free (index : Nat)
  deriving DecidableEq, Repr

/-- The result of reading a property. -/
inductive Field where
  -- A value that is not an object.
  | value (v : Value)
  -- A nested object, as its observable.
  | proxy (o : ObjectId)
  deriving Inhabited, Repr

namespace Field

/-- What an absent property reads as. -/
def absent : Field := value .undefined

def truthy : Field → Bool
  | value v => v.truthy
  | proxy _ => true

def display : Field → String
  | value v => v.display
  | proxy _ => Value.objectText

/-- Strict equality: scalars by value, nested objects by identity. -/
def strictEqual : Field → Field → Bool
  | value a, value b => a.strictEqual b
  | proxy a, proxy b => a == b
  | _, _ => false

/-- The nested observable, if the field is one. -/
def proxy? : Field → Option ObjectId
  | value _ => none
  | proxy o => some o

theorem eq_proxy {f : Field} {n : ObjectId} (h : f.proxy? = some n) : f = .proxy n := by
  cases f with
  | value v => cases h
  | proxy m =>
    cases h
    rfl

end Field

end ReactiveView
