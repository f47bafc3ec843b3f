import ReactiveView.Store

/-!
# Reading observables

A read wraps a nested object at its first access and registers the watcher that is collecting in
the data tree, if there is one, with the object that is read — also when it has no such property.
A snapshot is a deep plain copy; it neither wraps nor registers.
-/

namespace ReactiveView.Store

variable {ρ : Type}

/-! ## 1. Reading a property -/

/-- The field under a key; an object found there in plain form is wrapped first. -/
def resolve (s : Store ρ) (o : ObjectId) (key : String) : Field × Store ρ :=
  match (s.object? o).bind fun object => Fields.get? object.slots key with
  | none => (.absent, s)
  | some (.nested n) => (.proxy n, s)
  | some (.plain (.object fields)) =>
    let (n, s) := s.wrapIn o.tree fields
    (.proxy n, s.setSlot o key (.nested n))
  | some (.plain v) => (.value v, s)

/-- Registers the watcher that is collecting in the tree of `o` with `o`. -/
def collectAt (s : Store ρ) (o : ObjectId) : Store ρ :=
  match s.active o.tree with
  | some w => s.register (.ofObject o) w
  | none => s

/-- Reads a property. -/
def get (s : Store ρ) (o : ObjectId) (key : String) : Field × Store ρ :=
  let (field, s) := s.resolve o key
  (field, s.collectAt o)

/-- Reads several properties in turn and keeps their display texts. -/
def getTexts (s : Store ρ) (o : ObjectId) : List String → List String × Store ρ
  | [] => ([], s)
  | key :: keys =>
    let (field, s) := s.get o key
    let (texts, s) := s.getTexts o keys
    (field.display :: texts, s)

/-! ## 2. Looking without reading -/

def contains (s : Store ρ) (o : ObjectId) (key : String) : Bool :=
  match s.object? o with
  | some object => Fields.contains object.slots key
  | none => false

/-- The property names, in ascending order. -/
def keys (s : Store ρ) (o : ObjectId) : List String :=
  match s.object? o with
  | some object => Fields.keys object.slots
  | none => []

/-- The plain form of an observable, down to `depth` levels of nesting. -/
def snapshotTo (s : Store ρ) : (depth : Nat) → ObjectId → Value
  | 0, _ => .object []
  | depth + 1, o =>
    match s.object? o with
    | none => .object []
    | some object =>
      .object (Fields.mapValues (fun
        | .plain v => v
        | .nested n => s.snapshotTo depth n) object.slots)

/-- The plain form of an observable.  No nesting is deeper than there are observables in the
    tree. -/
def snapshot (s : Store ρ) (o : ObjectId) : Value :=
  s.snapshotTo (s.tree o.tree).objects.size o

end ReactiveView.Store
