import ReactiveView.Arena
import ReactiveView.Store.Field

/-!
# The store of observables

Observables come in data trees.  A tree has a root, the observables of the objects nested in it as
far as they have been read, and the watchers of all of these; its observables share the state of
collection.  Each observable has the slots of one object and a registry of its own.  A slot holds
plain data until it is first read: an object found in it is then wrapped in place, so that every
later read gives the same observable.
-/

namespace ReactiveView

/-- What a property holds. -/
inductive Slot where
  | plain (v : Value)
  -- An object that has been read, as its observable.
  | nested (o : ObjectId)
  deriving Inhabited, Repr

/-- An observable. -/
structure Object where
  slots : Fields Slot
  -- The watchers of the object's registry, in the order of registration and with repeats.
  registered : List WatcherId := []
  deriving Inhabited, Repr

/-- The interest in one property of one observable; `ρ` is what reactions are made of. -/
structure Watcher (ρ : Type) where
  -- The number given out by the tree, from 1 on.
  number : Nat
  source : ObjectId
  property : String
  reaction : ρ
  -- The field read when the watcher was created.
  baseline : Field
  deriving Repr

/-- A data tree. -/
structure Tree (ρ : Type) where
  objects : Arena Object := {}
  watchers : Arena (Watcher ρ) := {}
  -- The watcher that is collecting.
  active : Option WatcherId := none
  -- How many watcher numbers have been given out.
  issued : Nat := 0
  deriving Repr

/-- All data trees, and the registries outside them. -/
structure Store (ρ : Type) where
  trees : Arena (Tree ρ) := {}
  registries : Arena (List WatcherId) := {}
  deriving Repr

namespace Store

variable {ρ : Type}

/-! ## 1. Look-ups -/

/-- The data tree of this identity; one that is not there is empty. -/
def tree (s : Store ρ) (t : TreeId) : Tree ρ := (s.trees.get? t.index).getD {}

def object? (s : Store ρ) (o : ObjectId) : Option Object := (s.tree o.tree).objects.get? o.index

def watcher? (s : Store ρ) (w : WatcherId) : Option (Watcher ρ) :=
  (s.tree w.tree).watchers.get? w.index

/-- The watchers of a registry, in the order of registration. -/
def registered (s : Store ρ) : RegistryId → List WatcherId
  | .ofObject o =>
    match s.object? o with
    | some object => object.registered
    | none => []
  | .free i => (s.registries.get? i).getD []

/-- The number that a watcher shows. -/
def number (s : Store ρ) (w : WatcherId) : Nat :=
  match s.watcher? w with
  | some watcher => watcher.number
  | none => 0

/-- The watcher that is collecting in a tree. -/
def active (s : Store ρ) (t : TreeId) : Option WatcherId := (s.tree t).active

/-! ## 2. Changes of one entry -/

def modifyTree (s : Store ρ) (t : TreeId) (f : Tree ρ → Tree ρ) : Store ρ :=
  { s with trees := s.trees.modify t.index f }

def modifyObject (s : Store ρ) (o : ObjectId) (f : Object → Object) : Store ρ :=
  s.modifyTree o.tree fun t => { t with objects := t.objects.modify o.index f }

def modifyWatcher (s : Store ρ) (w : WatcherId) (f : Watcher ρ → Watcher ρ) : Store ρ :=
  s.modifyTree w.tree fun t => { t with watchers := t.watchers.modify w.index f }

def setSlot (s : Store ρ) (o : ObjectId) (key : String) (slot : Slot) : Store ρ :=
  s.modifyObject o fun object => { object with slots := object.slots.insert key slot }

/-- Puts plain data into a slot, whatever it held. -/
def write (s : Store ρ) (o : ObjectId) (key : String) (v : Value) : Store ρ :=
  s.setSlot o key (.plain v)

/-- Adds a watcher behind those of a registry, also if it is among them. -/
def register (s : Store ρ) (r : RegistryId) (w : WatcherId) : Store ρ :=
  match r with
  | .ofObject o =>
    s.modifyObject o fun object => { object with registered := object.registered ++ [w] }
  | .free i => { s with registries := s.registries.modify i (· ++ [w]) }

/-! ## 3. New entries -/

/-- A new registry outside the trees, without watchers. -/
def newRegistry (s : Store ρ) : RegistryId × Store ρ :=
  (.free s.registries.size, { s with registries := s.registries.push [] })

/-- A new data tree without observables. -/
def newTree (s : Store ρ) : TreeId × Store ρ :=
  (⟨s.trees.size⟩, { s with trees := s.trees.push {} })

/-- A new observable of a tree, over plain data. -/
def wrapIn (s : Store ρ) (t : TreeId) (fields : Fields Value) : ObjectId × Store ρ :=
  (⟨t, (s.tree t).objects.size⟩,
    s.modifyTree t fun tree =>
      { tree with objects := tree.objects.push { slots := Fields.mapValues .plain fields } })

/-- A new observable over plain data, the root of a tree of its own. -/
def wrap (s : Store ρ) (fields : Fields Value) : ObjectId × Store ρ :=
  let (t, s) := s.newTree
  s.wrapIn t fields

/-- A new watcher of a tree. -/
def addWatcher (s : Store ρ) (t : TreeId) (watcher : Watcher ρ) : WatcherId × Store ρ :=
  (⟨t, (s.tree t).watchers.size⟩,
    s.modifyTree t fun tree => { tree with watchers := tree.watchers.push watcher })

end Store

end ReactiveView
