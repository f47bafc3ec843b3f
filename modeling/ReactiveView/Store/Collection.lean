import ReactiveView.Failure
import ReactiveView.Store.Access

/-!
# Collecting

Within one data tree at most one watcher collects at a time.  A new watcher gets the next number of
the tree, collects while it reads its property for the first time, and keeps the field it read as
its baseline for good.  Where another watcher is collecting the attempt fails; only the number is
used up.
-/

namespace ReactiveView.Store

variable {ρ : Type}

/-! ## 1. The collecting watcher -/

/-- Lets `w` collect in a tree. -/
def occupy (s : Store ρ) (t : TreeId) (w : WatcherId) : Store ρ :=
  s.modifyTree t fun tree => { tree with active := some w }

/-- Ends the collection in a tree. -/
def vacate (s : Store ρ) (t : TreeId) : Store ρ :=
  s.modifyTree t fun tree => { tree with active := none }

/-- Lets `w` collect in a tree, unless another watcher is collecting there. -/
def begin (s : Store ρ) (t : TreeId) (w : WatcherId) : Except ReactiveError (Store ρ) :=
  match s.active t with
  | some a => .error (.collecting (s.number a) (s.number w))
  | none => .ok (s.occupy t w)

/-! ## 2. New watchers -/

/-- Gives out the next watcher number of a tree. -/
def issue (s : Store ρ) (t : TreeId) : Nat × Store ρ :=
  ((s.tree t).issued + 1, s.modifyTree t fun tree => { tree with issued := tree.issued + 1 })

/-- A new watcher of a property. -/
def watch (s : Store ρ) (o : ObjectId) (key : String) (reaction : ρ) :
    Except ReactiveError WatcherId × Store ρ :=
  let (number, s) := s.issue o.tree
  match s.active o.tree with
  | some a => (.error (.collecting (s.number a) number), s)
  | none =>
    let (w, s) := s.addWatcher o.tree ⟨number, o, key, reaction, .absent⟩
    let (field, s) := (s.occupy o.tree w).get o key
    (.ok w, (s.vacate o.tree).modifyWatcher w fun watcher => { watcher with baseline := field })

end ReactiveView.Store
