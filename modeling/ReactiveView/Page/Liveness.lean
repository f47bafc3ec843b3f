import ReactiveView.Page

/-!
# Lifetimes

Observables, watchers, compilers and views live as long as something refers to them.  Lifetimes are
those of reference counts: what is held from outside and what the page itself holds is alive, and so
is what something alive refers to; things that only refer to each other in a circle keep each other
alive.  The living are thus the largest set in which everything is held or referred to from within
the set.  Nothing is ever removed from a page, so the set is computed when somebody asks.
-/

namespace ReactiveView

/-- The slot's nested observable, if it has one. -/
def Slot.nested? : Slot → Option ObjectId
  | plain _ => none
  | nested o => some o

namespace Page

variable {κ : Type}

/-! ## 1. References -/

/-- What a node keeps alive.  A watcher does not keep its source alive, nor the compiler that it
    renders. -/
def references (p : Page κ) : Node → List Node
  | .object o =>
    match p.store.object? o with
    | none => []
    | some object =>
      .registry (.ofObject o) :: (object.slots.filterMap fun e => e.2.nested?).map .object
  | .registry r => (p.store.registered r).map .watcher
  | .watcher w =>
    match p.store.watcher? w with
    | none => []
    | some watcher => watcher.baseline.proxy?.toList.map .object
  | .compiler c =>
    match p.compiler? c with
    | none => []
    | some compiler => .object compiler.data :: compiler.watchers.map .watcher
  | .engine e =>
    match p.engine? e with
    | none => []
    | some engine => [.compiler engine.compiler, .object engine.data]

/-- The receiver that a listener holds. -/
def listenerHolds : Listener κ → List Node
  | .client _ => []
  | .delegate _ _ receiver => [.object receiver.data]

/-- What the page itself holds: the watchers that collect, and the receivers of the listeners. -/
def anchors (p : Page κ) : List Node :=
  (p.store.trees.toList.filterMap (·.active)).map .watcher ++
    p.document.elements.toList.flatMap fun e => e.listeners.flatMap fun l => listenerHolds l.2

/-! ## 2. The living -/

/-- The observables of a tree with their registries, and its watchers. -/
def treeNodes (t : TreeId) (tree : Tree (Reaction κ)) : List Node :=
  ((List.range tree.objects.size).flatMap fun i =>
      [.object ⟨t, i⟩, .registry (.ofObject ⟨t, i⟩)]) ++
    (List.range tree.watchers.size).map fun i => .watcher ⟨t, i⟩

/-- Every node of the page. -/
def nodes (p : Page κ) : List Node :=
  ((List.range p.store.trees.size).flatMap fun i => treeNodes ⟨i⟩ (p.store.tree ⟨i⟩)) ++
    (List.range p.store.registries.size).map (fun i => .registry (.free i)) ++
    (List.range p.compilers.size).map (fun i => .compiler ⟨i⟩) ++
    (List.range p.engines.size).map (fun i => .engine ⟨i⟩)

/-- Those of `ns` that are held or that one of `ns` refers to. -/
def supported (p : Page κ) (held ns : List Node) : List Node :=
  let targets := held ++ ns.flatMap p.references
  ns.filter fun n => targets.contains n

/-- Removes what nothing refers to, over and over, at most `rounds` times. -/
def settle (p : Page κ) (held : List Node) : (rounds : Nat) → List Node → List Node
  | 0, ns => ns
  | rounds + 1, ns =>
    let kept := p.supported held ns
    if kept.length = ns.length then ns else p.settle held rounds kept

/-- The living nodes, where `held` is held from outside.  A round that changes anything removes a
    node, so there are enough rounds. -/
def living (p : Page κ) (held : List Node) : List Node :=
  p.settle (held ++ p.anchors) p.nodes.length p.nodes

/-- Whether a node is alive, where `held` is held from outside.  What is held, and what that refers
    to, is alive without further search. -/
def alive (p : Page κ) (held : List Node) (n : Node) : Bool :=
  let roots := held ++ p.anchors
  roots.contains n || (roots.flatMap p.references).contains n || (p.living held).contains n

end Page

end ReactiveView
