import ReactiveView.Config
import ReactiveView.Document
import ReactiveView.Store
import ReactiveView.Template

/-!
# Pages

A page is a document together with the observables, templates and views that live on it.  It is a
first-order state: what client code does when it is called stands outside, and the page holds only
the labels of type `κ` by which that code is found.
-/

namespace ReactiveView

/-- The identity of a binding table. -/
structure TableId where
  index : Nat
  deriving DecidableEq, Repr, Inhabited

/-- The identity of a compiler. -/
structure CompilerId where
  index : Nat
  deriving DecidableEq, Repr, Inhabited

/-- The identity of a mounted view. -/
structure EngineId where
  index : Nat
  deriving DecidableEq, Repr, Inhabited

/-- What methods run with: the data of a view and its methods. -/
structure Receiver (κ : Type) where
  data : ObjectId
  methods : Fields κ
  deriving Repr

/-- What a watcher does when its property differs from the baseline. -/
inductive Reaction (κ : Type) where
  -- Client code.
  | client (code : κ)
  -- Another render of the compiler that made the watcher.
  | render (compiler : CompilerId)
  deriving Repr

/-- What a listener does with an event. -/
inductive Listener (κ : Type) where
  -- Client code.
  | client (code : κ)
  -- The one of these methods that the table binds to the target of the event, run with a
  -- receiver.
  | delegate (table : TableId) (methods : Fields κ) (receiver : Receiver κ)
  deriving Repr

/-- A template that is rendered into an element. -/
structure Compiler where
  template : Template
  data : ObjectId
  root : ElementId
  table : TableId
  ids : IdSource
  -- Whether a render has come as far as the markup.
  initialized : Bool := false
  renders : Nat := 0
  -- The watchers made so far, one for each placeholder.
  watchers : List WatcherId := []
  -- The id drawn last.
  lastId : Option String := none
  -- The markup of the last render that the document took.
  lastMarkup : String := ""
  deriving Repr

/-- A mounted view. -/
structure Engine (κ : Type) where
  root : ElementId
  compiler : CompilerId
  receiver : Receiver κ
  -- The event types that got a listener when the view was mounted.
  boundTypes : List String
  deriving Repr

/-- The observable data of a view. -/
def Engine.data {κ : Type} (e : Engine κ) : ObjectId := e.receiver.data

/-- Something that keeps others alive, or is kept alive. -/
inductive Node where
  | object (o : ObjectId)
  | registry (r : RegistryId)
  | watcher (w : WatcherId)
  | compiler (c : CompilerId)
  | engine (e : EngineId)
  deriving DecidableEq, Repr

/-- A page. -/
structure Page (κ : Type) where
  store : Store (Reaction κ) := {}
  document : Document (Listener κ) := {}
  tables : Arena BindingTable := {}
  compilers : Arena Compiler := {}
  engines : Arena (Engine κ) := {}
  -- The random words that are still to come.
  entropy : Entropy := fun _ => 0

namespace Page

variable {κ : Type}

/-! ## 1. Look-ups -/

def compiler? (p : Page κ) (c : CompilerId) : Option Compiler := p.compilers.get? c.index

def engine? (p : Page κ) (e : EngineId) : Option (Engine κ) := p.engines.get? e.index

def table (p : Page κ) (t : TableId) : BindingTable := (p.tables.get? t.index).getD .empty

/-- The table that a compiler fills. -/
def tableOf (p : Page κ) (c : CompilerId) : BindingTable :=
  match p.compiler? c with
  | some compiler => p.table compiler.table
  | none => .empty

/-! ## 2. Changes of one part -/

def modifyCompiler (p : Page κ) (c : CompilerId) (f : Compiler → Compiler) : Page κ :=
  { p with compilers := p.compilers.modify c.index f }

def modifyTable (p : Page κ) (t : TableId) (f : BindingTable → BindingTable) : Page κ :=
  { p with tables := p.tables.modify t.index f }

/-- A new empty binding table. -/
def newTable (p : Page κ) : TableId × Page κ :=
  (⟨p.tables.size⟩, { p with tables := p.tables.push .empty })

/-- A new compiler that has not rendered yet. -/
def newCompiler (p : Page κ) (template : Template) (data : ObjectId) (root : ElementId)
    (t : TableId) (ids : IdSource) : CompilerId × Page κ :=
  (⟨p.compilers.size⟩,
    { p with compilers := p.compilers.push { template, data, root, table := t, ids } })

/-- A page whose document has elements with these ids. -/
def ofIds (ids : List String) (entropy : Entropy) : Page κ :=
  { document := .ofIds ids, entropy }

end Page

end ReactiveView
