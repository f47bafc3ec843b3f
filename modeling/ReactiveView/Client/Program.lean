import ReactiveView.Page.Mount

/-!
# Client programs

What client code does, as a tree of requests: a program asks the page for operations and goes on
with their replies, or their failures, as it likes.  It may also look at the page and keep a state
of its own, of type `σ`.  Code is stored on the page by label; a client says which program each
label stands for.
-/

namespace ReactiveView

/-! ## 1. Requests -/

/-- What client code can ask a page for. -/
inductive Operation (κ : Type) where
  -- Observe an object, in a data tree of its own unless one is given.
  | observe (v : Value) (tree : Option TreeId)
  | get (o : ObjectId) (key : String)
  | set (o : ObjectId) (key : String) (v : Value)
  | watch (o : ObjectId) (key : String) (code : κ)
  -- Compare a watcher's property with its baseline, and react if they differ.
  | update (w : WatcherId)
  | newRegistry
  | register (r : RegistryId) (w : WatcherId)
  -- Update the watchers of a registry.
  | notify (r : RegistryId)
  -- Whether something is still alive.
  | isAlive (n : Node)
  | createElement (id : String)
  | setMarkup (e : ElementId) (markup : String)
  | listen (e : ElementId) (type : String) (code : κ)
  -- Let the document refuse the next writes and registrations.
  | refuse (writes listens : Nat)
  -- Send an event to an inner element, up to the listeners of its root.
  | dispatch (root : ElementId) (type target : String)
  -- Hand an event to the listeners for `type`, whatever the markup shows.
  | deliver (root : ElementId) (type : String) (event : Event)
  -- A new compiler, with a table of its own unless one is given.
  | newCompiler (template : String) (data : ObjectId) (root : ElementId) (ids : IdSource)
      (table : Option TableId)
  | compile (c : CompilerId)
  -- Attach a delegated listener for each event type that is in a table.
  | bind (root : ElementId) (t : TableId) (methods : Fields κ) (receiver : Receiver κ)
  | mount (vm : ViewModel κ) (config : Config)
  -- Run a method.
  | call (receiver : Receiver κ) (name : String)
  deriving Repr

/-- What an operation answers when it succeeds. -/
@[reducible]
def Operation.Reply {κ : Type} : Operation κ → Type
  | observe _ _ => ObjectId
  | get _ _ => Field
  | watch _ _ _ => WatcherId
  | newRegistry => RegistryId
  | isAlive _ => Bool
  | createElement _ => ElementId
  | dispatch _ _ _ => Nat
  | deliver _ _ _ => Nat
  | newCompiler _ _ _ _ _ => CompilerId
  | bind _ _ _ _ => List String
  | mount _ _ => EngineId
  | set _ _ _ | update _ | register _ _ | notify _ | setMarkup _ _ | listen _ _ _ | refuse _ _
  | compile _ | call _ _ => Unit

/-! ## 2. Programs -/

/-- A piece of client code. -/
inductive Program (κ σ : Type) where
  | done
  | fail (error : Failure)
  -- Go on with the state of the client.
  | consult (next : σ → Program κ σ)
  -- Change the state of the client.
  | remember (change : σ → σ) (next : Program κ σ)
  -- Go on with the page as it is.
  | look (next : Page κ → Program κ σ)
  -- Ask for an operation and go on with its outcome.
  | perform (op : Operation κ) (next : Except Failure op.Reply → Program κ σ)
  -- Let a watcher collect in a data tree while the body runs, then go on with the outcome of the
  -- body.
  | collect (t : TreeId) (w : WatcherId) (body : Program κ σ)
      (next : Except Failure Unit → Program κ σ)

/-! ## 3. Clients -/

/-- A call of client code. -/
inductive Cue (κ : Type) where
  -- A watcher's property has come to differ from its baseline.
  | reaction (code : κ) (field : Field)
  -- An event has reached a listener.
  | event (code : κ) (event : Event)
  -- A method is run.
  | method (code : κ) (receiver : Receiver κ)
  deriving Repr

/-- The client of a page. -/
structure Client (κ σ : Type) where
  -- The program that a call runs.
  respond : Cue κ → Program κ σ
  -- What the client keeps alive, in a given state.
  holds : σ → List Node

/-! ## 4. Members of a receiver -/

/-- What a name means to a method. -/
inductive Member (κ : Type) where
  | data (field : Field)
  | method (code : κ)
  deriving Repr

/-- A name means the data under it if that is truthy, else the method of that name, else nothing. -/
def Receiver.member {κ : Type} (r : Receiver κ) (name : String) (field : Field) : Member κ :=
  if field.truthy then .data field
  else
    match Fields.get? r.methods name with
    | some code => .method code
    | none => .data .absent

end ReactiveView
