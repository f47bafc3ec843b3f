import ReactiveView.Client.Program
import ReactiveView.Page.Liveness

/-!
# Running client code

The semantics of the operations that can call client code back: a write notifies watchers, a watcher
reacts, an event reaches listeners, a listener or a client runs a method.  Calls nest, and the depth
of nesting is the only thing that is bounded: a run of depth `n` may call client code, whose run has
depth `n - 1`.  A run that would nest deeper has no outcome, which is told apart from failing.
-/

namespace ReactiveView

/-- A page, the state of its client, and what the operations under way keep alive. -/
structure World (κ σ : Type) where
  page : Page κ
  client : σ
  pins : List Node := []

/-- A computation on a world.  It has no outcome if it nests too deeply; else it succeeds or fails,
    and leaves a world behind in either case. -/
def Run (κ σ α : Type) : Type := World κ σ → Option (Except Failure α × World κ σ)

namespace Run

variable {κ σ α β : Type}

/-! ## 1. Composing computations -/

/-- Succeeds and changes nothing. -/
protected def pure (a : α) : Run κ σ α := fun w => some (.ok a, w)

/-- Runs `f` on the answer of `x`, unless `x` fails. -/
protected def bind (x : Run κ σ α) (f : α → Run κ σ β) : Run κ σ β := fun w =>
  match x w with
  | none => none
  | some (.error error, w) => some (.error error, w)
  | some (.ok a, w) => f a w

instance : Monad (Run κ σ) where
  pure := Run.pure
  bind := Run.bind

/-- Has no outcome. -/
def exhausted : Run κ σ α := fun _ => none

def fail (error : Failure) : Run κ σ α := fun w => some (.error error, w)

/-- Reads from the page. -/
def look (f : Page κ → α) : Run κ σ α := fun w => some (.ok (f w.page), w)

/-- A change of the page. -/
def page (f : Page κ → α × Page κ) : Run κ σ α := fun w =>
  let (a, page) := f w.page
  some (.ok a, { w with page })

/-- A change of the page that may fail. -/
def attempt {ε : Type} (failure : ε → Failure) (f : Page κ → Except ε α × Page κ) : Run κ σ α :=
  fun w =>
    let (result, page) := f w.page
    some (result.mapError failure, { w with page })

/-- Changes the failure of a computation. -/
def mapFailure (f : Failure → Failure) (x : Run κ σ α) : Run κ σ α := fun w =>
  (x w).map fun r => (r.1.mapError f, r.2)

/-- Succeeds with the outcome of a computation, be it a failure. -/
def outcome (x : Run κ σ α) : Run κ σ (Except Failure α) := fun w =>
  (x w).map fun r => (.ok r.1, r.2)

/-- Keeps nodes alive during a computation. -/
def pinning (ns : List Node) (x : Run κ σ α) : Run κ σ α := fun w =>
  (x { w with pins := ns ++ w.pins }).map fun r => (r.1, { r.2 with pins := w.pins })

end Run

/-! ## 2. Operations that call client code -/

section Calls

variable {κ σ : Type} (holds : σ → List Node) (serve : Cue κ → Run κ σ Unit)

/-- Whether a node is alive now. -/
def Run.isAlive (n : Node) : Run κ σ Bool := fun w =>
  some (.ok (w.page.alive (holds w.client ++ w.pins) n), w)

/-- The reaction of a watcher to a field.  A compiler that is no longer alive does not render. -/
def Reaction.run (r : Reaction κ) (field : Field) : Run κ σ Unit :=
  match r with
  | .client code => serve (.reaction code field)
  | .render c => do
    if ← Run.isAlive holds (.compiler c) then Run.attempt .engine (·.compile c)

/-- Reads the property of a watcher, and reacts if the field differs from the baseline.  Nothing
    happens if the source is no longer alive. -/
def WatcherId.update (w : WatcherId) : Run κ σ Unit := do
  match ← Run.look (·.store.watcher? w) with
  | none => pure ()
  | some watcher =>
    if ← Run.isAlive holds (.object watcher.source) then
      let field ← Run.page fun p =>
        let (field, store) := p.store.get watcher.source watcher.property
        (field, { p with store })
      if field.strictEqual watcher.baseline then pure ()
      else
        Run.pinning (.object watcher.source :: field.proxy?.toList.map .object) <|
          Run.mapFailure
            (fun cause => .reactive (.callback watcher.number watcher.property cause)) <|
              watcher.reaction.run holds serve field

/-- Updates watchers in turn, until one fails. -/
def updateAll : List WatcherId → Run κ σ Unit
  | [] => pure ()
  | w :: ws => do
    w.update holds serve
    updateAll ws

/-- Updates the watchers that are in a registry now. -/
def RegistryId.notify (r : RegistryId) : Run κ σ Unit := do
  let ws ← Run.look (·.store.registered r)
  Run.pinning (ws.map .watcher) (updateAll holds serve ws)

/-- Stores a value and notifies the watchers of the object, whichever property they watch. -/
def ObjectId.set (o : ObjectId) (key : String) (v : Value) : Run κ σ Unit :=
  Run.pinning [.object o] do
    Run.page fun p => ((), { p with store := p.store.write o key v })
    (RegistryId.ofObject o).notify holds serve

/-- Runs the code of a method. -/
def Receiver.run (receiver : Receiver κ) (name : String) (code : κ) : Run κ σ Unit :=
  Run.pinning [.object receiver.data] <|
    Run.mapFailure (fun cause => .engine (.method name cause)) (serve (.method code receiver))

/-- Runs the method of a name. -/
def Receiver.call (receiver : Receiver κ) (name : String) : Run κ σ Unit :=
  match Fields.get? receiver.methods name with
  | none => Run.fail (.engine (.unknownMethod name))
  | some code => receiver.run serve name code

/-- What a listener does with an event.  A delegated one looks the target up in the table as it is
    now; without a target, a binding for this type or a method of that name it does nothing. -/
def Listener.run (l : Listener κ) (event : Event) : Run κ σ Unit :=
  match l with
  | .client code => serve (.event code event)
  | .delegate t methods receiver => do
    let table ← Run.look (·.table t)
    match event.target.bind fun id => table.find? id event.type with
    | none => pure ()
    | some binding =>
      match Fields.get? methods binding.method with
      | none => pure ()
      | some code => receiver.run serve binding.method code

/-- Hands an event to listeners in turn, until one fails. -/
def runListeners (event : Event) : List (Listener κ) → Run κ σ Unit
  | [] => pure ()
  | l :: ls => do
    l.run serve event
    runListeners event ls

/-- Hands an event to the listeners that an element has for `type` now, and counts them. -/
def ElementId.deliver (root : ElementId) (type : String) (event : Event) : Run κ σ Nat := do
  let listeners ← Run.look fun p =>
    match p.document.element? root with
    | some element => element.listenersFor type
    | none => []
  runListeners serve event listeners
  return listeners.length

/-- Sends an event to an inner element that the markup of `root` shows, and counts the listeners
    that it reaches. -/
def ElementId.dispatch (root : ElementId) (type target : String) : Run κ σ Nat := do
  let listeners ← Run.attempt .document fun p => (p.document.reached root type target, p)
  Run.mapFailure (fun cause => .document (.listener type cause))
    (runListeners serve ⟨type, some target⟩ listeners)
  return listeners.length

/-- Runs a body while a watcher collects in a data tree.  This keeps the watcher alive, but none of
    the objects of the tree. -/
def TreeId.collect (t : TreeId) (w : WatcherId) (body : Run κ σ Unit) : Run κ σ Unit := fun world =>
  match world.page.store.begin t w with
  | .error error => some (.error (.reactive error), world)
  | .ok store =>
    (body { world with page := { world.page with store } }).map fun r =>
      (r.1, { r.2 with page := { r.2.page with store := r.2.page.store.vacate t } })

/-! ## 3. Operations and programs -/

/-- A change of the store. -/
def Run.store {α : Type} (f : Store (Reaction κ) → α × Store (Reaction κ)) : Run κ σ α :=
  Run.page fun p =>
    let (a, store) := f p.store
    (a, { p with store })

/-- A change of the document that may be refused. -/
def Run.document {α : Type}
    (f : Document (Listener κ) → Except DocumentError α × Document (Listener κ)) : Run κ σ α :=
  Run.attempt .document fun p =>
    let (result, document) := f p.document
    (result, { p with document })

/-- Observes an object. -/
def Value.observe (v : Value) (tree : Option TreeId) : Run κ σ ObjectId :=
  match v with
  | .object fields =>
    match tree with
    | none => Run.store (·.wrap fields)
    | some t => Run.store (·.wrapIn t fields)
  | other => Run.fail (.reactive (.notAnObject other.display))

/-- Carries out an operation. -/
def Operation.run (op : Operation κ) : Run κ σ op.Reply :=
  match op with
  | observe v tree => v.observe tree
  | get o key => Run.store (·.get o key)
  | set o key v => o.set holds serve key v
  | watch o key code => Run.attempt .reactive fun p =>
    let (result, store) := p.store.watch o key (.client code)
    (result, { p with store })
  | update w => w.update holds serve
  | newRegistry => Run.store (·.newRegistry)
  | register r w => Run.store fun s => ((), s.register r w)
  | notify r => r.notify holds serve
  | isAlive n => Run.isAlive holds n
  | createElement id => Run.page fun p =>
    let (e, document) := p.document.create id
    (e, { p with document })
  | setMarkup e markup => Run.document (·.setMarkup e markup)
  | listen e type code => Run.document (·.listen e type (.client code))
  | refuse writes listens =>
    Run.page fun p => ((), { p with document := p.document.refuse writes listens })
  | dispatch root type target => root.dispatch serve type target
  | deliver root type event => root.deliver serve type event
  | newCompiler template data root ids table => Run.page fun p =>
    match table with
    | some t => p.newCompiler (Template.parse template) data root t ids
    | none =>
      let (t, p) := p.newTable
      p.newCompiler (Template.parse template) data root t ids
  | compile c => Run.attempt .engine (·.compile c)
  | bind root t methods receiver =>
    Run.attempt (fun e => .engine (.document e)) (·.bind root t methods receiver)
  | mount vm config => Run.attempt .engine (·.mount vm config)
  | call receiver name => receiver.call serve name

/-- Runs a program. -/
def Program.run : Program κ σ → Run κ σ Unit
  | done => pure ()
  | fail error => Run.fail error
  | consult next => fun w => (next w.client).run w
  | remember change next => fun w => next.run { w with client := change w.client }
  | look next => fun w => (next w.page).run w
  | perform op next => do
    let result ← (op.run holds serve).outcome
    (next result).run
  | collect t w body next => do
    let result ← (t.collect w body.run).outcome
    (next result).run

end Calls

/-! ## 4. Clients -/

namespace Client

variable {κ σ : Type}

/-- Answers a call, nested at most `depth` deep. -/
def answer (c : Client κ σ) : (depth : Nat) → Cue κ → Run κ σ Unit
  | 0, _ => Run.exhausted
  | depth + 1, cue => (c.respond cue).run c.holds (c.answer depth)

/-- Runs a program of the client, whose calls nest at most `depth` deep. -/
def run (c : Client κ σ) (depth : Nat) (p : Program κ σ) : Run κ σ Unit :=
  p.run c.holds (c.answer depth)

end Client

end ReactiveView
