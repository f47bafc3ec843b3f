import ReactiveView.Scenario.Step

/-!
# Sessions

What a scenario keeps while it runs — the things it knows by name, its log, its counters — and the
answers that it gives.
-/

namespace ReactiveView.Scenario

/-! ## 1. Answers -/

mutual

/-- The result of a step. -/
inductive Result where
  | nothing
  | flag (b : Bool)
  | number (n : Nat)
  | text (s : String)
  | texts (items : List String)
  | field (f : Field)
  | value (v : Value)
  -- The numbers of the watchers of an observable's registry.
  | registry (numbers : List Nat)
  -- The numbers of the watchers of a registry after it was notified.
  | notified (numbers : List Nat)
  | newWatcher (number : Nat) (property : String) (baseline : Field)
  | watcher (number : Nat) (property : String) (baseline : Field)
  -- The number of the watcher that is collecting.
  | tracker (active : Option Nat)
  | sameness (object registry tracker : Bool)
  | handle (e : Option ElementId)
  | element (id markup : String) (writes : Nat) (types : List String)
  | bindings (rows : List (String × Binding)) (types : List String)
  | mounted (root : ElementId) (bound : List String)
  -- A name that means a method.
  | method
  | answers (items : List Answer)

/-- The answer to a step, with what was logged during it. -/
inductive Answer where
  | success (result : Result) (log : List LogEntry)
  | failure (error : Failure) (log : List LogEntry)

/-- What callbacks note down. -/
inductive LogEntry where
  -- A watcher's callback was called with a field of this text.
  | fire (name display : String)
  | event (name type : String) (target : Option String)
  | method (name : String)
  -- A step of a body had this result.
  | result (r : Result)
  -- A step of a body failed and the body went on.
  | caught (error : Failure)

end

/-- Whether a result is not worth a note in a log. -/
def Result.isNothing : Result → Bool
  | nothing => true
  | handle none => true
  | _ => false

/-- How a view or a compiler stands after a step. -/
structure Standing where
  renders : Nat
  watchers : Nat
  markup : String
  -- The length of the binding table.
  table : Nat
  latest : Option String
  -- Whether it has rendered, for a compiler.
  initialized : Option Bool

/-- The answer to an outermost step, and how views and compilers stand after it. -/
structure Report where
  answer : Answer
  standings : List (String × Standing)

/-! ## 2. State -/

/-- The state of a running scenario. -/
structure Session where
  objects : Fields ObjectId := []
  -- Names of observables that are not kept alive by them.
  weak : Fields ObjectId := []
  watchers : Fields WatcherId := []
  registries : Fields RegistryId := []
  engines : Fields EngineId := []
  compilers : Fields CompilerId := []
  -- What the steps under way keep alive, the innermost first.
  passing : List (List Node) := []
  -- How often each limited callback has been called.
  counters : Arena Nat := {}
  log : List LogEntry := []
  -- The answers given so far in each list of inner steps under way, the innermost first.
  inner : List (List Answer) := []
  reports : Array Report := #[]

namespace Session

/-- A scenario keeps alive what it knows by name and what its steps under way use. -/
def holds (s : Session) : List Node :=
  s.objects.map (fun e => .object e.2) ++ s.watchers.map (fun e => .watcher e.2) ++
    s.registries.map (fun e => .registry e.2) ++ s.engines.map (fun e => .engine e.2) ++
    s.compilers.map (fun e => .compiler e.2) ++ s.passing.flatten

/-- Whether the name stands for something that can be let go. -/
def knows (s : Session) (name : String) : Bool :=
  Fields.contains s.objects name || Fields.contains s.watchers name ||
    Fields.contains s.engines name || Fields.contains s.compilers name

/-- Lets go of the observable, watcher, view and compiler of this name. -/
def release (s : Session) (name : String) : Session :=
  { s with
    objects := Fields.erase s.objects name
    watchers := Fields.erase s.watchers name
    engines := Fields.erase s.engines name
    compilers := Fields.erase s.compilers name }

def note (s : Session) (entry : LogEntry) : Session := { s with log := s.log ++ [entry] }

/-- Opens a list of inner answers. -/
def openInner (s : Session) : Session := { s with inner := [] :: s.inner }

/-- Adds to the innermost list of answers. -/
def answerInner (s : Session) (a : Answer) : Session :=
  match s.inner with
  | [] => s
  | answers :: outer => { s with inner := (answers ++ [a]) :: outer }

/-- The innermost list of answers. -/
def innerAnswers (s : Session) : List Answer := s.inner.headD []

/-- Closes the innermost list of answers. -/
def closeInner (s : Session) : Session := { s with inner := s.inner.tail }

/-- How a compiler stands. -/
def standing (p : Page Callback) (c : CompilerId) : Option Standing :=
  (p.compiler? c).map fun compiler =>
    let table := p.table compiler.table
    { renders := compiler.renders
      watchers := compiler.watchers.length
      markup := compiler.lastMarkup
      table := table.size
      latest := table.latest?
      initialized := some compiler.initialized }

/-- How the views and the compilers stand, by name.  A view hides a compiler of its name. -/
def standings (s : Session) (p : Page Callback) : List (String × Standing) :=
  let engines := s.engines.filterMap fun e =>
    (p.engine? e.2).bind fun engine =>
      (standing p engine.compiler).map fun st => (e.1, { st with initialized := none })
  let compilers := s.compilers.filterMap fun e =>
    (standing p e.2).map fun st => (e.1, st)
  Fields.ofList (compilers ++ engines)

end Session

end ReactiveView.Scenario
