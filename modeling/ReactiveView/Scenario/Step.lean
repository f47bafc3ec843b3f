import ReactiveView.Client.Program

/-!
# Scenario steps

A scenario is a list of steps on one page.  Steps know observables, watchers, compilers and views by
name, and give the callbacks, listeners and methods that they install as lists of steps again.
-/

namespace ReactiveView.Scenario

/-! ## 1. Names -/

/-- How a step refers to an observable. -/
inductive ObjectRef where
  | named (name : String)
  -- The data of a mounted view.
  | dataOf (engine : String)
  -- The data of the running method's receiver; outside methods, that of the view whose name is
  -- empty.
  | receiver
  deriving DecidableEq, Repr

/-- How a step refers to the target of an event. -/
inductive TargetRef where
  | id (id : String)
  -- The latest binding id of the view or compiler of this name.
  | latest (name : String)
  deriving DecidableEq, Repr

/-- How a step mounts a view. -/
structure MountPlan where
  template : String
  -- A document to take the data from.
  json : Option Json
  -- Further data, in order.
  extra : List (String × Value)
  config : Config
  deriving Repr

/-- What a diagnostic text is asked of. -/
inductive Subject where
  | object (o : ObjectRef)
  | registry (o : ObjectRef)
  | tracker (o : ObjectRef)
  | watcher (name : String)
  | compiler (name : String)
  | engine (name : String)
  | receiver (engine : String)
  | member (engine : Option String) (key : String)
  | document
  deriving Repr

/-! ## 2. Steps -/

/-- One step of a scenario. -/
inductive Step where
  -- observables
  | observe (name : String) (data : Value) (share : Option ObjectRef)
  | get (o : ObjectRef) (key : String) (keep : Option String)
  | set (o : ObjectRef) (key : String) (v : Value)
  -- Adds to a number; anything else is replaced.
  | add (o : ObjectRef) (key : String) (amount : Binary64)
  | contains (o : ObjectRef) (key : String)
  | keys (o : ObjectRef)
  | snapshot (o : ObjectRef)
  | same (a b : ObjectRef)
  | strictEqual (a : ObjectRef) (ka : String) (b : ObjectRef) (kb : String)
  | weaken (o : ObjectRef) (name : String)
  | upgrade (name : String) (keep : Option String)
  -- Lets go of the observable, watcher, view and compiler of this name.
  | release (name : String)
  -- watchers, registries and trackers
  | watch (name : String) (o : ObjectRef) (key : String) (body : List Step) (limit : Option Nat)
  | update (watcher : String)
  | watcher (watcher : String)
  | baselineEqual (o : ObjectRef) (key watcher : String)
  | registry (o : ObjectRef)
  | register (o : ObjectRef) (watcher : String)
  | notify (o : ObjectRef)
  | newRegistry (name : String)
  | registerWith (registry watcher : String)
  | notifyRegistry (registry : String)
  | collect (o : ObjectRef) (watcher : String) (steps : List Step)
  | tracker (o : ObjectRef)
  -- the document
  | createElement (id : String)
  | elementById (id : String)
  | setMarkup (e : ElementId) (markup : String)
  | element (e : ElementId)
  | renderedIds (e : ElementId)
  | listenerCount (e : ElementId) (type : String)
  | listen (e : ElementId) (type name : String) (body : List Step)
  | dispatch (e : ElementId) (type : String) (target : TargetRef)
  | deliver (e : ElementId) (listenerType type : String) (target : Option TargetRef)
  | refuse (writes listens : Nat)
  -- compilers and views
  | newCompiler (name : String) (o : ObjectRef) (template : String) (e : ElementId) (ids : IdSource)
      (share : Option String)
  | compile (compiler : String)
  | bindings (owner : String)
  | bind (compiler : String) (engine : Option String) (methods : List (String × List Step))
      (e : ElementId)
  | mount (name : String) (plan : MountPlan) (methods : List (String × List Step))
  | recompile (engine : String)
  | engineGet (engine key : String)
  | keepData (engine keep : String)
  | engineElementById (engine id : String)
  -- receivers: of the running method, or of a view
  | thisGet (engine : Option String) (key : String)
  | thisData (engine : Option String) (key : String)
  | thisSet (engine : Option String) (key : String) (v : Value)
  | thisCall (engine : Option String) (method : String)
  -- others
  | inspect (subject : Subject)
  | fail (message : String)
  -- A step that asks for nothing known.
  | invalid (message : String)
  -- A step whose failure is caught where it stands in a body.
  | guarded (step : Step)
  deriving Repr

/-- The code that a step installs. -/
structure Callback where
  name : String
  body : List Step
  -- How often the body runs at most, and the number of the counter that keeps track.
  limit : Option (Nat × Nat) := none
  deriving Repr

end ReactiveView.Scenario
