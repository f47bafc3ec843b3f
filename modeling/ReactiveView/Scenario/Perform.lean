import ReactiveView.Client.Routine
import ReactiveView.Client.Run
import ReactiveView.Inspect
import ReactiveView.Scenario.Session

/-!
# Performing scenarios

What each step asks of the page, and the client that a scenario is.  A failing step does not stop
the scenario; a failing step of a body ends the body, unless it is guarded.
-/

namespace ReactiveView.Scenario

/-- Stretches of a scenario. -/
abbrev Act (α : Type) := Routine Callback Session α

/-- The receiver of the method whose body is running. -/
abbrev Context := Option (Receiver Callback)

/-! ## 1. Names -/

/-- A step refers to something that is not there. -/
def badInput (message : String) : Failure := .client "BadInput" message

def noHandle (name : String) : Failure := badInput ("no handle " ++ name)

def noReceiver : Failure := badInput "no receiver"

/-- The answer, or a failure for want of it. -/
def require {α : Type} (error : Failure) : Option α → Act α
  | some a => pure a
  | none => Routine.fail error

def theWatcher (name : String) : Act WatcherId := do
  require (noHandle name) (← Routine.consult fun s => Fields.get? s.watchers name)

def theRegistry (name : String) : Act RegistryId := do
  require (noHandle name) (← Routine.consult fun s => Fields.get? s.registries name)

def theCompiler (name : String) : Act CompilerId := do
  require (noHandle name) (← Routine.consult fun s => Fields.get? s.compilers name)

def theEngine (name : String) : Act (Engine Callback) := do
  let e ← require (noHandle name) (← Routine.consult fun s => Fields.get? s.engines name)
  require (noHandle name) (← Routine.look fun p => p.engine? e)

/-- The receiver of a view if one is named, else that of the running method. -/
def theReceiver (ctx : Context) : Option String → Act (Receiver Callback)
  | some name => do return (← theEngine name).receiver
  | none => require noReceiver ctx

def theObject (ctx : Context) : ObjectRef → Act ObjectId
  | .named name => do
    require (noHandle name) (← Routine.consult fun s => Fields.get? s.objects name)
  | .dataOf engine => do return (← theEngine engine).data
  | .receiver =>
    match ctx with
    | some receiver => pure receiver.data
    | none => do return (← theEngine "").data

/-- The table of the view or compiler of a name. -/
def theTable (name : String) : Act BindingTable := do
  match ← Routine.consult fun s => Fields.get? s.engines name with
  | some e =>
    Routine.look fun p =>
      match p.engine? e with
      | some engine => p.tableOf engine.compiler
      | none => .empty
  | none =>
    let c ← theCompiler name
    Routine.look fun p => p.tableOf c

/-- The id of an event's target; an empty table has no latest id, and `none` stands for it. -/
def theTarget : TargetRef → Act String
  | .id id => pure id
  | .latest name => do return ((← theTable name).latest?).getD "none"

/-! ## 2. Keeping things by name -/

def keepObject (name : String) (o : ObjectId) : Act Unit :=
  Routine.remember fun s => { s with objects := s.objects.insert name o }

def keepWatcher (name : String) (w : WatcherId) : Act Unit :=
  Routine.remember fun s => { s with watchers := s.watchers.insert name w }

def keepRegistry (name : String) (r : RegistryId) : Act Unit :=
  Routine.remember fun s => { s with registries := s.registries.insert name r }

def keepCompiler (name : String) (c : CompilerId) : Act Unit :=
  Routine.remember fun s => { s with compilers := s.compilers.insert name c }

def keepEngine (name : String) (e : EngineId) : Act Unit :=
  Routine.remember fun s => { s with engines := s.engines.insert name e }

def keepWeak (name : String) (o : ObjectId) : Act Unit :=
  Routine.remember fun s => { s with weak := s.weak.insert name o }

/-- The callback of a body, with a counter of its own if it is limited. -/
def newCallback (name : String) (body : List Step) : Option Nat → Act Callback
  | none => pure { name, body }
  | some limit => do
    let counter ← Routine.consult fun s => s.counters.size
    Routine.remember fun s => { s with counters := s.counters.push 0 }
    return { name, body, limit := some (limit, counter) }

/-- Methods by name, of which a later one replaces an earlier one of the same name. -/
def methodsOf (methods : List (String × List Step)) : Fields Callback :=
  Fields.ofList (methods.map fun m => (m.1, { name := m.1, body := m.2 }))

/-- Keeps nodes alive during a stretch of the scenario. -/
def holding {α : Type} (nodes : List Node) (act : Act α) : Act α := do
  Routine.remember fun s => { s with passing := nodes :: s.passing }
  let result ← act.outcome
  Routine.remember fun s => { s with passing := s.passing.tail }
  match result with
  | .ok a => return a
  | .error error => Routine.fail error

/-! ## 3. Looking -/

/-- The numbers of the watchers of a registry. -/
def numbersOf (r : RegistryId) : Act (List Nat) :=
  Routine.look fun p => (p.store.registered r).map p.store.number

def theState (w : WatcherId) : Act (Option (Watcher (Reaction Callback))) :=
  Routine.look fun p => p.store.watcher? w

def theElement (e : ElementId) : Act (Element (Listener Callback)) := do
  match ← Routine.look fun p => p.document.find e with
  | .ok element => pure element
  | .error error => Routine.fail (.document error)

/-- Whether two observables are the same, have the same registry and are of the same tree. -/
def sameness (a b : ObjectId) : Result :=
  .sameness (a == b) (RegistryId.ofObject a == .ofObject b) (a.tree == b.tree)

def inspectSubject (ctx : Context) : Subject → Act String
  | .object o => do
    let o ← theObject ctx o
    Routine.look fun p => Inspect.object p o
  | .registry o => do
    let o ← theObject ctx o
    Routine.look fun p => Inspect.registry p (.ofObject o)
  | .tracker o => do
    let o ← theObject ctx o
    Routine.look fun p => Inspect.tracker p o.tree
  | .watcher name => do
    let w ← theWatcher name
    Routine.look fun p => Inspect.watcher p w
  | .compiler name => do
    let c ← theCompiler name
    Routine.look fun p => Inspect.compiler p c
  | .engine name => do
    let e ← require (noHandle name) (← Routine.consult fun s => Fields.get? s.engines name)
    Routine.look fun p => Inspect.engine p e
  | .receiver engine => do
    let r ← theReceiver ctx (some engine)
    Routine.look fun p => Inspect.receiver p r
  | .member engine key => do
    let r ← theReceiver ctx engine
    let field ← Routine.ask (.get r.data key)
    Routine.look fun p => Inspect.member p (r.member key field)
  | .document => Routine.look fun p => Inspect.document p

/-! ## 4. Steps -/

/-- The view model of a plan. -/
def MountPlan.viewModel (plan : MountPlan) (methods : List (String × List Step)) :
    Except EngineError (ViewModel Callback) :=
  let start : Except EngineError (ViewModel Callback) :=
    match plan.json with
    | some json => ViewModel.ofJson json plan.template
    | none => .ok { template := plan.template }
  start.map fun vm =>
    { vm with
      data := plan.extra.foldl (fun data e => Fields.insert data e.1 e.2) vm.data
      methods := methodsOf methods }

/-- Takes the log of one step apart from that of the steps around it. -/
def answering (act : Act Result) : Act Answer := do
  let outer ← Routine.consult (·.log)
  Routine.remember fun s => { s with log := [] }
  let result ← act.outcome
  let log ← Routine.consult (·.log)
  Routine.remember fun s => { s with log := outer }
  match result with
  | .ok r => return .success r log
  | .error error => return .failure error log

/-- Collects while a program gives inner answers, and answers with those. -/
def collecting (t : TreeId) (w : WatcherId) (body : Program Callback Session) : Act Result := do
  Routine.remember (·.openInner)
  let result ← (Routine.collecting t w body).outcome
  let answers ← Routine.consult (·.innerAnswers)
  Routine.remember (·.closeInner)
  match result with
  | .ok () => return .answers answers
  | .error error => Routine.fail error

mutual

/-- What a step does. -/
def Step.act (ctx : Context) : Step → Act Result
  | .observe name data share => do
    match share with
    | none =>
      keepObject name (← Routine.ask (.observe data none))
    | some other =>
      if data.isObject then
        let other ← theObject ctx other
        keepObject name (← Routine.ask (.observe data (some other.tree)))
      else Routine.fail (badInput "object expected")
    return .nothing
  | .get o key keep => do
    let field ← Routine.ask (.get (← theObject ctx o) key)
    match keep, field with
    | some name, .proxy nested => keepObject name nested
    | _, _ => pure ()
    return .field field
  | .set o key v => do
    Routine.ask (.set (← theObject ctx o) key v)
    return .nothing
  | .add o key amount => do
    let o ← theObject ctx o
    let v := match ← Routine.ask (.get o key) with
      | .value (.number n) => n.add amount
      | _ => amount
    Routine.ask (.set o key (.number v))
    return .nothing
  | .contains o key => do
    let o ← theObject ctx o
    return .flag (← Routine.look fun p => p.store.contains o key)
  | .keys o => do
    let o ← theObject ctx o
    return .texts (← Routine.look fun p => p.store.keys o)
  | .snapshot o => do
    let o ← theObject ctx o
    return .value (← Routine.look fun p => p.store.snapshot o)
  | .same a b => do
    let a ← theObject ctx a
    let b ← theObject ctx b
    return sameness a b
  | .strictEqual a ka b kb => do
    let a ← theObject ctx a
    let b ← theObject ctx b
    let x ← Routine.ask (.get a ka)
    let y ← Routine.ask (.get b kb)
    return .flag (x.strictEqual y)
  | .weaken o name => do
    keepWeak name (← theObject ctx o)
    return .nothing
  | .upgrade name keep => do
    let o ← require (noHandle name) (← Routine.consult fun s => Fields.get? s.weak name)
    let isAlive ← Routine.ask (.isAlive (.object o))
    match keep, isAlive with
    | some keep, true => keepObject keep o
    | _, _ => pure ()
    return .flag isAlive
  | .release name => do
    let known ← Routine.consult (·.knows name)
    Routine.remember (·.release name)
    return .flag known
  | .watch name o key body limit => do
    let o ← theObject ctx o
    let w ← Routine.ask (.watch o key (← newCallback name body limit))
    keepWatcher name w
    match ← theState w with
    | some watcher => return .newWatcher watcher.number watcher.property watcher.baseline
    | none => return .nothing
  | .update watcher => do
    let w ← theWatcher watcher
    holding [.watcher w] (Routine.ask (.update w))
    return .nothing
  | .watcher watcher => do
    match ← theState (← theWatcher watcher) with
    | some watcher => return .watcher watcher.number watcher.property watcher.baseline
    | none => return .nothing
  | .baselineEqual o key watcher => do
    let field ← Routine.ask (.get (← theObject ctx o) key)
    match ← theState (← theWatcher watcher) with
    | some watcher => return .flag (field.strictEqual watcher.baseline)
    | none => return .nothing
  | .registry o => do
    return .registry (← numbersOf (.ofObject (← theObject ctx o)))
  | .register o watcher => do
    let o ← theObject ctx o
    Routine.ask (.register (.ofObject o) (← theWatcher watcher))
    return .nothing
  | .notify o => do
    let o ← theObject ctx o
    holding [.object o] (Routine.ask (.notify (.ofObject o)))
    return .nothing
  | .newRegistry name => do
    keepRegistry name (← Routine.ask .newRegistry)
    return .nothing
  | .registerWith registry watcher => do
    let r ← theRegistry registry
    Routine.ask (.register r (← theWatcher watcher))
    return .nothing
  | .notifyRegistry registry => do
    let r ← theRegistry registry
    holding [.registry r] (Routine.ask (.notify r))
    return .notified (← numbersOf r)
  | .collect o watcher steps => do
    let o ← theObject ctx o
    let w ← theWatcher watcher
    collecting o.tree w (innerSteps steps).program
  | .tracker o => do
    let o ← theObject ctx o
    return .tracker (← Routine.look fun p => (p.store.active o.tree).map p.store.number)
  | .createElement id => do
    return .handle (some (← Routine.ask (.createElement id)))
  | .elementById id => do
    return .handle (← Routine.look fun p => p.document.byId? id)
  | .setMarkup e markup => do
    Routine.ask (.setMarkup e markup)
    return .nothing
  | .element e => do
    let element ← theElement e
    return .element element.id element.markup element.writes element.listenedTypes
  | .renderedIds e => do
    return .texts (IdAttribute.values (← theElement e).markup)
  | .listenerCount e type => do
    return .number ((← theElement e).listenersFor type).length
  | .listen e type name body => do
    Routine.ask (.listen e type { name, body })
    return .nothing
  | .dispatch e type target => do
    let target ← theTarget target
    return .number (← Routine.ask (.dispatch e type target))
  | .deliver e listenerType type target => do
    let target ← match target with
      | none => pure none
      | some target => do pure (some (← theTarget target))
    match ← (Routine.ask (.deliver e listenerType ⟨type, target⟩)).outcome with
    | .ok n => return .number n
    | .error error => Routine.fail (.client "Fail" error.message)
  | .refuse writes listens => do
    Routine.ask (.refuse writes listens)
    return .nothing
  | .newCompiler name o template e ids share => do
    let table ← match share with
      | none => pure none
      | some other => do
        let c ← theCompiler other
        Routine.look fun p => (p.compiler? c).map (·.table)
    let o ← theObject ctx o
    keepCompiler name (← Routine.ask (.newCompiler template o e ids table))
    return .nothing
  | .compile compiler => do
    Routine.ask (.compile (← theCompiler compiler))
    return .nothing
  | .bindings owner => do
    let table ← theTable owner
    return .bindings table.rows table.eventTypes
  | .bind compiler engine methods e => do
    let c ← theCompiler compiler
    let receiver ← theReceiver ctx engine
    match ← Routine.look fun p => p.compiler? c with
    | none => Routine.fail (noHandle compiler)
    | some shown =>
      return .texts (← Routine.ask (.bind e shown.table (methodsOf methods) receiver))
  | .mount name plan methods => do
    match plan.viewModel methods with
    | .error error => Routine.fail (.engine error)
    | .ok vm =>
      let e ← Routine.ask (.mount vm plan.config)
      keepEngine name e
      match ← Routine.look fun p => p.engine? e with
      | some engine => return .mounted engine.root engine.boundTypes
      | none => return .nothing
  | .recompile engine => do
    Routine.ask (.compile (← theEngine engine).compiler)
    return .nothing
  | .engineGet engine key => do
    return .field (← Routine.ask (.get (← theEngine engine).data key))
  | .keepData engine keep => do
    keepObject keep (← theEngine engine).data
    return .nothing
  | .engineElementById engine id => do
    let _ ← theEngine engine
    return .handle (← Routine.look fun p => p.document.byId? id)
  | .thisGet engine key => do
    let r ← theReceiver ctx engine
    match r.member key (← Routine.ask (.get r.data key)) with
    | .method _ => return .method
    | .data field => return .field field
  | .thisData engine key => do
    return .field (← Routine.ask (.get (← theReceiver ctx engine).data key))
  | .thisSet engine key v => do
    Routine.ask (.set (← theReceiver ctx engine).data key v)
    return .nothing
  | .thisCall engine method => do
    Routine.ask (.call (← theReceiver ctx engine) method)
    return .nothing
  | .inspect subject => do
    return .text (← inspectSubject ctx subject)
  | .fail message => Routine.fail (.client "Fail" message)
  | .invalid message => Routine.fail (badInput message)
  | .guarded step => step.act ctx

/-- Performs the steps of a collection, each with an answer of its own. -/
def innerSteps : List Step → Act Unit
  | [] => pure ()
  | step :: rest => do
    let answer ← answering (step.act none)
    Routine.remember (·.answerInner answer)
    innerSteps rest

end

/-! ## 5. Callbacks -/

def note (entry : LogEntry) : Act Unit := Routine.remember (·.note entry)

def noteResult (r : Result) : Act Unit := if r.isNothing then pure () else note (.result r)

/-- Performs the steps of a body until one fails that is not guarded. -/
def runBody (ctx : Context) : List Step → Act Unit
  | [] => pure ()
  | .guarded step :: rest => do
    match ← (step.act ctx).outcome with
    | .ok r => noteResult r
    | .error error => note (.caught error)
    runBody ctx rest
  | step :: rest => do
    noteResult (← step.act ctx)
    runBody ctx rest

/-- Performs a callback's body, unless it has been performed as often as it may be. -/
def Callback.act (cb : Callback) (ctx : Context) : Act Unit :=
  match cb.limit with
  | none => runBody ctx cb.body
  | some (limit, counter) => do
    let calls ← Routine.consult fun s => (s.counters.get? counter).getD 0
    Routine.remember fun s => { s with counters := s.counters.modify counter (· + 1) }
    if calls < limit then runBody ctx cb.body

/-- What a call of a callback does: it is noted down, and the body is performed. -/
def respond : Cue Callback → Act Unit
  | .reaction cb field => do
    note (.fire cb.name field.display)
    cb.act none
  | .event cb event => do
    note (.event cb.name event.type event.target)
    cb.act none
  | .method cb receiver => do
    note (.method cb.name)
    cb.act (some receiver)

/-- The client that every scenario is. -/
def client : Client Callback Session where
  respond cue := (respond cue).program
  holds := Session.holds

/-! ## 6. Scenarios -/

/-- Performs the outermost steps, with a report on each. -/
def outerSteps : List Step → Act Unit
  | [] => pure ()
  | step :: rest => do
    let answer ← answering (step.act none)
    let page ← Routine.look id
    Routine.remember fun s =>
      { s with reports := s.reports.push ⟨answer, s.standings page⟩ }
    outerSteps rest

/-- The reports on the steps of a scenario that starts on a document with these elements, where
    calls nest at most `depth` deep. -/
def perform (elements : List String) (steps : List Step) (entropy : Entropy) (depth : Nat) :
    Option (List Report) :=
  (client.run depth (outerSteps steps).program ⟨.ofIds elements entropy, {}, []⟩).map fun r =>
    r.2.client.reports.toList

end ReactiveView.Scenario
