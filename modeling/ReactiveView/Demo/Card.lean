import ReactiveView.Client.Routine
import ReactiveView.Client.Run
import ReactiveView.Demo.Options

/-!
# The demo card

A card with a name, an age and a button.  The demo mounts it on a document of one element, clicks
the button as often as asked and shows the markup after every step.
-/

namespace ReactiveView.Demo

/-! ## 1. The view -/

def template : String :=
  "<div><div>name: \x7b\x7bname\x7d\x7d</div><div>age: \x7b\x7bage\x7d\x7d</div>" ++
    "<button @click=\"handleClick\">click</button></div>"

/-- The code of the demo: what a click does. -/
inductive Handler where
  | click
  deriving DecidableEq, Repr

def viewModel : ViewModel Handler where
  data := Fields.ofList [("name", .text "Ray"), ("age", .number (Binary64.ofInt 18))]
  template := template
  methods := [("handleClick", .click)]

/-! ## 2. The client -/

/-- What the demo keeps: its view, and the lines shown so far, the latest first. -/
structure Screen where
  engine : Option EngineId := none
  shown : List String := []
  deriving Repr

/-- Stretches of the demo's code. -/
abbrev Script (α : Type) := Routine Handler Screen α

/-- A click renames the person and makes them older. -/
def handleClick (receiver : Receiver Handler) : Script Unit := do
  Routine.ask (.set receiver.data "name" (.text "jack"))
  Routine.ask (.set receiver.data "age" (.number (Binary64.ofInt 24)))

def client : Client Handler Screen where
  respond
    | .method .click receiver => (handleClick receiver).program
    | .reaction _ _ => .done
    | .event _ _ => .done
  holds screen := screen.engine.toList.map .engine

/-! ## 3. A run -/

/-- The lines that show a view after a step. -/
def stepLines (label : String) (json : Bool) (e : EngineId) (p : Page Handler) : List String :=
  match p.engine? e with
  | none => []
  | some engine =>
    match p.compiler? engine.compiler with
    | none => []
    | some compiler =>
      let line :=
        "[" ++ label ++ "] renders=" ++ compiler.renders.repr ++ " " ++ compiler.lastMarkup
      if json then [line, (p.store.snapshot engine.data).toJson.pretty] else [line]

/-- Shows a view after a step. -/
def showStep (label : String) (json : Bool) (e : EngineId) : Script Unit := do
  let lines ← Routine.look (stepLines label json e)
  Routine.remember fun screen => { screen with shown := lines.reverse ++ screen.shown }

/-- The root element of a view and the id of the binding rendered last. -/
def clickTarget? (e : EngineId) (p : Page Handler) : Option (ElementId × String) :=
  (p.engine? e).bind fun engine =>
    (p.tableOf engine.compiler).latest?.map fun id => (engine.root, id)

/-- Clicks the button `remaining` times, from click number `k` on. -/
def clickThrough (json : Bool) (e : EngineId) : (k remaining : Nat) → Script Unit
  | _, 0 => pure ()
  | k, remaining + 1 => do
    match ← Routine.look (clickTarget? e) with
    | none => pure ()
    | some (root, target) =>
      let _ ← Routine.ask (.dispatch root "click" target)
      showStep ("click " ++ k.repr) json e
      clickThrough json e (k + 1) remaining

/-- What a run does, given the options and the configuration of the environment. -/
def script (o : Options) (config : Config) : Script Unit := do
  let ids := match o.ids with
    | .random => IdStrategy.random
    | .sequential => .sequential Config.defaultStem
  let e ← Routine.ask (.mount viewModel { config with rootId := o.rootId, ids })
  Routine.remember fun screen => { screen with engine := some e }
  showStep "mount" o.json e
  clickThrough o.json e 1 o.clicks

/-! ## 4. The program -/

/-- How a process ends. -/
structure Ending where
  code : Nat
  out : String := ""
  err : String := ""
  deriving DecidableEq, Repr

/-- Lines of text, each with its end. -/
def lines (ls : List String) : String := String.join (ls.map (· ++ "\n"))

/-- Runs the view with these options.  A click calls no client code in turn, so calls nest one
    deep. -/
def perform (o : Options) (config : Config) (entropy : Entropy) : Ending :=
  match client.run 1 (script o config).program ⟨.ofIds [o.rootId] entropy, {}, []⟩ with
  | none => { code := 1 }
  | some (.ok (), world) => { code := 0, out := lines world.client.shown.reverse }
  | some (.error error, world) =>
    { code := 1, out := lines world.client.shown.reverse, err := lines [error.message] }

/-- The whole program.  The configuration is read from the environment even where an argument
    overrides it. -/
def run (args : List String) (env : String → Option String) (entropy : Entropy) : Ending :=
  match Options.parse args env with
  | .error error => { code := 2, err := lines [error.message] }
  | .ok .help => { code := 0, out := lines [helpText] }
  | .ok .version => { code := 0, out := lines [versionLine] }
  | .ok (.run o) =>
    match Config.ofSettings env with
    | .error error => { code := 1, err := lines [error.message] }
    | .ok config => perform o config entropy

end ReactiveView.Demo
