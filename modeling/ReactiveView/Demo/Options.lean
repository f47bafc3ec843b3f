import ReactiveView.Text.Blank

/-!
# Options of the demo

The command line is read from left to right: the first argument that asks for help or the version,
that is unknown or that has an invalid value decides alone.  If there is none, the last setting of
each kind counts; what no argument sets comes from the environment where it is valid there, and
else from the defaults.
-/

namespace ReactiveView.Demo

/-! ## 1. Options -/

/-- The kind of binding ids asked for. -/
inductive IdKind where
  | random
  | sequential
  deriving DecidableEq, Repr

def IdKind.ofName? (name : String) : Option IdKind :=
  if name = "random" then some .random
  else if name = "sequential" then some .sequential
  else none

/-- What a run of the demo is told. -/
structure Options where
  rootId : String := "root"
  ids : IdKind := .sequential
  -- How many clicks follow the mount.
  clicks : Nat := 1
  -- Whether the data is printed as JSON after every step.
  json : Bool := false
  deriving DecidableEq, Repr

/-- What the command line asks for. -/
inductive Request where
  | run (options : Options)
  | help
  | version
  deriving DecidableEq, Repr

/-- Why a command line is refused. -/
inductive UsageError where
  | emptyRootId
  | invalidIds (value : String)
  | invalidClicks (value : String)
  | unknownArgument (argument : String)
  deriving DecidableEq, Repr

def UsageError.message : UsageError → String
  | emptyRootId => "--root-id must not be empty"
  | invalidIds value => "Invalid --ids value: " ++ value
  | invalidClicks value => "Invalid --clicks value: " ++ value
  | unknownArgument argument =>
    "Unknown argument: " ++ argument ++ "\nRun with --help for usage information."

/-! ## 2. Values -/

/-- The number that decimal digits denote. -/
def decimalValue (digits : List Char) : Nat :=
  digits.foldl (fun n c => 10 * n + (c.toNat - 48)) 0

/-- A count: one or more ASCII digits, behind a plus sign if one stands there, that denote a number
    below `2 ^ 32`. -/
def count? (text : String) : Option Nat :=
  let digits := match text.toList with
    | '+' :: rest => rest
    | cs => cs
  if digits.isEmpty || !digits.all Char.isDigit then none
  else if decimalValue digits < UInt32.size then some (decimalValue digits)
  else none

/-- The text of `argument` behind `stem`, if it begins with it. -/
def behind? (stem argument : String) : Option String :=
  if stem.toList.isPrefixOf argument.toList then
    some (String.ofList (argument.toList.drop stem.toList.length))
  else none

/-! ## 3. Arguments -/

/-- A change of one option. -/
inductive Setting where
  | rootId (id : String)
  | ids (kind : IdKind)
  | clicks (n : Nat)
  | json
  deriving DecidableEq, Repr

def Options.apply (o : Options) : Setting → Options
  | .rootId id => { o with rootId := id }
  | .ids kind => { o with ids := kind }
  | .clicks n => { o with clicks := n }
  | .json => { o with json := true }

/-- What a single argument asks for. -/
inductive Argument where
  | help
  | version
  | setting (s : Setting)
  deriving DecidableEq, Repr

namespace Argument

def ofRootId (value : String) : Except UsageError Argument :=
  if value.isEmpty then .error .emptyRootId else .ok (.setting (.rootId value))

def ofIds (value : String) : Except UsageError Argument :=
  match IdKind.ofName? value with
  | some kind => .ok (.setting (.ids kind))
  | none => .error (.invalidIds value)

def ofClicks (value : String) : Except UsageError Argument :=
  match count? value with
  | some n => .ok (.setting (.clicks n))
  | none => .error (.invalidClicks value)

/-- Reads one argument. -/
def read (argument : String) : Except UsageError Argument :=
  if argument = "--help" ∨ argument = "-h" then .ok .help
  else if argument = "--version" ∨ argument = "-V" then .ok .version
  else if argument = "--json" then .ok (.setting .json)
  else
    match behind? "--root-id=" argument, behind? "--ids=" argument,
      behind? "--clicks=" argument with
    | some value, _, _ => ofRootId value
    | none, some value, _ => ofIds value
    | none, none, some value => ofClicks value
    | none, none, none => .error (.unknownArgument argument)

end Argument

namespace Options

/-- Applies arguments from left to right until one decides alone. -/
def readAll (o : Options) : List String → Except UsageError Request
  | [] => .ok (.run o)
  | argument :: rest =>
    match Argument.read argument with
    | .error error => .error error
    | .ok .help => .ok .help
    | .ok .version => .ok .version
    | .ok (.setting s) => (o.apply s).readAll rest

/-! ## 4. Environment -/

/-- The defaults, overridden by the valid values of the environment. -/
def ofEnvironment (env : String → Option String) : Options where
  rootId := ((env "RAY_DEMO_ROOT_ID").filter fun id => !id.isEmpty).getD "root"
  ids := ((env "RAY_DEMO_IDS").bind IdKind.ofName?).getD .sequential
  clicks := ((env "RAY_DEMO_CLICKS").bind count?).getD 1
  json :=
    match env "RAY_DEMO_JSON" with
    | some value => value == "1" || Text.lowerAscii value == "true"
    | none => false

/-- Reads a command line in its environment. -/
def parse (args : List String) (env : String → Option String) : Except UsageError Request :=
  (ofEnvironment env).readAll args

end Options

/-! ## 5. Fixed texts -/

def helpText : String :=
  "RayActive demo: a reactive name/age card driven by clicks

USAGE:
    rayactive-demo [OPTIONS]

OPTIONS:
    --root-id=ID     Element the view mounts on (default: root)
    --ids=KIND       Binding ids: 'random' or 'sequential' (default: sequential)
    --clicks=N       Clicks to dispatch on the button (default: 1)
    --json           Print the data as JSON after every step
    --help, -h       Show this help message
    --version, -V    Show version

ENVIRONMENT VARIABLES:
    RAY_DEMO_ROOT_ID   Override --root-id
    RAY_DEMO_IDS       Override --ids (random|sequential)
    RAY_DEMO_CLICKS    Override --clicks
    RAY_DEMO_JSON      Override --json (1/true to enable)
    RUST_LOG           Log filter, e.g. rayactive=debug"

def versionLine : String := "rayactive-demo 0.1.0"

end ReactiveView.Demo
