import ReactiveView.Client.Program
import ReactiveView.Text.Quoted

/-!
# Diagnostic texts

How observables, registries, trackers, watchers, compilers, views and documents show themselves to
somebody who looks for a fault.
-/

namespace ReactiveView.Inspect

/-! ## 1. Shapes -/

/-- A record with named entries. -/
def record (name : String) (entries : List (String × String)) : String :=
  name ++ " \x7b " ++ ", ".intercalate (entries.map fun e => e.1 ++ ": " ++ e.2) ++ " \x7d"

/-- A list between square brackets. -/
def list (items : List String) : String := "[" ++ ", ".intercalate items ++ "]"

/-- A set or map between braces. -/
def braced (items : List String) : String := "\x7b" ++ ", ".intercalate items ++ "\x7d"

/-- A name applied to one argument. -/
def applied (name argument : String) : String := name ++ "(" ++ argument ++ ")"

/-- An argument that may be missing. -/
def optional : Option String → String
  | none => "None"
  | some text => applied "Some" text

def flag (b : Bool) : String := if b then "true" else "false"

def watcherId (number : Nat) : String := applied "WatcherId" number.repr

def elementHandle (e : ElementId) : String := applied "ElementHandle" e.number.repr

/-! ## 2. Values -/

mutual

/-- The diagnostic text of a value. -/
def value : Value → String
  | .undefined => "Undefined"
  | .null => "Null"
  | .bool b => applied "Bool" (flag b)
  | .number n => applied "Number" n.diagnostic
  | .text s => applied "String" (Text.quoted s)
  | .object fields => applied "Object" (braced (values fields))

/-- The diagnostic texts of the entries of a field list. -/
def values : List (String × Value) → List String
  | [] => []
  | (k, v) :: rest => (Text.quoted k ++ ": " ++ value v) :: values rest

end

/-! ## 3. Parts of a page -/

section Page

variable {κ : Type} (p : Page κ)

def registry (r : RegistryId) : String :=
  record "Dep"
    [("watchers", list ((p.store.registered r).map fun w => watcherId (p.store.number w)))]

def object (o : ObjectId) : String :=
  match p.store.object? o with
  | none => ""
  | some object =>
    record "Observable"
      [("keys", list (object.slots.map fun e => Text.quoted e.1)),
       ("dep", registry p (.ofObject o))]

def field : Field → String
  | .value v => applied "Value" (value v)
  | .proxy o => applied "Object" (object p o)

/-- The state of collection in a tree. -/
def tracker (t : TreeId) : String :=
  record "Tracker"
    [("active", optional ((p.store.active t).map fun w => watcherId (p.store.number w))),
      ("issued", (p.store.tree t).issued.repr)]

def watcher (w : WatcherId) : String :=
  match p.store.watcher? w with
  | none => ""
  | some watcher =>
    record "Watcher"
      [("id", watcherId watcher.number), ("property", Text.quoted watcher.property),
        ("baseline", Text.quoted watcher.baseline.display)]

def compiler (c : CompilerId) : String :=
  match p.compiler? c with
  | none => ""
  | some compiler =>
    record "Compiler"
      [("template", Text.quoted compiler.template.source), ("root", elementHandle compiler.root),
        ("initialized", flag compiler.initialized), ("renders", compiler.renders.repr),
        ("watchers", compiler.watchers.length.repr)]

/-- A view, whose further parts are not shown. -/
def engine (e : EngineId) : String :=
  match p.engine? e with
  | none => ""
  | some engine =>
    let (renders, watchers) := match p.compiler? engine.compiler with
      | some compiler => (compiler.renders, compiler.watchers.length)
      | none => (0, 0)
    "RayActive \x7b root: " ++ elementHandle engine.root ++ ", renders: " ++ renders.repr ++
      ", watchers: " ++ watchers.repr ++
      ", bound_types: " ++ list (engine.boundTypes.map Text.quoted) ++ ", .. \x7d"

def receiver (r : Receiver κ) : String :=
  record "ThisProxy"
    [("data", list ((p.store.keys r.data).map Text.quoted)),
      ("methods", braced ((Fields.keys r.methods).map Text.quoted))]

def member : Member κ → String
  | .data f => applied "Data" (field p f)
  | .method _ => "Method(..)"

/-- A document, as its elements by id in ascending order. -/
def document : String :=
  let ids := p.document.elements.toList.map (·.id)
  let entries : Fields ElementId :=
    Fields.ofList (ids.zipIdx.map fun e => (e.1, ⟨e.2 + 1⟩))
  record "MemoryHost"
    [("elements", braced (entries.map fun e => Text.quoted e.1 ++ ": " ++ elementHandle e.2))]

end Page

end ReactiveView.Inspect
