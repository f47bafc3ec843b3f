import ReactiveView.Arena
import ReactiveView.BindingTable
import ReactiveView.Document.IdAttribute
import ReactiveView.Failure

/-!
# Documents

A document holds top-level elements, each with its inner markup, a count of the writes to it and
its listeners.  What lies inside an element is only its markup: an event can be sent to an inner
element when the markup shows its id.  A document may be told to refuse coming writes and
registrations; a refused call changes nothing else.
-/

namespace ReactiveView

/-- An event as a listener sees it. -/
structure Event where
  type : String
  -- The id of the inner element that the event was sent to.
  target : Option String
  deriving DecidableEq, Repr

/-- A top-level element; `ℓ` is what its listeners are made of. -/
structure Element (ℓ : Type) where
  id : String
  markup : String := ""
  writes : Nat := 0
  -- The listeners with their event types, in the order of registration.
  listeners : List (String × ℓ) := []
  deriving Repr

namespace Element

variable {ℓ : Type}

/-- The listeners for a type, in the order of registration. -/
def listenersFor (e : Element ℓ) (type : String) : List ℓ :=
  (e.listeners.filter fun l => l.1 == type).map Prod.snd

/-- The event types that have listeners, in the order of their first registrations. -/
def listenedTypes (e : Element ℓ) : List String :=
  BindingTable.firstSeen (e.listeners.map Prod.fst)

end Element

/-- Which of the coming calls are refused: any finite pattern, and as many as one likes in a row. -/
structure Refusals where
  -- How many calls are refused first, without exception.
  count : Nat := 0
  -- Whether each of the calls after those is refused; later ones are not.
  others : List Bool := []
  deriving DecidableEq, Repr

namespace Refusals

/-- Whether the next call is refused. -/
def refusesNext : Refusals → Bool
  | ⟨0, others⟩ => others.headD false
  | ⟨_ + 1, _⟩ => true

/-- What remains after the next call. -/
def afterNext : Refusals → Refusals
  | ⟨0, others⟩ => ⟨0, others.tail⟩
  | ⟨n + 1, others⟩ => ⟨n, others⟩

end Refusals

/-- A document. -/
structure Document (ℓ : Type) where
  elements : Arena (Element ℓ) := {}
  refusedWrites : Refusals := {}
  refusedListens : Refusals := {}
  deriving Repr

namespace Document

variable {ℓ : Type}

/-! ## 1. Elements -/

def element? (d : Document ℓ) (e : ElementId) : Option (Element ℓ) :=
  if e.number = 0 then none else d.elements.get? (e.number - 1)

/-- The element, or the error that names it. -/
def find (d : Document ℓ) (e : ElementId) : Except DocumentError (Element ℓ) :=
  match d.element? e with
  | some element => .ok element
  | none => .error (.unknownElement e)

/-- The handle of the element with this id. -/
def byId? (d : Document ℓ) (id : String) : Option ElementId :=
  (d.elements.toList.findIdx? fun e => e.id == id).map fun i => ⟨i + 1⟩

/-- Registers an element; an id that is there already keeps its element. -/
def create (d : Document ℓ) (id : String) : ElementId × Document ℓ :=
  match d.byId? id with
  | some e => (e, d)
  | none => (⟨d.elements.size + 1⟩, { d with elements := d.elements.push { id } })

/-- The document with just these elements. -/
def ofIds (ids : List String) : Document ℓ :=
  ids.foldl (fun d id => (d.create id).2) {}

def modify (d : Document ℓ) (e : ElementId) (f : Element ℓ → Element ℓ) : Document ℓ :=
  { d with elements := d.elements.modify (e.number - 1) f }

/-- The ids shown by the current markup of an element, in order. -/
def renderedIds (d : Document ℓ) (e : ElementId) : Except DocumentError (List String) :=
  match d.find e with
  | .ok element => .ok (IdAttribute.values element.markup)
  | .error error => .error error

/-! ## 2. Changes that may be refused -/

/-- Replaces the whole markup of an element and counts the write. -/
def setMarkup (d : Document ℓ) (e : ElementId) (markup : String) :
    Except DocumentError Unit × Document ℓ :=
  let allowed : Document ℓ := { d with refusedWrites := d.refusedWrites.afterNext }
  if d.refusedWrites.refusesNext then (.error (.unknownElement e), allowed)
  else
    match d.element? e with
    | none => (.error (.unknownElement e), allowed)
    | some _ =>
      (.ok (), allowed.modify e fun el => { el with markup, writes := el.writes + 1 })

/-- Adds a listener behind those that an element has. -/
def listen (d : Document ℓ) (e : ElementId) (type : String) (listener : ℓ) :
    Except DocumentError Unit × Document ℓ :=
  let allowed : Document ℓ := { d with refusedListens := d.refusedListens.afterNext }
  if d.refusedListens.refusesNext then (.error (.unknownElement e), allowed)
  else
    match d.element? e with
    | none => (.error (.unknownElement e), allowed)
    | some _ =>
      let added (el : Element ℓ) := { el with listeners := el.listeners ++ [(type, listener)] }
      (.ok (), allowed.modify e added)

/-- Tells how many of the next writes and registrations are refused. -/
def refuse (d : Document ℓ) (writes listens : Nat) : Document ℓ :=
  { d with
    refusedWrites := ⟨writes, []⟩
    refusedListens := ⟨listens, []⟩ }

/-! ## 3. Sending events -/

/-- The listeners that an event sent to the inner element `target` of `root` reaches: the element
    must be known, and its markup must show the target. -/
def reached (d : Document ℓ) (root : ElementId) (type target : String) :
    Except DocumentError (List ℓ) :=
  match d.find root with
  | .error error => .error error
  | .ok element =>
    if target ∈ IdAttribute.values element.markup then .ok (element.listenersFor type)
    else .error (.notRendered root target)

end Document

end ReactiveView
