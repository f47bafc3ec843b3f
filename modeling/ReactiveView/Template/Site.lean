import ReactiveView.BindingTable
import ReactiveView.Template.Segment
import ReactiveView.Text.Blank

/-!
# Binding sites

The place of a template where an event is bound: an attribute `@type="method"` that lies within one
literal text and inside a tag.  Attributes are read from left to right without overlaps, and the
first one inside a tag is the site.
-/

namespace ReactiveView

/-- Where a template binds an event, and to what. -/
structure BindingSite where
  -- The index of the text segment that holds the attribute.
  segment : Nat
  -- How many characters of that text go up to the end of the attribute.
  stop : Nat
  binding : Binding
  deriving DecidableEq, Repr

namespace BindingSite

/-! ## 1. Attributes -/

/-- Whether `c` may stand in an event type. -/
def isTypeChar (c : Char) : Bool :=
  !Text.isBlank c && !(['=', '"', '\x27', '<', '>', '/'].contains c)

/-- A binding attribute and its length. -/
structure Attribute where
  binding : Binding
  length : Nat
  deriving DecidableEq, Repr

/-- The attribute that `cs` begins with, if it begins with one. -/
def attributeAt? : List Char → Option Attribute
  | '@' :: rest =>
    let type := rest.takeWhile isTypeChar
    match rest.dropWhile isTypeChar with
    | '=' :: '"' :: value =>
      let method := value.takeWhile (· != '"')
      if type.isEmpty || method.length == value.length then none
      else some ⟨⟨String.ofList type, String.ofList method⟩, type.length + method.length + 4⟩
    | _ => none
  | _ => none

/-! ## 2. Tags -/

/-- Whether a tag is open after `c`, given whether one was open before it. -/
def openAfter (isOpen : Bool) (c : Char) : Bool :=
  if c = '<' then true else if c = '>' then false else isOpen

/-- Whether a tag is open after `cs`. -/
def openAfterAll (isOpen : Bool) (cs : List Char) : Bool := cs.foldl openAfter isOpen

/-! ## 3. The search -/

/-- The site in the text at index `segment`, from its character number `at` on.  The first `skip`
    characters belong to an attribute already read, and `after` is the source behind the text. -/
def inText (segment : Nat) (after : List Char) :
    (isOpen : Bool) → (skip offset : Nat) → List Char → Option BindingSite
  | _, _, _, [] => none
  | isOpen, skip + 1, offset, c :: rest =>
    inText segment after (openAfter isOpen c) skip (offset + 1) rest
  | isOpen, 0, offset, c :: rest =>
    match attributeAt? (c :: rest) with
    | some a =>
      if isOpen && (rest.drop (a.length - 1) ++ after).contains '>' then
        some ⟨segment, offset + a.length, a.binding⟩
      else inText segment after (openAfter isOpen c) (a.length - 1) (offset + 1) rest
    | none => inText segment after (openAfter isOpen c) 0 (offset + 1) rest

/-- The site among the segments from index `i` on. -/
def among : (isOpen : Bool) → (i : Nat) → List Segment → Option BindingSite
  | _, _, [] => none
  | isOpen, i, .text t :: rest =>
    (inText i (Segment.sources rest) isOpen 0 0 t.toList).or
      (among (openAfterAll isOpen t.toList) (i + 1) rest)
  | isOpen, i, .slot key :: rest =>
    among (openAfterAll isOpen (Segment.source (.slot key))) (i + 1) rest

/-- The site of a template with these segments. -/
def ofSegments (segments : List Segment) : Option BindingSite := among false 0 segments

end BindingSite

end ReactiveView
