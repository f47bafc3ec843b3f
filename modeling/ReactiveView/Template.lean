import ReactiveView.Template.Site

/-!
# Templates

A template is parsed once and rendered many times.  Rendering copies the literal texts, puts one
text in the place of each placeholder, and writes an id right behind the binding attribute.
-/

namespace ReactiveView

/-- A parsed template. -/
structure Template where
  source : String
  segments : List Segment
  site : Option BindingSite
  deriving DecidableEq, Repr

namespace Template

/-! ## 1. Parsing -/

def parse (source : String) : Template :=
  let segments := Segment.ofSource source
  ⟨source, segments, BindingSite.ofSegments segments⟩

def isEmpty (t : Template) : Bool := t.source.isEmpty

/-- The keys of the placeholders, in order and with repeats. -/
def slots (t : Template) : List String := Segment.keys t.segments

/-- What the template binds, if it has a binding site. -/
def binding? (t : Template) : Option Binding := t.site.map (·.binding)

/-! ## 2. Rendering -/

/-- The literal text at index `i`, with the id behind the binding attribute if it is there. -/
def textAt (t : Template) (id : Option String) (i : Nat) (text : String) : String :=
  match t.site, id with
  | some site, some id =>
    if site.segment = i then
      String.ofList (text.toList.take site.stop) ++ " id=" ++ id ++
        String.ofList (text.toList.drop site.stop)
    else text
  | _, _ => text

/-- The markup of the segments from index `i` on, the placeholders replaced by `texts` in order. -/
def fillFrom (t : Template) (id : Option String) : (i : Nat) → List Segment → List String → String
  | _, [], _ => ""
  | i, .text text :: rest, texts => t.textAt id i text ++ t.fillFrom id (i + 1) rest texts
  | i, .slot _ :: rest, text :: texts => text ++ t.fillFrom id (i + 1) rest texts
  | i, .slot _ :: rest, [] => t.fillFrom id (i + 1) rest []

/-- The markup with `texts` in the place of the placeholders, one each, and with an id at the
    binding site if one is given. -/
def fill (t : Template) (texts : List String) (id : Option String) : String :=
  t.fillFrom id 0 t.segments texts

/-- The markup with every placeholder replaced by what `lookup` says of its key. -/
def render (t : Template) (lookup : String → String) (id : Option String) : String :=
  t.fill (t.slots.map lookup) id

end Template

end ReactiveView
