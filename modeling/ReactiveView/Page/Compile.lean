import ReactiveView.Page
import ReactiveView.Store.Collection

/-!
# Compiling

A compile renders the whole template and replaces the markup of its element.  The first compile also
makes one watcher for each placeholder; where one of them cannot collect, or no id can be drawn, the
compile ends before anything is rendered.  A render counts as soon as its markup is complete: a
document that refuses the markup does not take back the count, nor the id that was drawn.  No client
code runs during a compile.
-/

namespace ReactiveView.Page

variable {κ : Type}

/-! ## 1. The three stages -/

/-- Makes a watcher for each of the keys, until one fails. -/
def watchSlots (p : Page κ) (c : CompilerId) (data : ObjectId) :
    List String → Except ReactiveError Unit × Page κ
  | [] => (.ok (), p)
  | key :: keys =>
    match p.store.watch data key (.render c) with
    | (.error error, store) => (.error error, { p with store })
    | (.ok w, store) =>
      let p := { p with store }
      (p.modifyCompiler c fun compiler =>
        { compiler with watchers := compiler.watchers ++ [w] }).watchSlots c data keys

/-- Draws an id for the binding of the template and records it; without a binding no id is
    drawn. -/
def drawId (p : Page κ) (c : CompilerId) (compiler : Compiler) :
    Except EngineError (Option String) × Page κ :=
  match compiler.template.binding? with
  | none => (.ok none, p)
  | some binding =>
    let (result, ids, entropy) := compiler.ids.draw p.entropy
    let p := { p with entropy }.modifyCompiler c fun compiler => { compiler with ids }
    match result with
    | .error error => (.error error, p)
    | .ok id =>
      let p := p.modifyCompiler c fun compiler => { compiler with lastId := some id }
      (.ok (some id), p.modifyTable compiler.table fun t => t.insert id binding)

/-- Reads the placeholders, counts the render and hands the markup to the document. -/
def renderWith (p : Page κ) (c : CompilerId) (compiler : Compiler) (id : Option String) :
    Except EngineError Unit × Page κ :=
  let (texts, store) := p.store.getTexts compiler.data compiler.template.slots
  let markup := compiler.template.fill texts id
  let p := { p with store }.modifyCompiler c fun compiler =>
    { compiler with initialized := true, renders := compiler.renders + 1 }
  match p.document.setMarkup compiler.root markup with
  | (.error error, document) => (.error (.document error), { p with document })
  | (.ok (), document) =>
    (.ok (), { p with document }.modifyCompiler c fun compiler =>
      { compiler with lastMarkup := markup })

/-! ## 2. A compile -/

/-- Renders the template of a compiler into its element; an empty template is left alone. -/
def compile (p : Page κ) (c : CompilerId) : Except EngineError Unit × Page κ :=
  match p.compiler? c with
  | none => (.ok (), p)
  | some compiler =>
    if compiler.template.isEmpty then (.ok (), p)
    else
      let watched :=
        if compiler.initialized then (.ok (), p)
        else p.watchSlots c compiler.data compiler.template.slots
      match watched with
      | (.error error, p) => (.error (.reactive error), p)
      | (.ok (), p) =>
        match p.drawId c compiler with
        | (.error error, p) => (.error error, p)
        | (.ok id, p) => p.renderWith c compiler id

end ReactiveView.Page
