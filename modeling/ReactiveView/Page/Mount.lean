import ReactiveView.Page.Compile
import ReactiveView.ViewModel

/-!
# Mounting

A view is mounted in a fixed order: find the root element, observe the data, compile once, and
attach one delegated listener for each event type that is then in the binding table.  Where a step
fails, what the steps before it did to the document stays.
-/

namespace ReactiveView.Page

variable {κ : Type}

/-! ## 1. Delegated listeners -/

/-- Attaches a delegated listener for each of the event types, until one is refused. -/
def bindTypes (p : Page κ) (root : ElementId) (t : TableId) (methods : Fields κ)
    (receiver : Receiver κ) : List String → Except DocumentError Unit × Page κ
  | [] => (.ok (), p)
  | type :: types =>
    match p.document.listen root type (.delegate t methods receiver) with
    | (.error error, document) => (.error error, { p with document })
    | (.ok (), document) => { p with document }.bindTypes root t methods receiver types

/-- Attaches a delegated listener for each event type that is in the table now, and tells which
    types these are. -/
def bind (p : Page κ) (root : ElementId) (t : TableId) (methods : Fields κ)
    (receiver : Receiver κ) : Except DocumentError (List String) × Page κ :=
  let types := (p.table t).eventTypes
  match p.bindTypes root t methods receiver types with
  | (.error error, p) => (.error error, p)
  | (.ok (), p) => (.ok types, p)

/-! ## 2. Views -/

/-- Mounts a view model. -/
def mount (p : Page κ) (vm : ViewModel κ) (config : Config) :
    Except EngineError EngineId × Page κ :=
  match p.document.byId? config.rootId with
  | none => (.error (.rootNotFound config.rootId), p)
  | some root =>
    let (data, store) := p.store.wrap vm.data
    let (t, p) := { p with store }.newTable
    let (c, p) := p.newCompiler (Template.parse vm.template) data root t config.ids.source
    match p.compile c with
    | (.error error, p) => (.error error, p)
    | (.ok (), p) =>
      let receiver : Receiver κ := ⟨data, vm.methods⟩
      match p.bind root t vm.methods receiver with
      | (.error error, p) => (.error (.document error), p)
      | (.ok boundTypes, p) =>
        (.ok ⟨p.engines.size⟩,
          { p with engines := p.engines.push ⟨root, c, receiver, boundTypes⟩ })

end ReactiveView.Page
