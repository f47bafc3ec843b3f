import ReactiveView.Demo.Card
import ReactiveView.Proofs.View.Clickable

/-!
# The card of the demo

While the demo runs its page differs only in the data of the card, in how often the card has
rendered and in the markup of the last render; everything else, the ids among it, follows from
these.  So a page stands for a card, and each step of the demo is a step of a card: a mount gives
the first one, a compile renders it, and a click renames the person, makes them older and renders,
after each of the two writes, once for every placeholder that differs from what it was at the mount.
-/

namespace ReactiveView.Demo

/-! ## 1. Cards and pages -/

/-- What changes about the card while the demo runs. -/
structure Card where
  name : String
  age : Binary64
  -- How often the card has rendered.
  renders : Nat
  -- The markup of the last render.
  markup : String

/-- What does not change: the id of the root element, where binding ids come from, and the random
    words at the start. -/
structure Stage where
  rootId : String
  source : IdSource
  entropy : Entropy

/-- The ids of the first `n` renders. -/
def Stage.ids (g : Stage) (n : Nat) : List String := g.source.firstIds n g.entropy

/-- The template of the card. -/
def face : Template := Template.parse template

def clickBinding : Binding := ⟨"click", "handleClick"⟩

/-- The data of the card. -/
def data : ObjectId := ⟨⟨0⟩, 0⟩

def receiver : Receiver Handler := ⟨data, viewModel.methods⟩

/-- The watchers of the card, one for each placeholder. -/
def watchers : List (WatcherId × Watcher (Reaction Handler)) :=
  [(⟨⟨0⟩, 0⟩, ⟨1, data, "name", .render ⟨0⟩, .value (.text "Ray")⟩),
    (⟨⟨0⟩, 1⟩, ⟨2, data, "age", .render ⟨0⟩, .value (.number (Binary64.ofInt 18))⟩)]

/-- The store that holds a name and an age, when `n` of the watchers have been made. -/
def storeWith (name : String) (age : Binary64) (n : Nat) : Store (Reaction Handler) where
  trees := ⟨#[{
    objects := ⟨#[{
      slots := [("age", .plain (.number age)), ("name", .plain (.text name))]
      registered := (watchers.take n).map Prod.fst }]⟩
    watchers := ⟨((watchers.take n).map Prod.snd).toArray⟩
    issued := n }]⟩

/-- The compiler that has rendered the card. -/
def Card.compiler (c : Card) (g : Stage) : Compiler where
  template := face
  data := data
  root := ⟨1⟩
  table := ⟨0⟩
  ids := (g.source.after g.entropy c.renders).1
  initialized := true
  renders := c.renders
  watchers := watchers.map Prod.fst
  lastId := (g.ids c.renders).getLast?
  lastMarkup := c.markup

/-- The page that shows the card. -/
def Card.page (c : Card) (g : Stage) : Page Handler where
  store := storeWith c.name c.age 2
  document := { elements := ⟨#[{
    id := g.rootId, markup := c.markup, writes := c.renders
    listeners := [("click", .delegate ⟨0⟩ viewModel.methods receiver)] }]⟩ }
  tables := ⟨#[BindingTable.empty.insertAll (g.ids c.renders) clickBinding]⟩
  compilers := ⟨#[c.compiler g]⟩
  engines := ⟨#[⟨⟨1⟩, ⟨0⟩, receiver, ["click"]⟩]⟩
  entropy := (g.source.after g.entropy c.renders).2

/-! ## 2. Renders -/

theorem face_eq : face = ⟨template,
    [.text "<div><div>name: ", .slot "name", .text "</div><div>age: ", .slot "age",
      .text "</div><button @click=\"handleClick\">click</button></div>"],
    some ⟨4, 34, clickBinding⟩⟩ := by
  decide +kernel

theorem face_parts :
    face.isEmpty = false ∧ face.slots = ["name", "age"] ∧ face.binding? = some clickBinding := by
  rw [face_eq]
  exact ⟨by decide, rfl, rfl⟩

theorem getTexts_storeWith (name : String) (age : Binary64) :
    (storeWith name age 2).getTexts data face.slots =
      ([name, age.interpolation], storeWith name age 2) := by
  rw [face_parts.2.1]
  rfl

/-- The card after another render. -/
def Card.render (c : Card) (g : Stage) : Card :=
  { c with
    renders := c.renders + 1
    markup := face.fill [c.name, c.age.interpolation] (g.ids (c.renders + 1)).getLast? }

variable {g : Stage}

/-- **A compile renders the card.** -/
theorem Card.compile_page (hs : g.source.Endless) (c : Card) :
    (c.page g).compile ⟨0⟩ = (.ok (), (c.render g).page g) := by
  obtain ⟨hfull, -, hbinding⟩ := face_parts
  obtain ⟨id, hdraw, hids⟩ := hs.draw_after g.entropy c.renders
  have hdrawn := Page.drawId_of_ok (x := c.compiler g) (p := c.page g) hbinding hdraw ⟨0⟩
  rw [Page.compile_of_drawn rfl hfull rfl hdrawn,
    Page.renderWith_of_ok (getTexts_storeWith c.name c.age) rfl]
  simp only [page, compiler, render, Stage.ids, hids, List.getLast?_concat,
    BindingTable.insertAll_concat]
  rfl

/-! ## 3. The mount -/

/-- The compiler of the card before its first compile. -/
def fresh (t : Template) (ids : IdSource) : Compiler :=
  { template := t, data := data, root := ⟨1⟩, table := ⟨0⟩, ids }

/-- The page on which the card waits for its first compile, when `n` of the watchers have been
    made. -/
def Stage.waiting (g : Stage) (t : Template) (n : Nat) : Page Handler where
  store := storeWith "Ray" (Binary64.ofInt 18) n
  document := { elements := ⟨#[{ id := g.rootId }]⟩ }
  tables := ⟨#[.empty]⟩
  compilers := ⟨#[{ fresh t g.source with watchers := (watchers.take n).map Prod.fst }]⟩
  entropy := g.entropy

theorem watch_name : (storeWith "Ray" (Binary64.ofInt 18) 0).watch data "name" (.render ⟨0⟩) =
    (.ok ⟨⟨0⟩, 0⟩, storeWith "Ray" (Binary64.ofInt 18) 1) :=
  rfl

theorem watch_age : (storeWith "Ray" (Binary64.ofInt 18) 1).watch data "age" (.render ⟨0⟩) =
    (.ok ⟨⟨0⟩, 1⟩, storeWith "Ray" (Binary64.ofInt 18) 2) :=
  rfl

theorem watchSlots_waiting (t : Template) :
    (g.waiting t 0).watchSlots ⟨0⟩ data ["name", "age"] = (.ok (), g.waiting t 2) := by
  simp only [Stage.waiting, Page.watchSlots, watch_name, watch_age, Page.modifyCompiler]
  rfl

/-- The card behind the mount. -/
def Stage.mounted (g : Stage) : Card := Card.render ⟨"Ray", Binary64.ofInt 18, 0, ""⟩ g

/-- The page with the card, before anybody listens. -/
def Card.unbound (c : Card) (g : Stage) : Page Handler :=
  { c.page g with
    document := { elements := ⟨#[{ id := g.rootId, markup := c.markup, writes := c.renders }]⟩ }
    engines := {} }

theorem compile_waiting (hs : g.source.Endless) :
    (g.waiting face 0).compile ⟨0⟩ = (.ok (), g.mounted.unbound g) := by
  obtain ⟨hfull, hslots, hbinding⟩ := face_parts
  obtain ⟨id, hdraw, hids⟩ := hs.draw_after g.entropy 0
  have hfresh : (g.waiting face 0).compiler? ⟨0⟩ = some (fresh face g.source) := rfl
  have hwatch := watchSlots_waiting (g := g) face
  rw [← hslots] at hwatch
  have hdrawn := Page.drawId_of_ok (x := fresh face g.source) (p := g.waiting face 2) hbinding
    hdraw ⟨0⟩
  rw [Page.compile_of_drawn hfresh hfull ((if_neg Bool.false_ne_true).trans hwatch) hdrawn,
    Page.renderWith_of_ok (x := fresh face g.source)
      (getTexts_storeWith "Ray" (Binary64.ofInt 18)) rfl]
  simp only [Card.unbound, Stage.mounted, Card.page, Card.compiler, Card.render, Stage.ids, hids,
    List.getLast?_concat, BindingTable.insertAll_concat]
  rfl

theorem Card.bind_unbound {c : Card} {id : String} (hids : g.ids c.renders = [id]) :
    (c.unbound g).bind ⟨1⟩ ⟨0⟩ viewModel.methods receiver =
      (.ok ["click"], { c.page g with engines := {} }) := by
  have htypes : ((c.unbound g).table ⟨0⟩).eventTypes = ["click"] := by
    show (BindingTable.empty.insertAll (g.ids c.renders) clickBinding).eventTypes = _
    rw [hids]
    rfl
  rw [Page.bind]
  dsimp only
  rw [htypes]
  rfl

/-- **A mount shows the card.** -/
theorem mount_card (config : Config) (entropy : Entropy) :
    let g : Stage := ⟨config.rootId, config.ids.source, entropy⟩
    (Page.ofIds [config.rootId] entropy).mount viewModel config =
      (.ok ⟨0⟩, g.mounted.page g) := by
  intro g
  have hs : g.source.Endless := IdSource.endless_source config.ids
  obtain ⟨id, -, hids⟩ := hs.draw_after entropy 0
  have hroot : (Page.ofIds [config.rootId] entropy : Page Handler).document.byId? config.rootId =
      some ⟨1⟩ := by
    simp [Page.ofIds, Document.ofIds, Document.byId?, Document.create, Arena.toList, Arena.push,
      Arena.size]
  have hstaged : (Page.ofIds [config.rootId] entropy).staged viewModel config ⟨1⟩ =
      g.waiting face 0 := rfl
  have hcompile := compile_waiting hs
  rw [← hstaged] at hcompile
  exact Page.mount_of_ok hroot hcompile (Card.bind_unbound hids)

/-! ## 4. Writes -/

section Writes

variable {σ : Type} {holds : σ → List Node} (serve : Cue Handler → Run Handler σ Unit) {st : σ}
  (pins : List Node)

theorem watcher?_name (name : String) (age : Binary64) :
    (storeWith name age 2).watcher? ⟨⟨0⟩, 0⟩ =
      some ⟨1, data, "name", .render ⟨0⟩, .value (.text "Ray")⟩ :=
  rfl

theorem watcher?_age (name : String) (age : Binary64) :
    (storeWith name age 2).watcher? ⟨⟨0⟩, 1⟩ =
      some ⟨2, data, "age", .render ⟨0⟩, .value (.number (Binary64.ofInt 18))⟩ :=
  rfl

-- An update of a watcher of the card renders it, unless the property is back at the baseline.
theorem Card.update_watcher (hs : g.source.Endless) (hheld : .engine ⟨0⟩ ∈ holds st) (c : Card)
    {u : WatcherId} {number : Nat} {key : String} {baseline : Field}
    (hu : (storeWith c.name c.age 2).watcher? u = some ⟨number, data, key, .render ⟨0⟩, baseline⟩)
    (hread : ((storeWith c.name c.age 2).get data key).2 = storeWith c.name c.age 2) :
    u.update holds serve ⟨c.page g, st, pins⟩ =
      some (.ok (), ⟨(if ((storeWith c.name c.age 2).field data key).strictEqual baseline then c
        else c.render g).page g, st, pins⟩) := by
  have hengine : (c.page g).engine? ⟨0⟩ = some ⟨⟨1⟩, ⟨0⟩, receiver, ["click"]⟩ := rfl
  have hsame : World.read ⟨c.page g, st, pins⟩ data key = ⟨c.page g, st, pins⟩ := by
    show (⟨{ c.page g with store := ((storeWith c.name c.age 2).get data key).2 }, st, pins⟩ :
      World Handler σ) = _
    rw [hread]
    rfl
  have halive : World.alive holds ⟨c.page g, st, pins⟩ (.object data) = true :=
    Page.alive_of_held (List.mem_append_left _ hheld) hengine (by decide)
  have hcompiler : ∀ ns, World.alive holds
      { (⟨c.page g, st, pins⟩ : World Handler σ) with pins := ns ++ pins } (.compiler ⟨0⟩) = true :=
    fun ns => Page.alive_of_held (List.mem_append_left _ hheld) hengine (by decide)
  have hreact := Watcher.react_render (w := ⟨c.page g, st, pins⟩)
    (x := ⟨number, data, key, .render ⟨0⟩, baseline⟩) holds serve rfl hcompiler
    ((storeWith c.name c.age 2).field data key)
  rw [c.compile_page hs] at hreact
  rw [WatcherId.update_of_some (w := ⟨c.page g, st, pins⟩) holds serve hu, if_pos halive, hsame]
  by_cases hback : ((storeWith c.name c.age 2).field data key).strictEqual baseline = true
  · rw [if_pos hback]
    exact if_pos hback
  · rw [if_neg hback]
    exact (if_neg hback).trans hreact

/-- The card after an update of both watchers: it renders for each property that is not back at what
    it was when the card was mounted. -/
def Card.refreshed (c : Card) (g : Stage) : Card :=
  let c := if c.name == "Ray" then c else c.render g
  if c.age.equal (Binary64.ofInt 18) then c else c.render g

theorem Card.updateAll_page (hs : g.source.Endless) (hheld : .engine ⟨0⟩ ∈ holds st) (c : Card) :
    updateAll holds serve (watchers.map Prod.fst) ⟨c.page g, st, pins⟩ =
      some (.ok (), ⟨(c.refreshed g).page g, st, pins⟩) := by
  have hname := c.update_watcher serve pins hs hheld (watcher?_name _ _) rfl
  -- the second update finds the card as the first one left it
  have hage := fun c : Card => c.update_watcher serve pins hs hheld (watcher?_age _ _) rfl
  exact (Run.bind_of_ok hname).trans (Run.bind_of_ok (hage _))

-- A write that makes another card of the page.
theorem Card.set_page (hs : g.source.Endless) (hheld : .engine ⟨0⟩ ∈ holds st) {c d : Card}
    {key : String} {v : Value}
    (hwrite : { c.page g with store := (c.page g).store.write data key v } = d.page g) :
    (Operation.set data key v).run holds serve ⟨c.page g, st, pins⟩ =
      some (.ok (), ⟨(d.refreshed g).page g, st, pins⟩) := by
  have hregistered : (c.page g).store.registered (.ofObject data) = watchers.map Prod.fst := rfl
  rw [Operation.run, ObjectId.set_apply, hregistered, hwrite, d.updateAll_page serve _ hs hheld]
  rfl

theorem Card.write_name (c : Card) (name : String) :
    { c.page g with store := (c.page g).store.write data "name" (.text name) } =
      Card.page { c with name } g :=
  rfl

theorem Card.write_age (c : Card) (age : Binary64) :
    { c.page g with store := (c.page g).store.write data "age" (.number age) } =
      Card.page { c with age } g :=
  rfl

end Writes

/-! ## 5. Clicks -/

/-- The card after a click. -/
def Card.clicked (c : Card) (g : Stage) : Card :=
  Card.refreshed { Card.refreshed { c with name := "jack" } g with age := Binary64.ofInt 24 } g

section Clicks

variable {screen : Screen} (pins : List Node)

theorem Card.handleClick_page (hs : g.source.Endless)
    (hheld : .engine ⟨0⟩ ∈ client.holds screen) (serve : Cue Handler → Run Handler Screen Unit)
    (c : Card) :
    (handleClick receiver).program.run client.holds serve ⟨c.page g, screen, pins⟩ =
      some (.ok (), ⟨(c.clicked g).page g, screen, pins⟩) := by
  have hname := set_page serve pins hs hheld (c.write_name "jack")
  have hage := set_page serve pins hs hheld
    ((Card.refreshed { c with name := "jack" } g).write_age (Binary64.ofInt 24))
  exact (Program.run_perform hname _).trans (Program.run_perform hage _)

/-- **A click on the id of a render that the markup shows is taken.** -/
theorem Card.dispatch_page (hs : g.source.Endless) (hheld : .engine ⟨0⟩ ∈ client.holds screen)
    {c : Card} {id : String} (hid : id ∈ g.ids c.renders)
    (hshown : id ∈ IdAttribute.values c.markup) :
    (Operation.dispatch ⟨1⟩ "click" id).run client.holds (client.answer 1)
        ⟨c.page g, screen, pins⟩ =
      some (.ok 1, ⟨(c.clicked g).page g, screen, pins⟩) := by
  have hears : (c.page g).HearsOnly ⟨1⟩ g.rootId
      (["click"].map fun type => (type, .delegate ⟨0⟩ viewModel.methods receiver)) :=
    ⟨_, rfl, rfl, rfl⟩
  have hget : ((c.page g).table ⟨0⟩).get? id = some ⟨"click", "handleClick"⟩ :=
    (BindingTable.get?_insertAll _ _ _ _).trans (if_pos hid)
  obtain ⟨shown, hd⟩ := delegates_of_hearsOnly (w := ⟨c.page g, screen, pins⟩) (by decide) hears
    (client.answer 1) "click" id
  obtain rfl : IdAttribute.values c.markup = shown := Except.ok.inj hd.shows
  have hcall := c.handleClick_page (.object data :: pins) hs hheld (client.answer 0)
  exact (hd.called hshown (by decide) hget rfl).trans (congrArg (Option.map _) hcall)

end Clicks

end ReactiveView.Demo
