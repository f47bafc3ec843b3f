import ReactiveView.Proofs.Client.Alongside
import ReactiveView.Proofs.Isolation.Separation

/-!
# Code that keeps to its view

Code is local to a view if it asks for nothing but what belongs to the view, takes handles as they
come, and neither reads nor changes what its client remembers.  It does not know in which territory
its view is, so that it is the same code in another one; and run there, on a page that shows the
same view, it comes to the same outcome.
-/

namespace ReactiveView

variable {κ σ σ' : Type}

/-! ## 1. Local code -/

/-- The two operations ask for the same of a view, the one in the territory `here` and the other in
    `there`; the replies then correspond. -/
inductive Operation.Matches (here there : Territory) (mine : κ → Prop) :
    (op op' : Operation κ) → (op.Reply → op'.Reply → Prop) → Prop where
  | observe (v : Value) :
    Matches here there mine (.observe v (some here.tree)) (.observe v (some there.tree))
      fun (o o' : ObjectId) => o.tree = here.tree ∧ o' = o.into there.tree
  | get {o : ObjectId} (ho : o.tree = here.tree) (key : String) :
    Matches here there mine (.get o key) (.get (o.into there.tree) key)
      fun (field field' : Field) => field.Within here.tree ∧ field' = field.into there.tree
  | set {o : ObjectId} (ho : o.tree = here.tree) (key : String) (v : Value) :
    Matches here there mine (.set o key v) (.set (o.into there.tree) key v) fun _ _ => True
  | watch {o : ObjectId} (ho : o.tree = here.tree) (key : String) {code : κ} (hcode : mine code) :
    Matches here there mine (.watch o key code) (.watch (o.into there.tree) key code)
      fun (w w' : WatcherId) => w.tree = here.tree ∧ w' = w.into there.tree
  | update {w : WatcherId} (hw : w.tree = here.tree) :
    Matches here there mine (.update w) (.update (w.into there.tree)) fun _ _ => True
  | register {o : ObjectId} {w : WatcherId} (ho : o.tree = here.tree) (hw : w.tree = here.tree) :
    Matches here there mine (.register (.ofObject o) w)
      (.register (.ofObject (o.into there.tree)) (w.into there.tree)) fun _ _ => True
  | notify {o : ObjectId} (ho : o.tree = here.tree) :
    Matches here there mine (.notify (.ofObject o)) (.notify (.ofObject (o.into there.tree)))
      fun _ _ => True
  | isAlive {n : Node} (hn : here.Owns n) :
    Matches here there mine (.isAlive n) (.isAlive (n.into there)) fun (a a' : Bool) => a' = a
  | setMarkup (markup : String) :
    Matches here there mine (.setMarkup here.root markup) (.setMarkup there.root markup)
      fun _ _ => True
  | listen (type : String) {code : κ} (hcode : mine code) :
    Matches here there mine (.listen here.root type code) (.listen there.root type code)
      fun _ _ => True
  | dispatch (type target : String) :
    Matches here there mine (.dispatch here.root type target) (.dispatch there.root type target)
      fun (n n' : Nat) => n' = n
  | deliver (type : String) (event : Event) :
    Matches here there mine (.deliver here.root type event) (.deliver there.root type event)
      fun (n n' : Nat) => n' = n
  | compile :
    Matches here there mine (.compile here.compiler) (.compile there.compiler) fun _ _ => True
  | call {receiver : Receiver κ} (hreceiver : receiver.Within here.tree mine) (name : String) :
    Matches here there mine (.call receiver name) (.call (receiver.into there.tree) name)
      fun _ _ => True

/-- The two programs are the same local code, of a view in the territory `here` and of the same view
    in `there`. -/
inductive Program.Matches (here there : Territory) (mine : κ → Prop) :
    Program κ σ → Program κ σ' → Prop where
  | done : Matches here there mine .done .done
  | fail (error : Failure) : Matches here there mine (.fail error) (.fail error)
  -- What it makes of a page depends on the view alone.
  | look {next : Page κ → Program κ σ} {next' : Page κ → Program κ σ'}
    (h : ∀ p q, p.SameView here there mine q → Matches here there mine (next p) (next' q)) :
    Matches here there mine (.look next) (.look next')
  | perform {op op' : Operation κ} {rel : op.Reply → op'.Reply → Prop}
    {next : Except Failure op.Reply → Program κ σ} {next' : Except Failure op'.Reply → Program κ σ'}
    (hop : op.Matches here there mine op' rel)
    (hnext : ∀ r r', SameOutcome rel r r' → Matches here there mine (next r) (next' r')) :
    Matches here there mine (.perform op next) (.perform op' next')
  | collect {w : WatcherId} (hw : w.tree = here.tree) {body : Program κ σ} {body' : Program κ σ'}
    {next : Except Failure Unit → Program κ σ} {next' : Except Failure Unit → Program κ σ'}
    (hbody : Matches here there mine body body')
    (hnext : ∀ r, Matches here there mine (next r) (next' r)) :
    Matches here there mine (.collect here.tree w body next)
      (.collect there.tree (w.into there.tree) body' next')

/-- The call is one of code of the view, with what belongs to the view. -/
def Cue.Within (here : Territory) (mine : κ → Prop) : Cue κ → Prop
  | reaction code field => mine code ∧ field.Within here.tree
  | event code _ => mine code
  | method code receiver => mine code ∧ receiver.Within here.tree mine

/-- The call with what belongs to the view in another territory. -/
def Cue.into (cue : Cue κ) (there : Territory) : Cue κ :=
  match cue with
  | reaction code field => reaction code (field.into there.tree)
  | event code e => event code e
  | method code receiver => method code (receiver.into there.tree)

/-- The code of the view, which is that among `mine`, is local, and the same for both clients. -/
def Client.Matches (c : Client κ σ) (here there : Territory) (mine : κ → Prop)
    (c' : Client κ σ') : Prop :=
  ∀ cue : Cue κ, cue.Within here mine →
    (c.respond cue).Matches here there mine (c'.respond (cue.into there))

/-! ## 2. Worlds with the same view -/

/-- Since `b` and `b'` only one view has changed in each of the worlds, and it is the same view. -/
structure World.Abreast (holds : σ → List Node) (holds' : σ' → List Node) (here there : Territory)
    (mine : κ → Prop) (b : Page κ) (s : σ) (b' : Page κ) (s' : σ') (w : World κ σ)
    (w' : World κ σ') : Prop where
  page : Page.Abreast here there mine b b' w.page w'.page
  client : w.client = s
  client' : w'.client = s'
  held : Page.SameHeld here there (holds s ++ w.pins) (holds' s' ++ w'.pins)

section Worlds

variable {holds : σ → List Node} {holds' : σ' → List Node} {here there : Territory}
  {mine : κ → Prop} {b b' : Page κ} {s : σ} {s' : σ'} {w w₁ : World κ σ} {w' w₁' : World κ σ'}
  {serve : Cue κ → Run κ σ Unit} {serve' : Cue κ → Run κ σ' Unit}

theorem World.Abreast.turn
    (h : World.Abreast holds holds' here there mine b s b' s' w w') {p q : Page κ}
    (hpage : Page.Abreast here there mine b b' p q) :
    World.Abreast holds holds' here there mine b s b' s' { w with page := p }
      { w' with page := q } :=
  ⟨hpage, h.client, h.client', h.held⟩

-- What an operation of the view keeps alive while it is under way belongs to the view.
theorem World.Abreast.enter (h : World.Abreast holds holds' here there mine b s b' s' w w')
    {ns : List Node} (hns : ∀ n ∈ ns, here.Owns n) :
    World.Abreast holds holds' here there mine b s b' s' { w with pins := ns ++ w.pins }
      { w' with pins := ns.map (·.into there) ++ w'.pins } := by
  refine ⟨h.page, h.client, h.client', fun n hn => ?_⟩
  have hmem : n.into there ∈ ns.map (·.into there) ↔ n ∈ ns := by
    refine ⟨fun hm => ?_, List.mem_map_of_mem⟩
    obtain ⟨m, hm, he⟩ := List.mem_map.1 hm
    rwa [← (Node.into_inj (hns m hm) hn).1 he]
  have hheld := h.held n hn
  simp only [List.mem_append, hmem] at hheld ⊢
  rw [or_left_comm, hheld, or_left_comm]

theorem World.Abreast.leave (h : World.Abreast holds holds' here there mine b s b' s' w w')
    (h₁ : World.Abreast holds holds' here there mine b s b' s' w₁ w₁') :
    World.Abreast holds holds' here there mine b s b' s' { w₁ with pins := w.pins }
      { w₁' with pins := w'.pins } :=
  ⟨h₁.page, h₁.client, h₁.client', h.held⟩

theorem Run.Alongside.pinned {α α' : Type} {rel : α → α' → Prop} {x : Run κ σ α}
    {x' : Run κ σ' α'} {ns : List Node} (hns : ∀ n ∈ ns, here.Owns n)
    (h : Run.Alongside (World.Abreast holds holds' here there mine b s b' s') rel x x') :
    Run.Alongside (World.Abreast holds holds' here there mine b s b' s') rel (Run.pinning ns x)
      (Run.pinning (ns.map (·.into there)) x') :=
  h.pinning (fun hw => hw.enter hns) fun hw hw₁ => hw.leave hw₁

theorem World.Abreast.alive (hb : b.Apart here) (hb' : b'.Apart there)
    (h : World.Abreast holds holds' here there mine b s b' s' w w') {n : Node} (hn : here.Owns n) :
    w'.page.alive (holds' w'.client ++ w'.pins) (n.into there) =
      w.page.alive (holds w.client ++ w.pins) n := by
  have hview := h.page.toSameView
  obtain ⟨hclosed, hclosed'⟩ := hview.closed
  rw [h.client, h.client']
  exact hview.alive (hb.of_besides h.page.left hclosed (.inl rfl))
    (hb'.of_besides h.page.right hclosed' (.inl rfl)) h.held hn

/-! ## 3. Runs with the same view -/

variable (hb : b.Apart here) (hb' : b'.Apart there)
  (hserve : ∀ cue : Cue κ, cue.Within here mine →
    Run.Alongside (World.Abreast holds holds' here there mine b s b' s') (fun _ _ => True)
      (serve cue) (serve' (cue.into there)))

include hb hb' in
theorem Run.isAlive_alongside {n : Node} (hn : here.Owns n) :
    Run.Alongside (World.Abreast holds holds' here there mine b s b' s') (fun a a' => a' = a)
      (Run.isAlive holds n) (Run.isAlive holds' (n.into there)) := fun _ _ hw =>
  .some (.ok (hw.alive hb hb' hn)) hw

theorem Page.compile_alongside :
    Run.Alongside (World.Abreast holds holds' here there mine b s b' s') (fun _ _ => True)
      (Run.attempt .engine (·.compile here.compiler))
      (Run.attempt .engine (·.compile there.compiler)) :=
  .attempt fun _ _ hw => ⟨.of_eq hw.page.compile.1, hw.turn hw.page.compile.2⟩

include hb hb' hserve in
theorem Reaction.run_alongside {r : Reaction κ} (hr : r.Within here mine) {field : Field}
    (hfield : field.Within here.tree) :
    Run.Alongside (World.Abreast holds holds' here there mine b s b' s') (fun _ _ => True)
      (r.run holds serve field)
      ((r.into there.compiler).run holds' serve' (field.into there.tree)) := by
  cases r with
  | client code => exact hserve (.reaction code field) ⟨hr, hfield⟩
  | render c =>
    obtain rfl : c = here.compiler := hr
    refine (Run.isAlive_alongside (n := .compiler here.compiler) hb hb' rfl).bind fun a a' ha => ?_
    subst ha
    cases a' with
    | true =>
      rw [if_pos rfl, if_pos rfl]
      exact Page.compile_alongside
    | false => exact .pure trivial

include hb hb' hserve in
theorem WatcherId.update_alongside {x : WatcherId} (hx : x.tree = here.tree) :
    Run.Alongside (World.Abreast holds holds' here there mine b s b' s') (fun _ _ => True)
      (x.update holds serve) ((x.into there.tree).update holds' serve') := by
  have hlook : Run.Alongside (World.Abreast holds holds' here there mine b s b' s')
      (fun y y' => y' = y.map (·.into there.tree (·.into there.compiler)) ∧
        ∀ z ∈ y, z.Within here.tree (Reaction.Within here mine))
      (Run.look (·.store.watcher? x)) (Run.look (·.store.watcher? (x.into there.tree))) :=
    .look fun w w' hw => ⟨hw.page.store.watcher? hx, fun z hz => hw.page.store.watcher_within hx hz⟩
  refine hlook.bind fun y y' ⟨hy', hy⟩ => ?_
  subst hy'
  cases y with
  | none => exact .pure trivial
  | some y =>
    have hwithin := hy y rfl
    refine (Run.isAlive_alongside hb hb' (n := .object y.source) hwithin.source).bind
      fun a a' ha => ?_
    subst ha
    cases a' with
    | false => exact .pure trivial
    | true =>
      have hread : Run.Alongside (World.Abreast holds holds' here there mine b s b' s')
          (fun field field' => field.Within here.tree ∧ field' = field.into there.tree)
          (Run.page fun p => ((p.store.get y.source y.property).1,
            { p with store := (p.store.get y.source y.property).2 }))
          (Run.page fun p => ((p.store.get (y.source.into there.tree) y.property).1,
            { p with store := (p.store.get (y.source.into there.tree) y.property).2 })) := by
        refine .page fun w w' hw => ?_
        obtain ⟨hfield, hmoved, hstore⟩ := hw.page.data.get hwithin.source y.property
        exact ⟨⟨hfield, hmoved⟩, hw.turn (hw.page.withStore hstore)⟩
      refine hread.bind fun field field' ⟨hfield, hmoved⟩ => ?_
      subst hmoved
      show Run.Alongside _ _ (if field.strictEqual y.baseline then _ else _)
        (if (field.into there.tree).strictEqual (y.baseline.into there.tree) then _ else _)
      rw [Field.strictEqual_into hfield hwithin.baseline]
      cases field.strictEqual y.baseline with
      | true => exact .pure trivial
      | false =>
        have hns : ∀ n ∈ Node.object y.source :: field.proxy?.toList.map .object, here.Owns n := by
          intro n hn
          rcases List.mem_cons.1 hn with rfl | hn
          · exact hwithin.source
          · obtain ⟨o, ho, rfl⟩ := List.mem_map.1 hn
            exact hfield.proxy? o (Option.mem_toList.1 ho)
        have hmoved : (Node.object y.source :: field.proxy?.toList.map .object).map (·.into there) =
            .object (y.source.into there.tree) ::
              (field.into there.tree).proxy?.toList.map .object := by
          rw [Field.proxy?_into]
          cases field.proxy? <;> rfl
        have hreaction := Reaction.run_alongside hb hb' hserve hwithin.reaction hfield
        have hrun := (hreaction.mapFailure fun cause =>
          .reactive (.callback y.number y.property cause)).pinned hns
        rw [hmoved] at hrun
        exact hrun

include hb hb' hserve in
theorem updateAll_alongside {ws : List WatcherId} (hws : ∀ x ∈ ws, x.tree = here.tree) :
    Run.Alongside (World.Abreast holds holds' here there mine b s b' s') (fun _ _ => True)
      (updateAll holds serve ws) (updateAll holds' serve' (ws.map (·.into there.tree))) := by
  induction ws with
  | nil => exact .pure trivial
  | cons x ws ih =>
    exact (WatcherId.update_alongside hb hb' hserve (hws x (List.mem_cons_self ..))).bind
      fun _ _ _ => ih fun y hy => hws y (List.mem_cons_of_mem _ hy)

include hb hb' hserve in
theorem RegistryId.notify_alongside {o : ObjectId} (ho : o.tree = here.tree) :
    Run.Alongside (World.Abreast holds holds' here there mine b s b' s') (fun _ _ => True)
      ((RegistryId.ofObject o).notify holds serve)
      ((RegistryId.ofObject (o.into there.tree)).notify holds' serve') := by
  have hlook : Run.Alongside (World.Abreast holds holds' here there mine b s b' s')
      (fun ws ws' => ws' = ws.map (·.into there.tree) ∧ ∀ x ∈ ws, x.tree = here.tree)
      (Run.look (·.store.registered (.ofObject o)))
      (Run.look (·.store.registered (.ofObject (o.into there.tree)))) :=
    .look fun w w' hw => hw.page.store.registered ho
  refine hlook.bind fun ws ws' ⟨hmoved, hws⟩ => ?_
  subst hmoved
  have hns : ∀ n ∈ ws.map Node.watcher, here.Owns n := fun n hn => by
    obtain ⟨x, hx, rfl⟩ := List.mem_map.1 hn
    exact hws x hx
  have hrun := (updateAll_alongside hb hb' hserve hws).pinned hns
  rw [List.map_map] at hrun
  show Run.Alongside _ _ _ (Run.pinning ((ws.map _).map Node.watcher) _)
  rw [List.map_map]
  exact hrun

include hb hb' hserve in
theorem ObjectId.set_alongside {o : ObjectId} (ho : o.tree = here.tree) (key : String) (v : Value) :
    Run.Alongside (World.Abreast holds holds' here there mine b s b' s') (fun _ _ => True)
      (o.set holds serve key v) ((o.into there.tree).set holds' serve' key v) := by
  have hwrite : Run.Alongside (World.Abreast holds holds' here there mine b s b' s')
      (fun _ _ => True) (Run.page fun p => ((), { p with store := p.store.write o key v }))
      (Run.page fun p => ((), { p with store := p.store.write (o.into there.tree) key v })) :=
    .page fun w w' hw =>
      ⟨trivial, hw.turn (hw.page.withStore (hw.page.data.write ho key v))⟩
  have hns : ∀ n ∈ [Node.object o], here.Owns n := fun n hn => by
    rw [List.mem_singleton.1 hn]
    exact ho
  exact (hwrite.bind fun _ _ _ => RegistryId.notify_alongside hb hb' hserve ho).pinned hns

include hserve in
theorem Receiver.run_alongside {receiver : Receiver κ}
    (hreceiver : receiver.Within here.tree mine) (name : String) {code : κ} (hcode : mine code) :
    Run.Alongside (World.Abreast holds holds' here there mine b s b' s') (fun _ _ => True)
      (receiver.run serve name code) ((receiver.into there.tree).run serve' name code) := by
  have hns : ∀ n ∈ [Node.object receiver.data], here.Owns n := fun n hn => by
    rw [List.mem_singleton.1 hn]
    exact hreceiver.data
  exact ((hserve (.method code receiver) ⟨hcode, hreceiver⟩).mapFailure _).pinned hns

include hserve in
theorem Receiver.call_alongside {receiver : Receiver κ}
    (hreceiver : receiver.Within here.tree mine) (name : String) :
    Run.Alongside (World.Abreast holds holds' here there mine b s b' s') (fun _ _ => True)
      (receiver.call serve name) ((receiver.into there.tree).call serve' name) := by
  rw [Receiver.call, Receiver.call,
    show (receiver.into there.tree).methods = receiver.methods from rfl]
  cases hcode : Fields.get? receiver.methods name with
  | none => exact .fail _
  | some code =>
    exact Receiver.run_alongside hserve hreceiver name
      (hreceiver.methods _ (Fields.mem_of_get? hcode))

include hserve in
theorem Listener.run_alongside {l : Listener κ} (hl : l.Within here mine) (event : Event) :
    Run.Alongside (World.Abreast holds holds' here there mine b s b' s') (fun _ _ => True)
      (l.run serve event) ((l.into there).run serve' event) := by
  cases l with
  | client code => exact hserve (.event code event) hl
  | delegate t methods receiver =>
    obtain ⟨rfl, hmethods, hreceiver⟩ := hl
    have hlook : Run.Alongside (World.Abreast holds holds' here there mine b s b' s')
        (fun table table' => table' = table) (Run.look (·.table here.table))
        (Run.look (·.table there.table)) := .look fun w w' hw => hw.page.table
    refine hlook.bind fun table table' htable => ?_
    subst htable
    cases event.target.bind fun id => table'.find? id event.type with
    | none => exact .pure trivial
    | some binding =>
      dsimp only
      cases hcode : Fields.get? methods binding.method with
      | none => exact .pure trivial
      | some code =>
        exact Receiver.run_alongside hserve hreceiver _ (hmethods _ (Fields.mem_of_get? hcode))

include hserve in
theorem runListeners_alongside {ls : List (Listener κ)} (hls : ∀ l ∈ ls, l.Within here mine)
    (event : Event) :
    Run.Alongside (World.Abreast holds holds' here there mine b s b' s') (fun _ _ => True)
      (runListeners serve event ls) (runListeners serve' event (ls.map (·.into there))) := by
  induction ls with
  | nil => exact .pure trivial
  | cons l ls ih =>
    exact (Listener.run_alongside hserve (hls l (List.mem_cons_self ..)) event).bind
      fun _ _ _ => ih fun m hm => hls m (List.mem_cons_of_mem _ hm)

-- The same listeners are there for an event.
theorem Element.listenersFor_into {el : Element (Listener κ)} (hel : el.Within here mine)
    (there : Territory) (type : String) :
    (el.into there).listenersFor type = (el.listenersFor type).map (·.into there) ∧
      ∀ l ∈ el.listenersFor type, l.Within here mine := by
  refine ⟨?_, fun l hl => ?_⟩
  · simp only [Element.listenersFor, Element.into, List.filter_map, List.map_map]
    rfl
  · obtain ⟨m, hm, rfl⟩ := List.mem_map.1 hl
    exact hel m (List.mem_filter.1 hm).1

include hserve in
theorem ElementId.deliver_alongside (hroot : there.root = here.root) (type : String)
    (event : Event) :
    Run.Alongside (World.Abreast holds holds' here there mine b s b' s') (fun n n' => n' = n)
      (here.root.deliver serve type event) (there.root.deliver serve' type event) := by
  rw [hroot]
  unfold ElementId.deliver
  refine Run.Alongside.bind ?_
    fun ls ls' (h : ls' = ls.map (·.into there) ∧ ∀ l ∈ ls, l.Within here mine) => ?_
  · refine .look fun w w' hw => ?_
    obtain ⟨el, hel, hwithin, hel'⟩ := hw.page.element
    rw [hel, hel']
    exact Element.listenersFor_into hwithin there type
  · obtain ⟨rfl, hls⟩ := h
    exact (runListeners_alongside hserve hls event).bind fun _ _ _ => .pure (List.length_map ..)

include hserve in
theorem ElementId.dispatch_alongside (hroot : there.root = here.root) (type target : String) :
    Run.Alongside (World.Abreast holds holds' here there mine b s b' s') (fun n n' => n' = n)
      (here.root.dispatch serve type target) (there.root.dispatch serve' type target) := by
  rw [hroot]
  have hreached : Run.Alongside (World.Abreast holds holds' here there mine b s b' s')
      (fun ls ls' => ls' = ls.map (·.into there) ∧ ∀ l ∈ ls, l.Within here mine)
      (Run.attempt .document fun p => (p.document.reached here.root type target, p))
      (Run.attempt .document fun p => (p.document.reached here.root type target, p)) := by
    refine .attempt fun w w' hw => ⟨?_, hw⟩
    obtain ⟨el, hel, hwithin, hel'⟩ := hw.page.element
    simp only [Document.reached, Document.find, hel, hel']
    -- the markup shows the same elements
    show SameOutcome _ _ (if target ∈ IdAttribute.values el.markup then _ else _)
    split
    · exact .ok (Element.listenersFor_into hwithin there type)
    · exact .error _
  refine hreached.bind fun ls ls' ⟨hmoved, hls⟩ => ?_
  subst hmoved
  exact ((runListeners_alongside hserve hls ⟨type, some target⟩).mapFailure _).bind
    fun _ _ _ => .pure (List.length_map ..)

theorem TreeId.collect_alongside {x : WatcherId} (hx : x.tree = here.tree) {body : Run κ σ Unit}
    {body' : Run κ σ' Unit}
    (h : Run.Alongside (World.Abreast holds holds' here there mine b s b' s') (fun _ _ => True)
      body body') :
    Run.Alongside (World.Abreast holds holds' here there mine b s b' s') (fun _ _ => True)
      (here.tree.collect x body) (there.tree.collect (x.into there.tree) body') := by
  intro w w' hw
  rw [TreeId.collect, TreeId.collect]
  rcases hw.page.data.begin hx with ⟨error, hs, hs'⟩ | ⟨s₁, s₁', hs, hs', hstore⟩
  · rw [hs, hs']
    exact .some (.error _) hw
  · rw [hs, hs']
    have hbody := h _ _ (hw.turn (hw.page.withStore hstore))
    dsimp only
    generalize body _ = ran at hbody ⊢
    generalize body' _ = ran' at hbody ⊢
    cases hbody with
    | none => exact .none
    | some hr hw₁ => exact .some hr (hw₁.turn (hw₁.page.withStore hw₁.page.data.vacate))

/-- A change of the data of the view. -/
theorem Run.store_alongside {α α' : Type} {rel : α → α' → Prop}
    {f : Store (Reaction κ) → α × Store (Reaction κ)}
    {f' : Store (Reaction κ) → α' × Store (Reaction κ)}
    (h : ∀ r r' : Store (Reaction κ), Store.Abreast here.tree there.tree (·.into there.compiler)
        (Reaction.Within here mine) r r' r r' →
      rel (f r).1 (f' r').1 ∧ Store.Abreast here.tree there.tree (·.into there.compiler)
        (Reaction.Within here mine) r r' (f r).2 (f' r').2) :
    Run.Alongside (World.Abreast holds holds' here there mine b s b' s') rel (Run.store f)
      (Run.store f') :=
  .page fun _ _ hw =>
    ⟨(h _ _ hw.page.data).1, hw.turn (hw.page.withStore (h _ _ hw.page.data).2)⟩

theorem Run.watch_alongside {o : ObjectId} (ho : o.tree = here.tree) (key : String) {code : κ}
    (hcode : mine code) :
    Run.Alongside (World.Abreast holds holds' here there mine b s b' s')
      (fun x x' => x.tree = here.tree ∧ x' = x.into there.tree)
      (Run.attempt .reactive fun p => ((p.store.watch o key (.client code)).1,
        { p with store := (p.store.watch o key (.client code)).2 }))
      (Run.attempt .reactive fun p =>
        ((p.store.watch (o.into there.tree) key (.client code)).1,
          { p with store := (p.store.watch (o.into there.tree) key (.client code)).2 })) := by
  refine .attempt fun w w' hw => ?_
  have hgood : Reaction.Within here mine (.client code) := hcode
  obtain ⟨s₁, s₁', hstore, ⟨error, hp, hq⟩ | ⟨x, hx, hp, hq⟩⟩ := hw.page.data.watch ho key hgood
  · change w'.page.store.watch _ key (.client code) = _ at hq
    dsimp only
    rw [hp, hq]
    exact ⟨.error _, hw.turn (hw.page.withStore hstore)⟩
  · change w'.page.store.watch _ key (.client code) = _ at hq
    dsimp only
    rw [hp, hq]
    exact ⟨.ok ⟨hx, rfl⟩, hw.turn (hw.page.withStore hstore)⟩

/-- A change of the element of the view, which the document takes. -/
theorem Run.document_alongside
    {f f' : Document (Listener κ) → Except DocumentError Unit × Document (Listener κ)}
    (h : ∀ p q, Page.Abreast here there mine b b' p q → ∃ d d', f p.document = (.ok (), d) ∧
      f' q.document = (.ok (), d') ∧
      Page.Abreast here there mine b b' { p with document := d } { q with document := d' }) :
    Run.Alongside (World.Abreast holds holds' here there mine b s b' s') (fun _ _ => True)
      (Run.document f) (Run.document f') := by
  refine .attempt fun w w' hw => ?_
  obtain ⟨d, d', hd, hd', hpage⟩ := h _ _ hw.page
  dsimp only
  rw [hd, hd']
  exact ⟨.ok trivial, hw.turn hpage⟩

/-! ## 4. Operations and programs with the same view -/

include hb hb' hserve in
/-- **An operation on a view** has the same outcome wherever the view is. -/
theorem Operation.run_alongside {op op' : Operation κ} {rel : op.Reply → op'.Reply → Prop}
    (hroot : there.root = here.root) (hop : op.Matches here there mine op' rel) :
    Run.Alongside (World.Abreast holds holds' here there mine b s b' s') rel (op.run holds serve)
      (op'.run holds' serve') := by
  cases hop with
  | observe v =>
    cases v with
    | object fields =>
      exact Run.store_alongside fun r r' h => ⟨⟨rfl, h.wrapIn_fst fields⟩, h.wrapIn fields⟩
    | _ => exact .fail _
  | @get o ho key =>
    show Run.Alongside _ _ (Run.store (·.get o key)) (Run.store (·.get (o.into there.tree) key))
    refine Run.store_alongside fun r r' h => ?_
    obtain ⟨hfield, hmoved, hstore⟩ := h.get ho key
    exact ⟨⟨hfield, hmoved⟩, hstore⟩
  | set ho key v => exact ObjectId.set_alongside hb hb' hserve ho key v
  | watch ho key hcode => exact Run.watch_alongside ho key hcode
  | update hx => exact WatcherId.update_alongside hb hb' hserve hx
  | @register o x ho hx =>
    show Run.Alongside _ _ (Run.store fun s => ((), s.register (.ofObject o) x))
      (Run.store fun s => ((), s.register (.ofObject (o.into there.tree)) (x.into there.tree)))
    exact Run.store_alongside fun r r' h => ⟨trivial, h.register ho hx⟩
  | notify ho => exact RegistryId.notify_alongside hb hb' hserve ho
  | isAlive hn => exact Run.isAlive_alongside hb hb' hn
  | setMarkup markup =>
    rw [hroot]
    show Run.Alongside _ _ (Run.document (·.setMarkup here.root markup))
      (Run.document (·.setMarkup here.root markup))
    exact Run.document_alongside fun p q h => h.setMarkup markup
  | @listen type code hcode =>
    rw [hroot]
    show Run.Alongside _ _ (Run.document (·.listen here.root type (.client code)))
      (Run.document (·.listen here.root type (.client code)))
    exact Run.document_alongside fun p q h => h.listen type (l := .client code) hcode
  | dispatch type target => exact ElementId.dispatch_alongside hserve hroot type target
  | deliver type event => exact ElementId.deliver_alongside hserve hroot type event
  | compile => exact Page.compile_alongside
  | call hreceiver name => exact Receiver.call_alongside hserve hreceiver name

include hb hb' hserve in
/-- **Local code** has the same outcome wherever its view is. -/
theorem Program.run_alongside {prog : Program κ σ} {prog' : Program κ σ'}
    (hroot : there.root = here.root) (h : prog.Matches here there mine prog') :
    Run.Alongside (World.Abreast holds holds' here there mine b s b' s') (fun _ _ => True)
      (prog.run holds serve) (prog'.run holds' serve') := by
  induction h with
  | done => exact .pure trivial
  | fail error => exact .fail error
  | look h ih =>
    intro w w' hw
    exact ih w.page w'.page hw.page.toSameView w w' hw
  | perform hop hnext ih =>
    exact (Operation.run_alongside hb hb' hserve hroot hop).outcome.bind ih
  | collect hx hbody hnext ihbody ihnext =>
    refine (TreeId.collect_alongside hx ihbody).outcome.bind fun r r' hr => ?_
    cases hr with
    | ok _ => exact ihnext _
    | error e => exact ihnext _

end Worlds

/-- A call of local code has the same outcome wherever its view is, however deep it may nest. -/
theorem Client.answer_alongside {c : Client κ σ} {c' : Client κ σ'} {here there : Territory}
    {mine : κ → Prop} {b b' : Page κ} {s : σ} {s' : σ'} (hb : b.Apart here) (hb' : b'.Apart there)
    (hroot : there.root = here.root) (hc : c.Matches here there mine c') (depth : Nat)
    {cue : Cue κ} (hcue : cue.Within here mine) :
    Run.Alongside (World.Abreast c.holds c'.holds here there mine b s b' s') (fun _ _ => True)
      (c.answer depth cue) (c'.answer depth (cue.into there)) := by
  induction depth generalizing cue with
  | zero => exact .exhausted
  | succ depth ih =>
    exact Program.run_alongside hb hb' (fun _ h => ih h) hroot (hc cue hcue)

theorem Client.run_alongside {c : Client κ σ} {c' : Client κ σ'} {here there : Territory}
    {mine : κ → Prop} {b b' : Page κ} {s : σ} {s' : σ'} (hb : b.Apart here) (hb' : b'.Apart there)
    (hroot : there.root = here.root) (hc : c.Matches here there mine c') (depth : Nat)
    {prog : Program κ σ} {prog' : Program κ σ'} (hprog : prog.Matches here there mine prog') :
    Run.Alongside (World.Abreast c.holds c'.holds here there mine b s b' s') (fun _ _ => True)
      (c.run depth prog) (c'.run depth prog') :=
  Program.run_alongside hb hb' (fun _ hcue => c.answer_alongside hb hb' hroot hc depth hcue) hroot
    hprog

end ReactiveView
