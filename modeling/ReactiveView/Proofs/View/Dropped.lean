import ReactiveView.Proofs.Observable.Shape
import ReactiveView.Proofs.Page.Resting
import ReactiveView.Proofs.Page.Showing
import ReactiveView.Proofs.View.Dispatch

/-!
# Dropped views

From the moment at which its handle is dropped a view neither renders nor fails, although its watchers
stay registered; but its data and its methods are kept alive by the listeners of its root element,
so events still run its methods on its data.  The drop may happen in a callback, in the middle of a
notification that has not yet reached all watchers of the view.
-/

namespace ReactiveView

variable {κ σ : Type}

/-! ## 1. Rest since a drop -/

/-- The client holds nothing that drives the outlet, and its request spares it. -/
def Moment.Leaves (holds : σ → List Node) (outlet : Outlet) (m : Moment κ σ) : Prop :=
  m.page.Dropped outlet (holds m.client) ∧ m.request.Spares outlet m.page

instance (holds : σ → List Node) (outlet : Outlet) (m : Moment κ σ) :
    Decidable (m.Leaves holds outlet) :=
  inferInstanceAs (Decidable (_ ∧ _))

/-- The outlet has been at rest since every moment from which on it was left alone. -/
def RestingSince (holds : σ → List Node) (outlet : Outlet) (p : Page κ) (h : History κ σ) : Prop :=
  ∀ {g₀ m₀ g₁}, h = g₀ ++ m₀ :: g₁ → (∀ m ∈ m₀ :: g₁, m.Leaves holds outlet) →
    m₀.page.Rests outlet p

section Rule

variable {holds : σ → List Node} {outlet : Outlet}

-- A request that spares the outlet is noted down and has its effect.
theorem RestingSince.step {m : Moment κ σ} {g : History κ σ} {q : Page κ}
    (h : RestingSince holds outlet m.page g)
    (hq : m.Leaves holds outlet → m.page.Rests outlet q) : RestingSince holds outlet q (g ++ [m]) := by
  intro g₀ m₀ g₁ hg hall
  rcases History.concat_cases hg with ⟨rfl, rfl⟩ | ⟨g', rfl, rfl⟩
  · exact hq (hall _ List.mem_cons_self)
  · have hbefore := h rfl fun m' hm' => hall m' (List.mem_cons.2 <|
      (List.mem_cons.1 hm').imp_right fun hm' => List.mem_append_left _ hm')
    exact hbefore.trans (hq (hall m (by simp)))

-- The page goes on before the next request.
theorem RestingSince.turn {g : History κ σ} {p q : Page κ} (h : RestingSince holds outlet p g)
    (hq : (∀ m ∈ g.getLast?, m.Leaves holds outlet) → p.Rests outlet q) :
    RestingSince holds outlet q g := by
  intro g₀ m₀ g₁ hg hall
  refine (h hg hall).trans (hq fun m hm => hall m ?_)
  rw [hg, List.getLast?_append_of_ne_nil _ (List.cons_ne_nil m₀ g₁)] at hm
  exact List.mem_of_getLast? hm

/-- While client code runs: only the past counts. -/
structure World.Rested (holds : σ → List Node) (outlet : Outlet) (w : World κ (σ × History κ σ)) :
    Prop where
  follows : w.Follows (RestingSince holds outlet)
  pins : ∀ n ∈ w.pins, n.Pinned

/-- While an operation is under way, the client holds what it held at its last moment. -/
def World.Released (holds : σ → List Node) (outlet : Outlet) (w : World κ (σ × History κ σ)) :
    Prop :=
  (∀ m ∈ w.client.2.getLast?, m.Leaves holds outlet) →
    w.page.Dropped outlet (holds w.client.1)

theorem Page.Dropped.congr {p q : Page κ} {held : List Node} (h : p.Dropped outlet held)
    (hq : q.Drives outlet = p.Drives outlet) : q.Dropped outlet held :=
  fun n hn => hq ▸ h n hn

theorem World.rested_kept (c : Client κ σ) (outlet : Outlet) :
    KeptByUpdates c.recording.holds fun w =>
      w.Rested c.holds outlet ∧ w.Released c.holds outlet := by
  refine ⟨⟨fun ns hns hw => ⟨⟨hw.1.follows, fun n hn => ?_⟩, hw.2⟩,
    fun hw hw' => ⟨⟨hw'.1.follows, hw.1.pins⟩, hw'.2⟩⟩, fun {w} o key hw => ?_,
    fun {w _ _ d} hw _ _ halive => ?_⟩
  · exact (List.mem_append.1 hn).elim (hns n) (hw.1.pins n)
  · refine ⟨⟨⟨RestingSince.turn hw.1.follows.1 fun _ => Page.rests_of_store _ _ outlet,
      hw.1.follows.2⟩, hw.1.pins⟩, fun hlast => ?_⟩
    exact (hw.2 hlast).congr (Page.drives_of_store w.page _)
  · refine ⟨⟨⟨RestingSince.turn hw.1.follows.1 fun hlast => Page.rests_compile fun hdrives => ?_,
      hw.1.follows.2⟩, hw.1.pins⟩, fun hlast => (hw.2 hlast).congr (Page.drives_compile w.page d)⟩
    -- what is alive has not been dropped
    have hdropped : w.Dropped c.recording.holds outlet := ⟨hw.2 hlast, hw.1.pins⟩
    rw [hdropped.not_alive hdrives] at halive
    cases halive

/-- An operation makes no compiler, or else calls no code. -/
theorem Operation.drives_effect (op : Operation κ) (p : Page κ) (outlet : Outlet) :
    (op.effect p).Drives outlet = p.Drives outlet ∨
      ∀ {holds : σ → List Node} {serve : Cue κ → Run κ σ Unit} {w r w'},
        op.run holds serve w = some (r, w') → w' = { w with page := op.effect w.page } := by
  cases op with
  | newCompiler template data root ids table =>
    refine .inr fun {holds serve w r w'} h => ?_
    cases table <;> (cases h; rfl)
  | mount vm config =>
    refine .inr fun {holds serve w r w'} h => ?_
    cases h
    rfl
  | compile d => exact .inl (Page.drives_compile p d)
  | bind root t methods receiver =>
    have hstill := Page.still_bind p root t methods receiver
    exact .inl (Page.drives_congr hstill.compilers hstill.engines)
  | observe v tree =>
    left
    cases v with
    | object fields => cases tree <;> exact Page.drives_congr rfl rfl
    | _ => rfl
  | get o key => exact .inl (Page.drives_congr rfl rfl)
  | set o key v => exact .inl (Page.drives_congr rfl rfl)
  | watch o key code => exact .inl (Page.drives_congr rfl rfl)
  | newRegistry => exact .inl (Page.drives_congr rfl rfl)
  | register r u => exact .inl (Page.drives_congr rfl rfl)
  | createElement id => exact .inl (Page.drives_congr rfl rfl)
  | setMarkup e markup => exact .inl (Page.drives_congr rfl rfl)
  | listen e type code => exact .inl (Page.drives_congr rfl rfl)
  | refuse writes listens => exact .inl (Page.drives_congr rfl rfl)
  | _ => exact .inl rfl

theorem World.rested_discipline (c : Client κ σ) (outlet : Outlet)
    (serve : Cue κ → Run κ (σ × History κ σ) Unit)
    (hserve : ∀ cue, (serve cue).Keeps fun w =>
      w.Rested c.holds outlet ∧ w.Released c.holds outlet) :
    Discipline (fun _ => True) c.recording.holds serve (World.Rested c.holds outlet)
      fun w => w.Rested c.holds outlet ∧ w.Released c.holds outlet := by
  -- a request is noted down, and has its effect
  have hstep : ∀ {w : World κ (σ × History κ σ)} {request : Request κ} {q : Page κ},
      w.Rested c.holds outlet → (request.Spares outlet w.page → w.page.Rests outlet q) →
        World.Rested c.holds outlet { w.noting request with page := q } := by
    intro w request q hw hq
    have hpast : RestingSince c.holds outlet q (w.noting request).client.2 :=
      RestingSince.step (m := ⟨w.page, w.client.1, request⟩) hw.follows.1 fun hm => hq hm.2
    exact ⟨hw.follows.step hpast, hw.pins⟩
  -- nothing that drives the outlet came to be held with the effect
  have hreleased : ∀ {w : World κ (σ × History κ σ)} {request : Request κ} {q : Page κ},
      q.Drives outlet = w.page.Drives outlet →
        World.Released c.holds outlet { w.noting request with page := q } := by
    intro w request q hq hlast
    have hm : (⟨w.page, w.client.1, request⟩ : Moment κ σ).Leaves c.holds outlet :=
      hlast _ (by simp [World.noting])
    exact hm.1.congr hq
  refine ⟨And.left, fun s hw => ⟨hw.follows, hw.pins⟩, fun {w} hw => ?_, fun {op} _ => ?_,
    fun {w t x error} _ hw _ => ?_, fun {w t x store} _ hw _ => ?_, fun {w t x} _ hw => ?_⟩
  · exact ⟨hstep hw fun _ => .refl outlet w.page, hreleased rfl⟩
  · rintro w ⟨v, hv, rfl⟩ r w' hr
    have hnoted : World.Rested c.holds outlet
        { v.noting (.perform op) with page := op.effect v.page } :=
      hstep hv fun hspares => Page.rests_effect hspares
    rcases op.drives_effect v.page outlet with hdrives | hcalls
    · exact (Operation.run_ensures (World.rested_kept c outlet) hserve op _
        ⟨hnoted, hreleased hdrives⟩ r w' hr).1
    · obtain rfl := hcalls hr
      exact hnoted
  · exact hstep hw fun _ => .refl outlet w.page
  · exact hstep hw fun _ => Page.rests_of_store w.page store outlet
  · exact ⟨⟨RestingSince.turn hw.1.follows.1 fun _ => Page.rests_of_store _ _ outlet,
      hw.1.follows.2⟩, hw.1.pins⟩

/-- **What is left alone rests**, from any moment to any later one. -/
theorem Client.Lives.rests {c : Client κ σ} {start : Page κ} {s : σ} {program : Program κ σ}
    {g₀ g₁ : History κ σ} {m₀ m : Moment κ σ}
    (hl : c.Lives start s program (g₀ ++ m₀ :: g₁ ++ [m]))
    (hleaves : ∀ m' ∈ m₀ :: g₁, m'.Leaves c.holds outlet) : m₀.page.Rests outlet m.page := by
  have hstart : World.Rested c.holds outlet ⟨start, (s, ([] : History κ σ)), []⟩ :=
    ⟨⟨fun h => by simp at h, fun hpre => by simp at hpre⟩, fun _ hn => nomatch hn⟩
  have hrule : ∀ serve : Cue κ → Run κ (σ × History κ σ) Unit, _ → _ :=
    fun serve => World.rested_discipline c outlet serve
  obtain ⟨w, hw, hpre⟩ :=
    hl.ensures (fun cue => (c.respond cue).within_all) program.within_all hrule hrule hstart
  exact hw.1.follows.2 hpre rfl hleaves

theorem Client.Lives.rests_mem {c : Client κ σ} {start : Page κ} {s : σ} {program : Program κ σ}
    {g₀ g : History κ σ} {m₀ m : Moment κ σ}
    (hl : c.Lives start s program (g₀ ++ m₀ :: g ++ [m]))
    (hleaves : ∀ m' ∈ m₀ :: g, m'.Leaves c.holds outlet) :
    ∀ m' ∈ m₀ :: g ++ [m], m₀.page.Rests outlet m'.page := by
  intro m' hm'
  rcases List.mem_append.1 hm' with hm' | hm'
  · obtain ⟨g₁, g₂, hg⟩ := List.append_of_mem hm'
    rcases List.cons_eq_append_iff.1 hg with ⟨-, hg⟩ | ⟨g₁, rfl, rfl⟩
    · cases hg
      exact .refl outlet m₀.page
    · have hpre : c.Lives start s program (g₀ ++ m₀ :: g₁ ++ [m']) :=
        hl.mono ⟨g₂ ++ [m], by simp⟩
      exact hpre.rests fun m'' hm'' =>
        hleaves m'' (List.cons_append ▸ List.mem_append_left _ hm'')
  · obtain rfl := List.mem_singleton.1 hm'
    exact hl.rests hleaves

end Rule

/-! ## 2. Listeners -/

section Listeners

variable {p : Page κ} {held : List Node} {root : ElementId} {el : Element (Listener κ)}
  {t : TableId} {methods : Fields κ} {receiver : Receiver κ} {type : String}

/-- **A delegated listener keeps the data of its receiver alive**, whatever else is held. -/
theorem Page.alive_of_delegate (hel : p.document.element? root = some el)
    (hl : (type, .delegate t methods receiver) ∈ el.listeners) :
    p.alive held (.object receiver.data) = true := by
  refine alive_iff.2 (.inl (List.mem_append_right _ ?_))
  exact mem_anchors_iff.2 (.inr ⟨root, el, _, hel, hl, List.mem_singleton.2 rfl⟩)

end Listeners

/-! ## 3. Views that have been dropped -/

/-- **What is left of a view** whose handle was dropped before the moment `m₀`, up to the later moment
    `m`; `g` are the moments between. -/
structure Inert (c : Client κ σ) (engine : Engine κ) (x : Compiler) (m₀ : Moment κ σ)
    (g : History κ σ) (m : Moment κ σ) : Prop where
  -- Its compiler has not compiled.
  compiler : m.page.compiler? engine.compiler = some x
  -- Nobody has written its markup but by hand or for a compiler that is alive.
  element : (∀ m' ∈ m₀ :: g, m'.Leaves c.holds (.element engine.root)) →
    ∃ el el', m₀.page.document.element? engine.root = some el ∧
      m.page.document.element? engine.root = some el' ∧ el'.markup = el.markup ∧
      el'.writes = el.writes
  -- No row has come to its table but from a compiler that is alive.
  table : (∀ m' ∈ m₀ :: g, m'.Leaves c.holds (.table x.table)) →
    m.page.table x.table = m₀.page.table x.table
  -- Its watchers do no more than read.
  update : ∀ m' ∈ m₀ :: g ++ [m], ∀ {serve w u},
    w.DroppedSince c.holds engine.compiler m'.page → m'.page.store.rendersFor engine.compiler u = true →
      ∃ s, w.page.store.SameData s ∧
        u.update c.holds serve w = some (.ok (), { w with page := { w.page with store := s } })
  -- A notification, also what remains of one that is under way, does not fail because of them.
  notification : ∀ m' ∈ m₀ :: g ++ [m], ∀ {serve us w error w'},
    (∀ cue, (serve cue).Keeps (World.DroppedSince c.holds engine.compiler m'.page)) →
    w.DroppedSince c.holds engine.compiler m'.page →
    updateAll c.holds serve us w = some (.error error, w') →
      m'.page.FailsElsewhere engine.compiler us error
  -- Neither does a write, and one that only its watchers hear of succeeds.
  set : ∀ m' ∈ m₀ :: g ++ [m], ∀ {serve pins o key v}, (∀ n ∈ pins, n.Pinned) →
    ((∀ u ∈ m'.page.store.registered (.ofObject o),
        m'.page.store.rendersFor engine.compiler u = true) →
      ∃ s, (m'.page.store.write o key v).SameData s ∧
        o.set c.holds serve key v ⟨m'.page, m'.client, pins⟩ =
          some (.ok (), ⟨{ m'.page with store := s }, m'.client, pins⟩)) ∧
    ∀ {error w'},
      (∀ cue, (serve cue).Keeps (World.DroppedSince c.holds engine.compiler m'.page)) →
      o.set c.holds serve key v ⟨m'.page, m'.client, pins⟩ = some (.error error, w') →
        m'.page.FailsElsewhere engine.compiler (m'.page.store.registered (.ofObject o)) error
  -- What was written to its data since then is there.
  write : ∀ {g' m₁ g'' key v}, m₀ :: g = g' ++ m₁ :: g'' →
    m₁.request = .perform (.set engine.data key v) → ¬ History.Writes g'' engine.data key →
      m.page.store.slot? engine.data key = some (.plain v) ∨
        ∃ fields n, v = .object fields ∧
          m.page.store.slot? engine.data key = some (.nested n)
  -- An event for a row that its element shows runs the method on the data, after the listeners that
  -- were there before.
  dispatch : ∀ {b id shown code}, x.template.binding? = some b →
    m.page.document.renderedIds engine.root = .ok shown → id ∈ shown →
    (m.page.table x.table).get? id = some b →
    Fields.get? engine.receiver.methods b.method = some code →
      (∀ held, m.page.alive held (.object engine.data) = true) ∧
      ∃ before after, m.page.document.reached engine.root b.eventType id = .ok
        (before ++ .delegate x.table engine.receiver.methods engine.receiver :: after) ∧
      ∀ {serve pins w}, runListeners serve ⟨b.eventType, some id⟩ before
          ⟨m.page, m.client, pins⟩ = some (.ok (), w) →
        w.page.table x.table = m.page.table x.table →
          engine.root.dispatch serve b.eventType id ⟨m.page, m.client, pins⟩ =
            ((engine.receiver.run serve b.method code >>= fun _ =>
              runListeners serve ⟨b.eventType, some id⟩ after) w).map fun r =>
                ((r.1.mapError fun cause => .document (.listener b.eventType cause)).map fun _ =>
                  (before.length + after.length + 1), r.2)

/-- **Dropped views are inert**, but their listeners are not: from any moment since which the client
    has held no handle of the view, and has not asked it to compile, to any later one. -/
theorem Client.dropped_view_inert {c : Client κ σ} {document : Document (Listener κ)}
    {entropy : Entropy} {s : σ} {program : Program κ σ} {g₀ g : History κ σ} {m₀ m : Moment κ σ}
    {e : EngineId} {engine : Engine κ} {x : Compiler}
    (hl : c.Lives { document, entropy } s program (g₀ ++ m₀ :: g ++ [m]))
    (he : m₀.page.engine? e = some engine) (hx : m₀.page.compiler? engine.compiler = some x)
    (hleaves : ∀ m' ∈ m₀ :: g, m'.Leaves c.holds (.compiler engine.compiler))
    (hm : m.page.Dropped (.compiler engine.compiler) (c.holds m.client)) :
    m.page.engine? e = some engine ∧ Inert c engine x m₀ g m := by
  have hleads : ∀ m' ∈ m₀ :: g ++ [m],
      Page.Leads (fun _ => True) (fun _ => False) { document, entropy } m'.page := fun m' hm' =>
    hl.leads (fun cue => (c.respond cue).within_all) program.within_all
      (List.append_assoc g₀ _ _ ▸ List.mem_append_right g₀ hm')
  have hrests := hl.rests_mem hleaves
  have hlast : m ∈ m₀ :: g ++ [m] := List.mem_append_right _ (List.mem_singleton.2 rfl)
  have hcompiler : ∀ m' ∈ m₀ :: g ++ [m], (m'.page.compiler? engine.compiler).isSome :=
    fun m' hm' => Option.isSome_of_eq_some ((hrests m' hm').same hx)
  have hdropped : ∀ m' ∈ m₀ :: g ++ [m], ∀ {pins : List Node}, (∀ n ∈ pins, n.Pinned) →
      World.Dropped c.holds (.compiler engine.compiler) ⟨m'.page, m'.client, pins⟩ := by
    intro m' hm' pins hpins
    rcases List.mem_append.1 hm' with hm' | hm'
    · exact ⟨(hleaves m' hm').1, hpins⟩
    · obtain rfl := List.mem_singleton.1 hm'
      exact ⟨hm, hpins⟩
  obtain ⟨y, hy⟩ := (hleads m₀ List.mem_cons_self).regular.mounted he
  obtain rfl : y = x := Option.some.inj (hy.found.symm.trans hx)
  refine ⟨(hrests m hlast).engine he, (hrests m hlast).same hx, fun hroot => ?_, fun htable => ?_,
    fun m' hm' {serve w u} hw hu => ?_, fun m' hm' {serve us w error w'} hserve hw hrun =>
    updateAll_error (hcompiler m' hm') hserve hw hrun, fun m' hm' {serve pins o key v} hpins =>
    ⟨fun hus => ObjectId.set_of_dropped serve (hdropped m' hm' hpins) (hcompiler m' hm') hus _ _,
      fun hserve hset =>
        ObjectId.set_error (hdropped m' hm' hpins) (hcompiler m' hm') hserve hset⟩,
    fun {g' m₁ g'' key v} hg hset hno => ?_, fun {b id shown code} hb hshown hin hget hcode => ?_⟩
  · obtain ⟨el, hel⟩ := Option.isSome_iff_exists.1 (hy.root ▸ hy.element)
    obtain ⟨el', hel', hmarkup, hwrites⟩ := (hl.rests hroot).same hel
    exact ⟨el, el', hel, hel', hmarkup, hwrites⟩
  · exact ((hl.rests htable).same hy.table).2
  · obtain ⟨s', hs', -, hrun⟩ := WatcherId.update_of_dropped serve hw.1
      (hw.compiler (hcompiler m' hm')) (hw.rendersFor hu)
    exact ⟨s', hs', hrun⟩
  · -- the data was there when it was written, and nobody has written the property since
    have hmem : m₁ ∈ m₀ :: g := hg ▸ (by simp)
    have hobject : (m₁.page.store.object? engine.data).isSome := by
      obtain ⟨z, hz⟩ := (hleads m₁ (List.mem_append_left _ hmem)).regular.mounted
        ((hrests m₁ (List.mem_append_left _ hmem)).engine he)
      exact hz.data ▸ hz.object
    have hwritten : m₁.store.slot? engine.data key = some (.plain v) := by
      rw [Moment.store, hset]
      exact (Store.slot?_write hobject key v _ _).trans (if_pos ⟨rfl, rfl⟩)
    have hsplit : g₀ ++ m₀ :: g = g₀ ++ g' ++ m₁ :: g'' := by rw [hg, List.append_assoc]
    have hsince : Store.Since (History.Writes g'') m₁.store m.page.store :=
      (hl.course (fun cue => (c.respond cue).within_all) program.within_all course_forest).2 hsplit
    rcases hsince.slot (Store.object?_isSome_of_slot? hwritten) hno with hs | ⟨fields, n, hs, hn, -⟩
    · exact .inl (hs.trans hwritten)
    · cases hwritten.symm.trans hs
      exact .inr ⟨fields, n, rfl, hn⟩
  · obtain ⟨z, hz⟩ := (hleads m hlast).heard.2 ((hrests m hlast).engine he)
    obtain rfl : z = y := Option.some.inj (hz.found.symm.trans ((hrests m hlast).same hx))
    obtain ⟨-, el, hel, hmem⟩ := hz.listens hb
    rw [Document.renderedIds_of_element hel] at hshown
    cases hshown
    obtain ⟨before, after, hlisteners⟩ := List.append_of_mem (Element.mem_listenersFor hmem)
    have hreached := Document.reached_of_mem hel hin b.eventType
    rw [hlisteners] at hreached
    refine ⟨fun held => Page.alive_of_delegate hel hmem, before, after, hreached,
      fun {serve pins w} hbefore htable => ?_⟩
    rw [ElementId.dispatch_of_ok hreached, runListeners_append_of_ok hbefore]
    have hrun : (Listener.delegate z.table engine.receiver.methods engine.receiver).run serve
        ⟨b.eventType, some id⟩ w = engine.receiver.run serve b.method code w :=
      Listener.run_delegate_of_method (htable ▸ hget) hcode
    have hbind : ∀ f : Unit → Run κ σ Unit,
        ((Listener.delegate z.table engine.receiver.methods engine.receiver).run serve
            ⟨b.eventType, some id⟩ >>= f) w =
          (engine.receiver.run serve b.method code >>= f) w := fun f => by
      show Run.bind _ f w = Run.bind _ f w
      rw [Run.bind, Run.bind, hrun]
    rw [runListeners, hbind, List.length_append, List.length_cons, Nat.add_assoc]

/-- A client whose methods write the number of their view. -/
def pressingClient : Client Unit (List Node) where
  respond
    | .method _ receiver => .perform (.set receiver.data "n" (.text "2")) fun _ => .done
    | _ => .done
  holds := id

/-- Mounts the button twice into the same element, drops the first view and presses the button. -/
def twinProgram : Program Unit (List Node) :=
  .perform (.mount padView { rootId := "pad", ids := .sequential "p" }) fun _ =>
    .perform (.mount padView { rootId := "pad", ids := .sequential "p" }) fun _ =>
      .remember (fun _ => [.engine ⟨1⟩]) <|
        .perform (.dispatch ⟨1⟩ "click" "p1") fun _ => .done

def twinHistory : History Unit (List Node) :=
  pressingClient.history 3 { document := .ofIds ["pad"] } [] twinProgram

/-- **An element that another view renders into too** is written when that one renders, although the
    first view has been dropped and no request of the client writes the element. -/
theorem dropped_view_redrawn :
    ∃ m₀ ∈ twinHistory[2]?, ∃ m ∈ twinHistory.getLast?, ∃ engine ∈ m₀.page.engine? ⟨0⟩,
      (∀ m' ∈ twinHistory.drop 2, m'.Leaves id (.compiler engine.compiler) ∧
        m'.request.Spares (.element engine.root) m'.page) ∧
      ∃ el ∈ m₀.page.document.element? engine.root,
        ∃ el' ∈ m.page.document.element? engine.root,
          el'.markup ≠ el.markup ∧ el'.writes ≠ el.writes := by
  decide +kernel

/-- The button, for a client that knows its callback by `true`. -/
def heardView : ViewModel Bool :=
  { padView with methods := [("press", false)] }

/-- A client that drops its view when its callback is called. -/
def droppingClient : Client Bool (List Node) where
  respond
    | .reaction _ _ => .remember (fun _ => [.object ⟨⟨0⟩, 0⟩]) .done
    | _ => .done
  holds := id

/-- Mounts the button, watches its number and changes it twice. -/
def droppingProgram : Program Bool (List Node) :=
  .perform (.mount heardView { rootId := "pad", ids := .sequential "p" }) fun _ =>
    .remember (fun _ => [.engine ⟨0⟩]) <|
      .perform (.watch ⟨⟨0⟩, 0⟩ "n" true) fun _ =>
        .perform (.set ⟨⟨0⟩, 0⟩ "n" (.text "2")) fun _ =>
          .perform (.set ⟨⟨0⟩, 0⟩ "n" (.text "3")) fun _ => .done

def droppingHistory : History Bool (List Node) :=
  droppingClient.history 2 { document := .ofIds ["pad"] } [] droppingProgram

/-- The request puts this text under this key. -/
def Request.putsText {κ : Type} (request : Request κ) (o : ObjectId) (key text : String) : Bool :=
  match request with
  | .perform (.set o' key' (.text text')) => o' == o && key' == key && text' == text
  | _ => false

theorem Request.eq_of_putsText {κ : Type} {request : Request κ} {o : ObjectId} {key text : String}
    (h : request.putsText o key text = true) : request = .perform (.set o key (.text text)) := by
  unfold putsText at h
  split at h
  · simp only [Bool.and_eq_true, beq_iff_eq] at h
    obtain ⟨⟨rfl, rfl⟩, rfl⟩ := h
    rfl
  · cases h

theorem dropped_view_inert_pad :
    ∃ m₀ m engine el el', droppingHistory[3]? = some m₀ ∧ droppingHistory[6]? = some m ∧
      m.page.engine? ⟨0⟩ = some engine ∧
      m₀.page.document.element? engine.root = some el ∧
      m.page.document.element? engine.root = some el' ∧ el'.markup = el.markup ∧
      el'.writes = el.writes ∧
      m.page.store.slot? engine.data "n" = some (.plain (.text "3")) := by
  have hrun : (droppingClient.run 2 droppingProgram
      ⟨{ document := .ofIds ["pad"] }, [], []⟩).isSome = true := by decide +kernel
  have hsome : (droppingHistory[6]?).isSome = true := by decide +kernel
  -- the view at the moment at which the callback ends, and what is left alone since then
  have hquiet : ∃ m₀ ∈ droppingHistory[3]?, ∃ engine ∈ m₀.page.engine? ⟨0⟩,
      ∃ x ∈ m₀.page.compiler? engine.compiler,
        engine.data = ⟨⟨0⟩, 0⟩ ∧ ∀ m' ∈ m₀ :: (droppingHistory.take 6).drop 4,
          m'.Leaves droppingClient.holds (.compiler engine.compiler) ∧
          m'.Leaves droppingClient.holds (.element engine.root) := by
    decide +kernel
  have hheld : ∀ m ∈ droppingHistory[6]?, droppingClient.holds m.client = [.object ⟨⟨0⟩, 0⟩] := by
    decide +kernel
  -- the write after the drop
  have hset : ∃ m₁ ∈ droppingHistory[4]?, m₁.request.putsText ⟨⟨0⟩, 0⟩ "n" "3" = true := by
    decide +kernel
  have hlater : ∀ m' ∈ (droppingHistory.take 6).drop 5, m'.request.written? = none := by
    decide +kernel
  obtain ⟨m₀, hm₀, engine, he, x, hx, hdata, hleaves⟩ := hquiet
  obtain ⟨m, hm⟩ := Option.isSome_iff_exists.1 hsome
  have hlives := Client.lives_take hrun hm
  have htake : droppingHistory.take 6 = _ := History.take_eq_append (i := 3) (by omega) hm₀
  rw [show droppingClient.history 2 _ _ droppingProgram = droppingHistory from rfl, htake] at hlives
  have hdropped : m.page.Dropped (.compiler engine.compiler) (droppingClient.holds m.client) := by
    rw [hheld m hm]
    intro n hn
    rw [List.mem_singleton.1 hn]
    exact id
  obtain ⟨hengine, hinert⟩ := Client.dropped_view_inert hlives he hx
    (fun m' hm' => (hleaves m' hm').1) hdropped
  obtain ⟨el, el', hel, hel', hmarkup, hwrites⟩ := hinert.element fun m' hm' => (hleaves m' hm').2
  refine ⟨m₀, m, engine, el, el', hm₀, hm, hengine, hel, hel', hmarkup, hwrites, ?_⟩
  obtain ⟨m₁, hm₁, hset⟩ := hset
  have hrequest := Request.eq_of_putsText hset
  have hsplit : m₀ :: (droppingHistory.take 6).drop 4 =
      [m₀] ++ m₁ :: (droppingHistory.take 6).drop 5 :=
    congrArg (m₀ :: ·) (History.drop_take (by omega) hm₁)
  have hno : ¬ History.Writes ((droppingHistory.take 6).drop 5) engine.data "n" := by
    rintro ⟨m', hm', hwrite⟩
    rw [← Request.written?_eq_some_iff, hlater m' hm'] at hwrite
    cases hwrite
  refine (hinert.write hsplit (hdata ▸ hrequest) hno).resolve_right ?_
  rintro ⟨fields, n, hobject, -⟩
  cases hobject

end ReactiveView
