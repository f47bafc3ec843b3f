import ReactiveView.Proofs.Page.Events
import ReactiveView.Proofs.View.ExternalWrite

/-!
# Delegated dispatch

An event that is sent to an inner element reaches the listeners of its root element if the markup
shows the target.  A delegated listener then looks the target up in the table as it is at that time,
and runs at most one method.
-/

namespace ReactiveView

variable {κ σ : Type}

/-! ## 1. One delegated listener -/

section Event

variable {serve : Cue κ → Run κ σ Unit} {type target : String} {w : World κ σ}
  {t : TableId} {methods : Fields κ} {receiver : Receiver κ}

theorem Listener.run_delegate (event : Event) :
    (Listener.delegate t methods receiver).run serve event w =
      (match event.target.bind fun id => (w.page.table t).find? id event.type with
      | none => pure ()
      | some binding =>
        match Fields.get? methods binding.method with
        | none => pure ()
        | some code => receiver.run serve binding.method code) w :=
  Run.bind_of_ok (Run.look_apply _ w)

-- A delegated listener runs the method that the table binds to the target for this event type.
theorem Listener.run_delegate_of_method {m : String} {code : κ}
    (hget : (w.page.table t).get? target = some ⟨type, m⟩)
    (hm : Fields.get? methods m = some code) :
    (Listener.delegate t methods receiver).run serve ⟨type, some target⟩ w =
      receiver.run serve m code w := by
  have hfind : (w.page.table t).find? target type = some ⟨type, m⟩ :=
    BindingTable.find?_eq_some_iff.2 ⟨hget, rfl⟩
  simp only [run_delegate, Option.bind_some, hfind, hm]

-- Without a binding for this event type, or without the method, it does nothing.
theorem Listener.run_delegate_of_no_method
    (h : ∀ m code, (w.page.table t).get? target = some ⟨type, m⟩ →
      Fields.get? methods m ≠ some code) :
    (Listener.delegate t methods receiver).run serve ⟨type, some target⟩ w = some (.ok (), w) := by
  rw [run_delegate]
  cases hfind : (w.page.table t).find? target type with
  | none => simp only [Option.bind_some, hfind]; rfl
  | some b =>
    obtain ⟨hget, rfl⟩ := BindingTable.find?_eq_some_iff.1 hfind
    have hm : Fields.get? methods b.method = none :=
      Option.eq_none_iff_forall_ne_some.2 fun code => h b.method code hget
    simp only [Option.bind_some, hfind, hm]
    rfl

end Event

/-! ## 2. The delegation of a root element -/

/-- What a dispatch answers when its one listener has run the method `m`. -/
def methodReply (type m : String) : Except Failure Unit → Except Failure Nat
  | .ok () => .ok 1
  | .error cause => .error (.document (.listener type (.engine (.method m cause))))

/-- **How events are delegated** by a root element whose only listeners are those of one bind, for
    the event types `bound`: what a dispatch does in the world `w`. -/
structure Delegates (serve : Cue κ → Run κ σ Unit) (root : ElementId) (bound : List String)
    (t : TableId) (methods : Fields κ) (receiver : Receiver κ) (w : World κ σ) (type target : String)
    (shown : List String) : Prop where
  shows : w.page.document.renderedIds root = .ok shown
  -- A target that the markup does not show is refused, and no code is called.
  unrendered : target ∉ shown →
    root.dispatch serve type target w = some (.error (.document (.notRendered root target)), w)
  -- An event of another type reaches nobody.
  unbound : target ∈ shown → type ∉ bound → root.dispatch serve type target w = some (.ok 0, w)
  -- One of a bound type reaches one listener.
  reached : target ∈ shown → type ∈ bound →
    w.page.document.reached root type target = .ok [.delegate t methods receiver]
  -- That listener calls the method which the table binds to the target now, once.
  called : target ∈ shown → type ∈ bound → ∀ {m code},
    (w.page.table t).get? target = some ⟨type, m⟩ → Fields.get? methods m = some code →
      root.dispatch serve type target w =
        (serve (.method code receiver) { w with pins := .object receiver.data :: w.pins }).map
          fun r => (methodReply type m r.1, { r.2 with pins := w.pins })
  -- And if there is no such method it calls none.
  idle : target ∈ shown → type ∈ bound →
    (∀ m code, (w.page.table t).get? target = some ⟨type, m⟩ → Fields.get? methods m ≠ some code) →
      root.dispatch serve type target w = some (.ok 1, w)

theorem delegates_of_hearsOnly {root : ElementId} {id : String} {bound : List String}
    (hbound : bound.Nodup) {t : TableId} {methods : Fields κ} {receiver : Receiver κ}
    {w : World κ σ}
    (h : w.page.HearsOnly root id
      (bound.map fun type => (type, .delegate t methods receiver)))
    (serve : Cue κ → Run κ σ Unit) (type target : String) :
    ∃ shown, Delegates serve root bound t methods receiver w type target shown := by
  obtain ⟨el, hel, -, hlisteners⟩ := h
  have hfor := Element.listenersFor_of_types hlisteners hbound type
  have hone : target ∈ IdAttribute.values el.markup → type ∈ bound →
      w.page.document.reached root type target = .ok [.delegate t methods receiver] := by
    intro hin htype
    rw [Document.reached_of_mem hel hin, hfor, if_pos htype]
  refine ⟨IdAttribute.values el.markup, Document.renderedIds_of_element hel,
    fun hin => ElementId.dispatch_of_error (Document.reached_of_not_mem hel hin type),
    fun hin htype => ?_, hone, fun hin htype {m code} hget hm => ?_, fun hin htype hno => ?_⟩
  · rw [ElementId.dispatch_of_ok (Document.reached_of_mem hel hin type), hfor, if_neg htype]
    rfl
  · rw [ElementId.dispatch_of_ok (hone hin htype), runListeners_singleton,
      Listener.run_delegate_of_method hget hm, Receiver.run, Run.pinning, Run.mapFailure,
      Option.map_map, Option.map_map]
    refine congrFun (congrArg Option.map (funext fun r => ?_)) _
    obtain ⟨result, w'⟩ := r
    cases result <;> rfl
  · rw [ElementId.dispatch_of_ok (hone hin htype), runListeners_singleton,
      Listener.run_delegate_of_no_method hno]
    rfl

/-! ## 3. Every page that can be reached -/

-- Where there is one compiler, there is no other.
theorem Page.compiler_of_single {p : Page κ} (hsize : p.compilers.size = 1) {c d : CompilerId}
    {x y : Compiler} (hx : p.compiler? c = some x) (hy : p.compiler? d = some y) : d = c := by
  have hzero : ∀ {d y}, p.compiler? d = some y → d.index = 0 := by
    intro d y hy
    have hlt : d.index < p.compilers.size := by
      rw [← Arena.get?_isSome_iff, show p.compilers.get? d.index = some y from hy]
      rfl
    omega
  obtain ⟨i⟩ := d
  obtain ⟨j⟩ := c
  exact congrArg CompilerId.mk ((hzero hy).trans (hzero hx).symm)

-- The view `e` at the last moment of a history.
theorem History.exists_last_view {h : History κ σ} {e : EngineId}
    (hlast : (h.getLast?.bind fun m => (m.page.engine? e).bind fun engine =>
      m.page.compiler? engine.compiler).isSome = true) :
    ∃ m engine x, h.getLast? = some m ∧ m.page.engine? e = some engine ∧
      m.page.compiler? engine.compiler = some x := by
  obtain ⟨x, hx⟩ := Option.isSome_iff_exists.1 hlast
  obtain ⟨m, hm, hx⟩ := Option.bind_eq_some_iff.1 hx
  obtain ⟨engine, he, hx⟩ := Option.bind_eq_some_iff.1 hx
  exact ⟨m, engine, x, hm, he, hx⟩

/-- **Delegated dispatch.**  Where an element without listeners gets those of one bind, and nobody
    attaches others to it, every later page delegates its events by the table as it is then, however
    the table was extended and the markup rewritten in between.  And at every moment of a history
    the rows of the table of a view carry what the template of the view binds, for which it has a
    listener; all ids that it drew are among them. -/
theorem delegated_dispatch :
    (∀ {p p₁ : Page κ} {root : ElementId} {el : Element (Listener κ)} {t : TableId}
      {methods : Fields κ} {receiver : Receiver κ} {types : List String} {w : World κ σ},
      p.document.element? root = some el → el.listeners = [] →
      p.bind root t methods receiver = (.ok types, p₁) →
      p₁.Leads (fun request => ¬ request.AttachesTo root el.id) (fun _ => True) w.page →
      ∀ (serve : Cue κ → Run κ σ Unit) (type target : String), ∃ shown,
        Delegates serve root (p.table t).eventTypes t methods receiver w type target shown) ∧
    ∀ {c : Client κ σ} {document : Document (Listener κ)} {entropy : Entropy} {s : σ}
      {prog : Program κ σ} {h : History κ σ} {m : Moment κ σ} {e : EngineId} {engine : Engine κ}
      {x : Compiler},
      c.Lives { document, entropy } s prog h → m ∈ h → m.page.engine? e = some engine →
      m.page.compiler? engine.compiler = some x → m.page.OwnsTable engine.compiler x →
      (∀ {id}, x.lastId = some id → id ∈ (m.page.table x.table).ids) ∧
      ∀ row ∈ (m.page.table x.table).rows, x.template.binding? = some row.2 ∧
        row.2.eventType ∈ engine.boundTypes ∧
        ∃ el, m.page.document.element? engine.root = some el ∧
          (row.2.eventType, .delegate x.table engine.receiver.methods engine.receiver) ∈
            el.listeners := by
  refine ⟨fun {p p₁ root el t methods receiver types w} hel hnone hbind hleads serve type target =>
      ?_, fun {c document entropy s prog h m e engine x} hl hm he hx hown => ?_⟩
  · obtain ⟨rfl, hbound⟩ := Page.bind_ok hbind hel
    rw [hnone, List.nil_append] at hbound
    have hears := hleads.hearsOnly ⟨_, hbound, rfl, rfl⟩
    exact delegates_of_hearsOnly (BindingTable.nodup_eventTypes _) hears serve type target
  · have hleads : Page.Leads (fun _ => True) (fun _ => False) { document, entropy } m.page :=
      hl.leads (fun cue => (c.respond cue).within_all) prog.within_all hm
    obtain ⟨hsupplied, hattentive⟩ := hleads.heard
    obtain ⟨y, hy⟩ := hattentive he
    obtain rfl : y = x := Option.some.inj (hy.found.symm.trans hx)
    refine ⟨hy.drawn, fun row hrow => ?_⟩
    obtain ⟨d, z, hz, htable, hbinding⟩ := hsupplied hrow
    -- the view fills its table alone
    obtain rfl := hown hz htable
    obtain rfl : z = y := Option.some.inj (hz.symm.trans hx)
    exact ⟨hbinding, hy.listens hbinding⟩

def padMethods : Fields Unit := [("press", ())]

def padReceiver : Receiver Unit := ⟨⟨⟨0⟩, 0⟩, padMethods⟩

/-- An element without listeners, and a table with one binding. -/
def padPage : Page Unit :=
  { document := .ofIds ["pad"], tables := ⟨#[⟨[("p1", ⟨"click", "press"⟩)]⟩]⟩ }

/-- The page after the bind. -/
def padBound : Page Unit := (padPage.bind ⟨1⟩ ⟨0⟩ padMethods padReceiver).2

/-- The page later on: the markup shows another id, which has come into the table by then. -/
def padLater : Page Unit :=
  { padBound with document := (padBound.document.setMarkup ⟨1⟩ "<b id=p2>").2 }.modifyTable ⟨0⟩
    fun t => t.insert "p2" ⟨"click", "press"⟩

/-- A view with a button that shows a number. -/
def padView : ViewModel Unit :=
  { data := [("n", .text "1")], template := "<b @click=\"press\">\x7b\x7bn\x7d\x7d</b>"
    methods := padMethods }

/-- A client that holds the first view and does nothing when it is called. -/
def padClient : Client Unit Unit := { respond := fun _ => .done, holds := fun _ => [.engine ⟨0⟩] }

/-- Mounts the button and changes its number. -/
def padProgram : Program Unit Unit :=
  .perform (.mount padView { rootId := "pad", ids := .sequential "p" }) fun _ =>
    .perform (.set ⟨⟨0⟩, 0⟩ "n" (.text "2")) fun _ => .done

def padHistory : History Unit Unit :=
  padClient.history 1 { document := .ofIds ["pad"] } () padProgram

theorem delegated_dispatch_pad :
    (∀ serve : Cue Unit → Run Unit Unit Unit,
      ElementId.dispatch serve ⟨1⟩ "click" "p2" ⟨padLater, (), []⟩ =
        (serve (.method () padReceiver) ⟨padLater, (), [.object ⟨⟨0⟩, 0⟩]⟩).map fun r =>
          (methodReply "click" "press" r.1, { r.2 with pins := [] })) ∧
    ∃ m engine, ∃ x : Compiler, ∃ el, padHistory.getLast? = some m ∧ m.page.engine? ⟨0⟩ = some engine ∧
      m.page.document.element? engine.root = some el ∧
      (m.page.table x.table).rows = [("p1", ⟨"click", "press"⟩), ("p2", ⟨"click", "press"⟩)] ∧
      ("click", .delegate x.table engine.receiver.methods engine.receiver) ∈ el.listeners := by
  constructor
  · intro serve
    have hel : padPage.document.element? ⟨1⟩ = some { id := "pad" } := rfl
    have hbind : padPage.bind ⟨1⟩ ⟨0⟩ padMethods padReceiver = (.ok ["click"], padBound) := rfl
    have hleads : padBound.Leads (fun request => ¬ request.AttachesTo ⟨1⟩ "pad") (fun _ => True)
        padLater := .record _ _ (.move .refl (.setMarkup _ _ id)) trivial
    obtain ⟨shown, hd⟩ := (delegated_dispatch (κ := Unit) (σ := Unit)).1
      (w := ⟨padLater, (), []⟩) hel rfl hbind hleads serve "click" "p2"
    have hshown : padLater.document.renderedIds ⟨1⟩ = .ok ["p2"] := by decide +kernel
    obtain rfl : ["p2"] = shown := Except.ok.inj (hshown.symm.trans hd.shows)
    exact hd.called (by decide) (by decide +kernel) (by decide +kernel) rfl
  · have hrun : (padClient.run 1 padProgram
        ⟨{ document := .ofIds ["pad"] }, (), []⟩).isSome = true := by decide +kernel
    have hlast : (padHistory.getLast?.bind fun m => (m.page.engine? ⟨0⟩).bind fun engine =>
        m.page.compiler? engine.compiler).isSome = true := by decide +kernel
    have hfacts : ∀ m ∈ padHistory.getLast?, ∀ engine ∈ m.page.engine? ⟨0⟩,
        ∀ x ∈ m.page.compiler? engine.compiler, m.page.compilers.size = 1 ∧
          (m.page.table x.table).rows =
            [("p1", ⟨"click", "press"⟩), ("p2", ⟨"click", "press"⟩)] := by decide +kernel
    obtain ⟨m, engine, x, hm, he, hx⟩ := History.exists_last_view hlast
    obtain ⟨hsize, hrows⟩ := hfacts m hm engine he x hx
    have hlives : padClient.Lives { document := .ofIds ["pad"] } () padProgram padHistory :=
      Client.lives_history hrun
    obtain ⟨-, hall⟩ := delegated_dispatch.2 hlives (List.mem_of_getLast? hm) he hx
      (fun hy _ => Page.compiler_of_single hsize hx hy)
    obtain ⟨-, -, el, hel, hmem⟩ := hall _ (hrows ▸ List.mem_cons_self)
    exact ⟨m, engine, x, el, hm, he, hel, hrows, hmem⟩

end ReactiveView
