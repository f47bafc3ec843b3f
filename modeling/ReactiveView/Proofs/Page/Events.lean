import ReactiveView.Proofs.Client.Forgetting
import ReactiveView.Proofs.Page.Delegation

/-!
# Events

An event that is sent to an inner element reaches the listeners that its root element has when it is
sent, and none of those that are attached on the way.  The listeners may write, attach others, send
further events or fail; whatever they do, the listeners of an element only become more, by those
that the requests made since have attached, in the order of these requests.
-/

namespace ReactiveView

variable {κ σ : Type}

/-! ## 1. The listeners that an event reaches -/

section Shown

variable {ℓ : Type} {d : Document ℓ} {root : ElementId} {el : Element ℓ}

theorem Document.renderedIds_of_element (h : d.element? root = some el) :
    d.renderedIds root = .ok (IdAttribute.values el.markup) := by
  rw [renderedIds, find, h]

theorem Element.mem_listenersFor {type : String} {l : ℓ}
    (h : (type, l) ∈ el.listeners) : l ∈ el.listenersFor type :=
  List.mem_map.2 ⟨(type, l), List.mem_filter.2 ⟨h, beq_self_eq_true type⟩, rfl⟩

-- An event reaches the listeners for its type if the markup shows its target.
theorem Document.reached_of_mem (h : d.element? root = some el) {target : String}
    (hin : target ∈ IdAttribute.values el.markup) (type : String) :
    d.reached root type target = .ok (el.listenersFor type) := by
  rw [reached, find, h]
  exact if_pos hin

theorem Document.reached_of_not_mem (h : d.element? root = some el) {target : String}
    (hin : target ∉ IdAttribute.values el.markup) (type : String) :
    d.reached root type target = .error (.notRendered root target) := by
  rw [reached, find, h]
  exact if_neg hin

/-- The listeners that an element has for a type; none if there is no such element. -/
def Document.heard (d : Document ℓ) (root : ElementId) (type : String) : List ℓ :=
  match d.element? root with
  | some element => element.listenersFor type
  | none => []

theorem Document.heard_of_element (h : d.element? root = some el) (type : String) :
    d.heard root type = el.listenersFor type := by
  rw [heard, h]

theorem Document.heard_of_none (h : d.element? root = none) (type : String) :
    d.heard root type = [] := by
  rw [heard, h]

end Shown

section Event

variable {serve : Cue κ → Run κ σ Unit} {root : ElementId} {type target : String} {w : World κ σ}

theorem ElementId.dispatch_of_error {error : DocumentError}
    (h : w.page.document.reached root type target = .error error) :
    root.dispatch serve type target w = some (.error (.document error), w) := by
  have hreached : (Run.attempt .document fun p : Page κ =>
      (p.document.reached root type target, p)) w = some (.error (.document error), w) := by
    simp only [Run.attempt, h]
    rfl
  exact Run.bind_of_error hreached

-- The listeners that an event reaches are handed the event, and counted.
theorem ElementId.dispatch_of_ok {listeners : List (Listener κ)}
    (h : w.page.document.reached root type target = .ok listeners) :
    root.dispatch serve type target w =
      (runListeners serve ⟨type, some target⟩ listeners w).map fun r =>
        ((r.1.mapError fun cause => .document (.listener type cause)).map fun _ =>
          listeners.length, r.2) := by
  have hreached : (Run.attempt .document fun p : Page κ =>
      (p.document.reached root type target, p)) w = some (.ok listeners, w) := by
    simp only [Run.attempt, h]
    rfl
  refine (Run.bind_of_ok hreached).trans ?_
  show Run.bind (Run.mapFailure _ _) _ w = _
  rw [Run.bind, Run.mapFailure]
  cases runListeners serve ⟨type, some target⟩ listeners w with
  | none => rfl
  | some r =>
    obtain ⟨result, w'⟩ := r
    cases result <;> rfl

theorem runListeners_singleton (l : Listener κ) (event : Event) (w : World κ σ) :
    runListeners serve event [l] w = l.run serve event w := by
  show Run.bind (l.run serve event) (fun _ => Run.pure ()) w = _
  rw [Run.bind]
  cases l.run serve event w with
  | none => rfl
  | some r =>
    obtain ⟨result, w'⟩ := r
    cases result <;> rfl

-- Listeners that come later are handed the event when the earlier ones have handled it.
theorem runListeners_append_of_ok {event : Event} {ls ls' : List (Listener κ)} {w' : World κ σ}
    (h : runListeners serve event ls w = some (.ok (), w')) :
    runListeners serve event (ls ++ ls') w = runListeners serve event ls' w' := by
  induction ls generalizing w with
  | nil =>
    cases h
    rfl
  | cons l ls ih =>
    rcases Run.bind_eq_some h with ⟨e, -, he⟩ | ⟨a, w₁, h₁, h₂⟩
    · cases he
    · exact (Run.bind_of_ok h₁).trans (ih h₂)

end Event

/-! ## 2. The calls of a dispatch -/

/-- The listeners are run with an event one after the other, each of them in the world that the one
    before it left, and none of them fails. -/
inductive HandedOn (serve : Cue κ → Run κ σ Unit) (event : Event) :
    World κ σ → List (Listener κ) → World κ σ → Prop where
  | done (w : World κ σ) : HandedOn serve event w [] w
  | call {w w₁ w' : World κ σ} {l : Listener κ} {ls : List (Listener κ)}
    (hl : l.run serve event w = some (.ok (), w₁)) (hls : HandedOn serve event w₁ ls w') :
    HandedOn serve event w (l :: ls) w'

section Calls

variable {serve : Cue κ → Run κ σ Unit} {event : Event} {w w' : World κ σ}
  {ls : List (Listener κ)}

theorem runListeners_eq_ok_iff :
    runListeners serve event ls w = some (.ok (), w') ↔ HandedOn serve event w ls w' := by
  constructor
  · intro h
    induction ls generalizing w with
    | nil =>
      cases h
      exact .done _
    | cons l ls ih =>
      rcases Run.bind_eq_some h with ⟨e, -, he⟩ | ⟨a, w₁, h₁, h₂⟩
      · cases he
      · exact .call h₁ (ih h₂)
  · intro h
    induction h with
    | done w => rfl
    | call hl _ ih => exact (Run.bind_of_ok hl).trans ih

-- Where listeners do not all succeed, one of them comes to that, and those behind it are not run.
theorem runListeners_stops {o : Option (Except Failure Unit × World κ σ)}
    (ho : ∀ w', o ≠ some (.ok (), w')) :
    runListeners serve event ls w = o ↔ ∃ called l rest w₁, ls = called ++ l :: rest ∧
      HandedOn serve event w called w₁ ∧ l.run serve event w₁ = o := by
  constructor
  · intro h
    induction ls generalizing w with
    | nil => exact (ho w h.symm).elim
    | cons l ls ih =>
      change Run.bind (l.run serve event) (fun _ => runListeners serve event ls) w = o at h
      rw [Run.bind] at h
      cases hl : l.run serve event w with
      | none =>
        rw [hl] at h
        exact ⟨[], l, ls, w, rfl, .done w, hl.trans h⟩
      | some r =>
        obtain ⟨result, w₁⟩ := r
        rw [hl] at h
        cases result with
        | error cause => exact ⟨[], l, ls, w, rfl, .done w, hl.trans h⟩
        | ok =>
          obtain ⟨called, l', rest, w₂, rfl, hcalled, hend⟩ := ih h
          exact ⟨l :: called, l', rest, w₂, rfl, .call hl hcalled, hend⟩
  · rintro ⟨called, l, rest, w₁, rfl, hcalled, hend⟩
    rw [runListeners_append_of_ok (runListeners_eq_ok_iff.2 hcalled)]
    show Run.bind (l.run serve event) _ w₁ = o
    rw [Run.bind, hend]
    rcases o with _ | ⟨_ | _, w₂⟩
    · rfl
    · rfl
    · exact (ho w₂ rfl).elim

end Calls

/-- **What a dispatch does**, whatever listeners do when they are run. -/
structure Dispatches (serve : Cue κ → Run κ σ Unit) (root : ElementId) (type target : String)
    (w : World κ σ) : Prop where
  -- Refusals call no listener and change nothing.
  unknown : w.page.document.element? root = none →
    root.dispatch serve type target w = some (.error (.document (.unknownElement root)), w)
  unrendered : ∀ {ids}, w.page.document.renderedIds root = .ok ids → target ∉ ids →
    root.dispatch serve type target w = some (.error (.document (.notRendered root target)), w)
  -- All listeners that the element has when the dispatch begins are called, and counted.
  counted : ∀ {ids}, w.page.document.renderedIds root = .ok ids → target ∈ ids → ∀ {n w'},
    root.dispatch serve type target w = some (.ok n, w') ↔
      n = (w.page.document.heard root type).length ∧
        HandedOn serve ⟨type, some target⟩ w (w.page.document.heard root type) w'
  -- Or they are called up to the first one that fails.
  failed : ∀ {ids}, w.page.document.renderedIds root = .ok ids → target ∈ ids → ∀ {error w'},
    root.dispatch serve type target w = some (.error error, w') ↔
      ∃ called l rest w₁ cause, w.page.document.heard root type = called ++ l :: rest ∧
        HandedOn serve ⟨type, some target⟩ w called w₁ ∧
        l.run serve ⟨type, some target⟩ w₁ = some (.error cause, w') ∧
        error = .document (.listener type cause)
  -- And there is always an outcome, unless one of them comes to none.
  endless : ∀ {ids}, w.page.document.renderedIds root = .ok ids → target ∈ ids →
    (root.dispatch serve type target w = none ↔
      ∃ called l rest w₁, w.page.document.heard root type = called ++ l :: rest ∧
        HandedOn serve ⟨type, some target⟩ w called w₁ ∧
        l.run serve ⟨type, some target⟩ w₁ = none)

theorem dispatches (serve : Cue κ → Run κ σ Unit) (root : ElementId) (type target : String)
    (w : World κ σ) : Dispatches serve root type target w := by
  cases hel : w.page.document.element? root with
  | none =>
    have hids : ∀ ids, w.page.document.renderedIds root ≠ .ok ids := by
      intro ids h
      rw [Document.renderedIds, Document.find, hel] at h
      cases h
    have hreached : w.page.document.reached root type target = .error (.unknownElement root) := by
      rw [Document.reached, Document.find, hel]
    exact ⟨fun _ => ElementId.dispatch_of_error hreached, fun h => (hids _ h).elim,
      fun h => (hids _ h).elim, fun h => (hids _ h).elim, fun h => (hids _ h).elim⟩
  | some el =>
    have hids : ∀ {ids}, w.page.document.renderedIds root = .ok ids →
        ids = IdAttribute.values el.markup := by
      intro ids h
      rw [Document.renderedIds_of_element hel] at h
      exact (Except.ok.inj h).symm
    have hreached : ∀ {ids}, w.page.document.renderedIds root = .ok ids → target ∈ ids →
        w.page.document.reached root type target = .ok (w.page.document.heard root type) := by
      intro ids h hin
      rw [Document.heard_of_element hel]
      exact Document.reached_of_mem hel (hids h ▸ hin) type
    refine ⟨fun h => (nomatch hel.symm.trans h), fun h hnot => ?_, fun {ids} h hin {n w'} => ?_,
      fun {ids} h hin {error w'} => ?_, fun h hin => ?_⟩
    · exact ElementId.dispatch_of_error (Document.reached_of_not_mem hel (hids h ▸ hnot) type)
    · rw [ElementId.dispatch_of_ok (hreached h hin), ← runListeners_eq_ok_iff]
      rcases runListeners serve ⟨type, some target⟩ (w.page.document.heard root type) w with
        _ | ⟨_ | _, w₁⟩ <;> simp [Except.mapError, Except.map, eq_comm]
    · have hfails : ∀ o : Option (Except Failure Unit × World κ σ),
          (o.map fun r => ((r.1.mapError fun cause => Failure.document (.listener type cause)).map
            fun _ => (w.page.document.heard root type).length, r.2)) = some (.error error, w') ↔
          ∃ cause, o = some (.error cause, w') ∧ error = .document (.listener type cause) := by
        rintro (_ | ⟨_ | _, w₁⟩) <;> simp [Except.mapError, Except.map, eq_comm, and_comm]
      rw [ElementId.dispatch_of_ok (hreached h hin), hfails]
      constructor
      · rintro ⟨cause, hrun, herror⟩
        obtain ⟨called, l, rest, w₁, hlist, hcalled, hend⟩ :=
          (runListeners_stops (by simp)).1 hrun
        exact ⟨called, l, rest, w₁, cause, hlist, hcalled, hend, herror⟩
      · rintro ⟨called, l, rest, w₁, cause, hlist, hcalled, hend, herror⟩
        exact ⟨cause, (runListeners_stops (by simp)).2
          ⟨called, l, rest, w₁, hlist, hcalled, hend⟩, herror⟩
    · rw [ElementId.dispatch_of_ok (hreached h hin), Option.map_eq_none_iff]
      exact runListeners_stops (by simp)

/-! ## 3. The listeners that are attached -/

section Attaching

variable {ℓ : Type} {d d' : Document ℓ} {busy : ElementId → Prop} {root : ElementId}

theorem Document.Attached.heard_grows (h : d.Attached busy d') (root : ElementId)
    (type : String) : d.heard root type <+: d'.heard root type := by
  cases hel : d.element? root with
  | none =>
    rw [heard_of_none hel]
    exact List.nil_prefix
  | some el =>
    obtain ⟨el', hel', -, hpre, -⟩ := h root el hel
    rw [heard_of_element hel, heard_of_element hel']
    exact (hpre.filter _).map _

theorem Document.Attached.heard_eq (h : d.Attached busy d') {el : Element ℓ}
    (hel : d.element? root = some el) (hidle : ¬ busy root) (type : String) :
    d'.heard root type = d.heard root type := by
  obtain ⟨el', hel', -, -, hsame⟩ := h root el hel
  rw [heard_of_element hel, heard_of_element hel', Element.listenersFor, hsame hidle]
  rfl

theorem Document.heard_setMarkup (d : Document ℓ) (e : ElementId) (markup : String)
    (root : ElementId) (type : String) :
    (d.setMarkup e markup).2.heard root type = d.heard root type := by
  cases hel : d.element? root with
  | some el =>
    exact (d.attached_setMarkup (fun _ => False) e markup).heard_eq hel id type
  | none =>
    rw [heard_of_none hel, heard_of_none]
    by_cases he : root = e
    · subst he
      unfold setMarkup
      split
      · exact hel
      · rw [hel]
        exact hel
    · rw [element?_setMarkup_of_ne he, hel]

/-- **A registration that is not refused** adds one listener, behind those for its type. -/
theorem Document.heard_listen (d : Document ℓ) (e : ElementId) (type' : String) (l : ℓ)
    (root : ElementId) (type : String) :
    (d.listen e type' l).2.heard root type = d.heard root type ++
      if (d.listen e type' l).1.isOk ∧ e = root ∧ type' = type then [l] else [] := by
  unfold listen
  split
  · exact (List.append_nil _).symm
  · split
    · exact (List.append_nil _).symm
    · rename_i x hx
      have hsome : (element? { d with refusedListens := d.refusedListens.afterNext } e).isSome :=
        Option.isSome_of_eq_some hx
      have hmodify := element?_modify hsome
        (fun el => { el with listeners := el.listeners ++ [(type', l)] }) root
      by_cases he : e = root
      · subst he
        rw [if_pos rfl, show element? { d with refusedListens := d.refusedListens.afterNext } e =
          some x from hx, Option.map_some] at hmodify
        rw [heard_of_element hx]
        refine (heard_of_element hmodify type).trans ?_
        by_cases htype : type' = type
        · subst htype
          simp [Element.listenersFor, List.filter_append, Except.isOk, Except.toBool]
        · simp [Element.listenersFor, List.filter_append, htype]
      · rw [if_neg he] at hmodify
        rw [if_neg fun h => he h.2.1, List.append_nil]
        simp only [heard, hmodify]
        rfl

end Attaching

-- Rendering attaches no listeners.
theorem Page.heard_compile (p : Page κ) (c : CompilerId) (root : ElementId) (type : String) :
    (p.compile c).2.document.heard root type = p.document.heard root type := by
  rcases document_compile p c with h | ⟨x, markup, -, h⟩
  · rw [h]
  · rw [h, Document.heard_setMarkup]

/-- A request attaches listeners to the elements that it names for this. -/
theorem Request.attached_effect (request : Request κ) (p : Page κ) :
    p.document.Attached (fun e => ∃ el, p.document.element? e = some el ∧
      request.AttachesTo e el.id) (request.effect p).document := by
  cases request with
  | collect t x => exact .refl _ _
  | finish => exact .refl _ _
  | perform op =>
    have hmove : ∀ {q}, p.Move (· = .perform op) q → p.document.Attached (fun e => ∃ el,
        p.document.element? e = some el ∧ (perform op).AttachesTo e el.id) q.document := by
      intro q hq
      refine hq.attached.mono ?_
      rintro e ⟨el, request, hel, rfl, hattach⟩
      exact ⟨el, hel, hattach⟩
    cases op with
    | createElement id => exact hmove (.createElement id rfl)
    | setMarkup e markup => exact hmove (.setMarkup e markup rfl)
    | listen e type code => exact hmove (.listen e type code rfl)
    | compile c => exact hmove (.compile c (.inl rfl))
    | bind root t methods receiver => exact hmove (.bind root t methods receiver rfl)
    | mount vm config => exact hmove (.mount vm config rfl)
    | observe v tree =>
      cases v <;> cases tree <;> exact .refl _ _
    | newCompiler template data root ids table => cases table <;> exact .refl _ _
    | _ => exact .refl _ _

/-- The listeners for a type that the request of a moment attaches to an element. -/
def Moment.attached (root : ElementId) (type : String) (m : Moment κ σ) : List (Listener κ) :=
  ((m.request.effect m.page).document.heard root type).drop
    (m.page.document.heard root type).length

theorem Moment.heard_effect (root : ElementId) (type : String) (m : Moment κ σ) :
    (m.request.effect m.page).document.heard root type =
      m.page.document.heard root type ++ m.attached root type := by
  obtain ⟨more, hmore⟩ := (m.request.attached_effect m.page).heard_grows root type
  rw [attached, ← hmore, List.drop_left]

/-- The registration that the request asks for. -/
def Request.registration? : Request κ → Option (ElementId × String × κ)
  | .perform (.listen e type code) => some (e, type, code)
  | _ => none

theorem Request.eq_of_registration? {request : Request κ} {e : ElementId} {type : String} {code : κ}
    (h : request.registration? = some (e, type, code)) :
    request = .perform (.listen e type code) := by
  unfold registration? at h
  split at h
  · cases h
    rfl
  · cases h

-- A registration attaches its listener, if it is not refused.
theorem Moment.attached_listen {m : Moment κ σ} {e : ElementId} {type' : String} {code : κ}
    (h : m.request = .perform (.listen e type' code)) (root : ElementId) (type : String) :
    m.attached root type =
      if (m.page.document.listen e type' (.client code)).1.isOk ∧ e = root ∧ type' = type
        then [.client code] else [] := by
  have heffect := Document.heard_listen m.page.document e type' (.client code) root type
  rw [attached, h]
  show List.drop _ ((m.page.document.listen e type' (.client code)).2.heard root type) = _
  rw [heffect, List.drop_left]

-- A request that attaches nothing to an element leaves its listeners as they are.
theorem Moment.attached_of_idle {m : Moment κ σ} {root : ElementId} {el : Element (Listener κ)}
    (hel : m.page.document.element? root = some el) (h : ¬ m.request.AttachesTo root el.id)
    (type : String) : m.attached root type = [] := by
  have hidle : ¬ ∃ el, m.page.document.element? root = some el ∧
      m.request.AttachesTo root el.id := by
    rintro ⟨x, hx, hattach⟩
    rw [hel] at hx
    cases hx
    exact h hattach
  rw [attached, (m.request.attached_effect m.page).heard_eq hel hidle type, List.drop_length]

/-- **The listeners of an element** at a moment of a history are those that it had at the start and
    those that have been attached since, in this order. -/
theorem Client.Lives.heard {c : Client κ σ} {start : Page κ} {s : σ} {prog : Program κ σ}
    {g : History κ σ} {m : Moment κ σ} (hl : c.Lives start s prog (g ++ [m])) (root : ElementId)
    (type : String) :
    m.page.document.heard root type =
      start.document.heard root type ++ g.flatMap (·.attached root type) := by
  refine hl.follows (fun p h => p.document.heard root type =
      start.document.heard root type ++ h.flatMap (·.attached root type))
    (fun cue => (c.respond cue).within_all) prog.within_all trivial
    (fun {p h s request} _ hp => ?_) (fun _ _ hp => hp)
    (fun hp _ _ => (Page.heard_compile _ _ root type).trans hp) (fun _ hp => hp)
    (List.append_nil _).symm
  rw [List.flatMap_append, List.flatMap_singleton, ← List.append_assoc, ← hp]
  exact Moment.heard_effect root type ⟨p, s, request⟩

-- The same from any earlier moment on.
theorem Client.Lives.heard_since {c : Client κ σ} {start : Page κ} {s : σ} {prog : Program κ σ}
    {g between : History κ σ} {m₀ m : Moment κ σ}
    (hl : c.Lives start s prog (g ++ m₀ :: (between ++ [m]))) (root : ElementId) (type : String) :
    m.page.document.heard root type = m₀.page.document.heard root type ++
      (m₀ :: between).flatMap (·.attached root type) := by
  have hfirst : c.Lives start s prog (g ++ [m₀]) :=
    hl.mono ⟨between ++ [m], by rw [List.append_assoc]; rfl⟩
  have hlast : c.Lives start s prog ((g ++ m₀ :: between) ++ [m]) := by
    rwa [List.append_assoc]
  rw [hlast.heard, hfirst.heard, List.flatMap_append, List.append_assoc]

/-! ## 4. Events among listeners that change the page -/

/-- **Events under re-entrance.**  A dispatch is refused, without a call or a change, or it calls the
    listeners that its element has when it begins, up to the first one that fails.  What is attached
    while listeners run stands behind those, in the order of the requests, for every event that is
    sent later in the history. -/
theorem dispatch_reentrant :
    (∀ {κ σ : Type} (serve : Cue κ → Run κ σ Unit) (root : ElementId) (type target : String)
      (w : World κ σ), Dispatches serve root type target w) ∧
    (∀ {κ σ : Type} {c : Client κ σ} {start : Page κ} {s : σ} {prog : Program κ σ}
      {g between : History κ σ} {m₀ m : Moment κ σ},
      c.Lives start s prog (g ++ m₀ :: (between ++ [m])) → ∀ (root : ElementId) (type : String),
        m.page.document.heard root type = m₀.page.document.heard root type ++
          (m₀ :: between).flatMap (·.attached root type)) ∧
    ∀ {κ σ : Type} {m : Moment κ σ} (root : ElementId) (type : String),
      (∀ {e type' code}, m.request = .perform (.listen e type' code) → m.attached root type =
        if (m.page.document.listen e type' (.client code)).1.isOk ∧ e = root ∧ type' = type
          then [.client code] else []) ∧
      ∀ {el}, m.page.document.element? root = some el → ¬ m.request.AttachesTo root el.id →
        m.attached root type = [] :=
  ⟨dispatches, fun hl => hl.heard_since, fun root type =>
    ⟨fun h => Moment.attached_listen h root type, fun hel h => Moment.attached_of_idle hel h type⟩⟩

/-- A document with three listeners. -/
def chatterPage : Page Nat :=
  let shown := ((Document.ofIds ["root"]).setMarkup ⟨1⟩ "<a id=t>").2
  { document := [0, 1, 2].foldl (fun d code => (d.listen ⟨1⟩ "click" (.client code)).2) shown }

/-- A client that notes down which of its listeners are called.  The first one, when it is called
    first, takes the target away, attaches a fourth one and sends another event; the third one fails
    once the fourth one has been called. -/
def chatter : Client Nat (List Nat) where
  respond
    | .event 0 _ => .consult fun called => .remember (· ++ [0]) <|
      if called = [] then
        .perform (.setMarkup ⟨1⟩ "<a id=u>") fun _ =>
          .perform (.listen ⟨1⟩ "click" 3) fun _ =>
            .perform (.dispatch ⟨1⟩ "click" "u") fun _ => .done
      else .done
    | .event 2 _ => .consult fun called => .remember (· ++ [2]) <|
      if 3 ∈ called then .fail (.client "Full" "enough") else .done
    | .event code _ => .remember (· ++ [code]) .done
    | _ => .done
  holds _ := []

def chatterHistory : History Nat (List Nat) :=
  chatter.history 3 chatterPage [] (.perform (.dispatch ⟨1⟩ "click" "t") fun _ => .done)

-- The first event ends at its third listener; the second one, sent meanwhile, reached all four.
theorem dispatch_reentrant_chatter :
    (∃ called l rest w₁ w', chatterPage.document.heard ⟨1⟩ "click" = called ++ l :: rest ∧
      HandedOn (chatter.answer 3) ⟨"click", some "t"⟩ ⟨chatterPage, [], []⟩ called w₁ ∧
      l.run (chatter.answer 3) ⟨"click", some "t"⟩ w₁ =
        some (.error (.client "Full" "enough"), w') ∧ w'.client = [0, 0, 1, 2, 3, 1, 2]) ∧
    ∃ m₀ m, chatterHistory[2]? = some m₀ ∧ chatterHistory[3]? = some m ∧
      m₀.request = .perform (.listen ⟨1⟩ "click" 3) ∧
      (m₀.page.document.heard ⟨1⟩ "click").length = 3 ∧
      m.page.document.heard ⟨1⟩ "click" =
        m₀.page.document.heard ⟨1⟩ "click" ++ [.client 3] := by
  obtain ⟨hdispatches, hheard, hattached⟩ := dispatch_reentrant
  constructor
  · have hrun : ((ElementId.dispatch (chatter.answer 3) ⟨1⟩ "click" "t"
        ⟨chatterPage, [], []⟩).map fun r => (r.1, r.2.client)) =
        some (.error (.document (.listener "click" (.client "Full" "enough"))),
          [0, 0, 1, 2, 3, 1, 2]) := by decide +kernel
    obtain ⟨⟨result, w'⟩, hdispatch, hpair⟩ := Option.map_eq_some_iff.1 hrun
    obtain ⟨rfl, hclient⟩ := Prod.mk.inj hpair
    have hids : chatterPage.document.renderedIds ⟨1⟩ = .ok ["t"] := by decide +kernel
    obtain ⟨called, l, rest, w₁, cause, hlist, hcalled, hend, herror⟩ :=
      ((hdispatches _ _ _ _ _).failed hids (by decide)).1 hdispatch
    cases herror
    exact ⟨called, l, rest, w₁, w', hlist, hcalled, hend, hclient⟩
  · have hrun : (chatter.run 3 (.perform (.dispatch ⟨1⟩ "click" "t") fun _ => .done)
        ⟨chatterPage, [], []⟩).isSome = true := by decide +kernel
    have htwo : (chatterHistory[2]?).isSome = true ∧ (chatterHistory[3]?).isSome = true := by
      decide +kernel
    have hfacts : ∀ m₀ ∈ chatterHistory[2]?, m₀.request.registration? = some (⟨1⟩, "click", 3) ∧
        (m₀.page.document.listen ⟨1⟩ "click" (.client 3)).1.isOk ∧
        (m₀.page.document.heard ⟨1⟩ "click").length = 3 := by decide +kernel
    obtain ⟨m₀, hm₀⟩ := Option.isSome_iff_exists.1 htwo.1
    obtain ⟨m, hm⟩ := Option.isSome_iff_exists.1 htwo.2
    obtain ⟨hregistration, haccepted, hlength⟩ := hfacts m₀ hm₀
    have hrequest := Request.eq_of_registration? hregistration
    have hlives : chatter.Lives chatterPage [] _ (chatterHistory.take 3 ++ [m]) :=
      Client.lives_take hrun hm
    rw [List.take_add_one, show chatterHistory[2]? = some m₀ from hm₀, List.append_assoc] at hlives
    have hnext : chatter.Lives chatterPage [] _ (chatterHistory.take 2 ++ m₀ :: ([] ++ [m])) :=
      hlives
    have hlist := hheard hnext ⟨1⟩ "click"
    have hone := (hattached ⟨1⟩ "click").1 hrequest
    rw [if_pos ⟨haccepted, rfl, rfl⟩] at hone
    rw [List.flatMap_singleton, hone] at hlist
    exact ⟨m₀, m, hm₀, hm, hrequest, hlength, hlist⟩

end ReactiveView
