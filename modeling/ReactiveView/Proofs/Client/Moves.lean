import ReactiveView.Proofs.Client.History

/-!
# Moves

The single changes that operations make to a page.  Every operation is a sequence of moves and of
calls of client code, so that an invariant of the moves and the calls is one of the operation; a
write stands apart, because the data and what has been made of it differ until all watchers have
been updated.
-/

namespace ReactiveView

/-! ## 1. Single changes -/

/-- A single change of a page, other than a write, that permitted requests can lead to. -/
inductive Page.Move {κ : Type} (permits : Request κ → Prop) (p : Page κ) : Page κ → Prop where
  | read (o : ObjectId) (key : String) : Move permits p { p with store := (p.store.get o key).2 }
  | wrap (fields : Fields Value) (h : permits (.perform (.observe (.object fields) none))) :
    Move permits p { p with store := (p.store.wrap fields).2 }
  | wrapIn (t : TreeId) (fields : Fields Value)
    (h : permits (.perform (.observe (.object fields) (some t)))) :
    Move permits p { p with store := (p.store.wrapIn t fields).2 }
  | watch (o : ObjectId) (key : String) (code : κ) (h : permits (.perform (.watch o key code))) :
    Move permits p { p with store := (p.store.watch o key (.client code)).2 }
  | newRegistry (h : permits (.perform .newRegistry)) :
    Move permits p { p with store := p.store.newRegistry.2 }
  | register (r : RegistryId) (w : WatcherId) (h : permits (.perform (.register r w))) :
    Move permits p { p with store := p.store.register r w }
  | occupy (t : TreeId) (w : WatcherId) (h : permits (.collect t w))
    (hactive : p.store.active t = none) : Move permits p { p with store := p.store.occupy t w }
  | vacate (t : TreeId) (w : WatcherId) (h : permits (.collect t w)) :
    Move permits p { p with store := p.store.vacate t }
  | createElement (id : String) (h : permits (.perform (.createElement id))) :
    Move permits p { p with document := (p.document.create id).2 }
  | setMarkup (e : ElementId) (markup : String) (h : permits (.perform (.setMarkup e markup))) :
    Move permits p { p with document := (p.document.setMarkup e markup).2 }
  | listen (e : ElementId) (type : String) (code : κ)
    (h : permits (.perform (.listen e type code))) :
    Move permits p { p with document := (p.document.listen e type (.client code)).2 }
  | refuse (writes listens : Nat) (h : permits (.perform (.refuse writes listens))) :
    Move permits p { p with document := p.document.refuse writes listens }
  | newTable
    (h : ∃ template data root ids, permits (.perform (.newCompiler template data root ids none))) :
    Move permits p p.newTable.2
  | newCompiler (template : String) (data : ObjectId) (root : ElementId) (ids : IdSource)
    (table : Option TableId) (t : TableId)
    (h : permits (.perform (.newCompiler template data root ids table))) :
    Move permits p (p.newCompiler (Template.parse template) data root t ids).2
  | compile (c : CompilerId)
    (h : permits (.perform (.compile c)) ∨
      ∃ w x, p.store.watcher? w = some x ∧ x.reaction = .render c) :
    Move permits p (p.compile c).2
  | bind (root : ElementId) (t : TableId) (methods : Fields κ) (receiver : Receiver κ)
    (h : permits (.perform (.bind root t methods receiver))) :
    Move permits p (p.bind root t methods receiver).2
  | mount (vm : ViewModel κ) (config : Config) (h : permits (.perform (.mount vm config))) :
    Move permits p (p.mount vm config).2

/-! ## 2. Operations as sequences of moves -/

section Sequences

variable {κ σ : Type} {holds : σ → List Node} {serve : Cue κ → Run κ σ Unit}
  {permits : Request κ → Prop} {inv : World κ σ → Prop}

/-- What an update does of itself keeps the invariant: it reads, and renders for a compiler that is
    alive. -/
structure KeptByUpdates (holds : σ → List Node) (inv : World κ σ → Prop) : Prop where
  pins : Run.BearsPins inv
  read : ∀ {w} (o : ObjectId) (key : String), inv w → inv (w.read o key)
  render : ∀ {w x y c}, inv w → w.page.store.watcher? x = some y → y.reaction = .render c →
    w.alive holds (.compiler c) = true → inv { w with page := (w.page.compile c).2 }

-- An invariant of all moves.
theorem KeptByUpdates.of_move (hpins : ∀ w ns, inv w → inv { w with pins := ns })
    (hmove : ∀ {w p}, inv w → w.page.Move permits p → inv { w with page := p }) :
    KeptByUpdates holds inv :=
  ⟨.of_ignored hpins, fun o key hw => hmove hw (.read o key),
    fun hw hx hy _ => hmove hw (.compile _ (.inr ⟨_, _, hx, hy⟩))⟩

theorem Reaction.run_ensures (hup : KeptByUpdates holds inv)
    (hserve : ∀ cue, (serve cue).Keeps inv) (r : Reaction κ) (field : Field) :
    (r.run holds serve field).Ensures
      (fun w => inv w ∧ ∃ x y, w.page.store.watcher? x = some y ∧ y.reaction = r)
      fun _ => inv := by
  rintro w ⟨hw, x, y, hx, hy⟩ r' w' h
  cases r with
  | client code => exact hserve (.reaction code field) w hw r' w' h
  | render c =>
    change (Run.isAlive holds (.compiler c) >>= _) w = _ at h
    rw [Run.bind_of_ok (Run.isAlive_apply holds _ w)] at h
    split at h
    · rename_i halive
      cases h
      exact hup.render hw hx hy halive
    · cases h
      exact hw

theorem WatcherId.update_keeps (hup : KeptByUpdates holds inv)
    (hserve : ∀ cue, (serve cue).Keeps inv) (x : WatcherId) :
    (x.update holds serve).Keeps inv := by
  intro w hw r w' h
  cases hx : w.page.store.watcher? x with
  | none =>
    rw [update_of_none holds serve hx] at h
    cases h
    exact hw
  | some watcher =>
    have hread : inv (w.read watcher.source watcher.property) := hup.read _ _ hw
    rw [update_of_some holds serve hx] at h
    split at h
    · split at h
      · cases h
        exact hread
      · obtain ⟨w₁, h₁, rfl⟩ := Run.pinning_eq_some h
        obtain ⟨r', h₂, -⟩ := Run.mapFailure_eq_some h₁
        have hentered := hup.pins.enter (.object watcher.source ::
          (w.page.store.field watcher.source watcher.property).proxy?.toList.map .object)
          (by simp [Node.Pinned]) hread
        refine hup.pins.leave hread
          (Reaction.run_ensures hup hserve _ _ _ ⟨hentered, x, watcher, ?_, rfl⟩ r' w₁ h₂)
        exact (Store.watcher?_get _ _ _ x).trans hx
    · cases h
      exact hw

theorem updateAll_keeps (hup : KeptByUpdates holds inv) (hserve : ∀ cue, (serve cue).Keeps inv)
    (xs : List WatcherId) : (updateAll holds serve xs).Keeps inv := by
  induction xs with
  | nil => exact Run.Keeps.pure ()
  | cons x xs ih => exact (x.update_keeps hup hserve).bind fun _ => ih

theorem RegistryId.notify_keeps (hup : KeptByUpdates holds inv)
    (hserve : ∀ cue, (serve cue).Keeps inv) (r : RegistryId) :
    (r.notify holds serve).Keeps inv :=
  (Run.Keeps.look _).bind fun ws =>
    .pinning hup.pins (by simp [Node.Pinned]) (updateAll_keeps hup hserve ws)

theorem ObjectId.set_keeps (hup : KeptByUpdates holds inv) (hserve : ∀ cue, (serve cue).Keeps inv)
    {o : ObjectId} {key : String} {v : Value}
    (hwrite : ∀ w, inv w →
      inv { w with page := { w.page with store := w.page.store.write o key v } }) :
    (o.set holds serve key v).Keeps inv :=
  .pinning hup.pins (by simp [Node.Pinned]) <|
    (Run.Keeps.page hwrite).bind fun _ => RegistryId.notify_keeps hup hserve _

theorem Receiver.run_keeps (hpins : Run.BearsPins inv) (hserve : ∀ cue, (serve cue).Keeps inv)
    (receiver : Receiver κ) (name : String) (code : κ) :
    (receiver.run serve name code).Keeps inv :=
  .pinning hpins (by simp [Node.Pinned]) (.mapFailure (hserve _))

theorem Receiver.call_keeps (hpins : Run.BearsPins inv) (hserve : ∀ cue, (serve cue).Keeps inv)
    (receiver : Receiver κ) (name : String) : (receiver.call serve name).Keeps inv := by
  unfold Receiver.call
  split
  · exact Run.Keeps.fail _
  · exact receiver.run_keeps hpins hserve name _

theorem Listener.run_keeps (hpins : Run.BearsPins inv) (hserve : ∀ cue, (serve cue).Keeps inv)
    (l : Listener κ) (event : Event) : (l.run serve event).Keeps inv := by
  cases l with
  | client code => exact hserve _
  | delegate t methods receiver =>
    refine (Run.Keeps.look _).bind fun table => ?_
    split
    · exact Run.Keeps.pure ()
    · split
      · exact Run.Keeps.pure ()
      · exact receiver.run_keeps hpins hserve _ _

theorem runListeners_keeps (hpins : Run.BearsPins inv) (hserve : ∀ cue, (serve cue).Keeps inv)
    (event : Event) (ls : List (Listener κ)) : (runListeners serve event ls).Keeps inv := by
  induction ls with
  | nil => exact Run.Keeps.pure ()
  | cons l ls ih => exact (l.run_keeps hpins hserve event).bind fun _ => ih

theorem ElementId.deliver_keeps (hpins : Run.BearsPins inv)
    (hserve : ∀ cue, (serve cue).Keeps inv) (root : ElementId) (type : String) (event : Event) :
    (root.deliver serve type event).Keeps inv :=
  (Run.Keeps.look _).bind fun _ =>
    (runListeners_keeps hpins hserve _ _).bind fun _ => Run.Keeps.pure _

theorem ElementId.dispatch_keeps (hpins : Run.BearsPins inv)
    (hserve : ∀ cue, (serve cue).Keeps inv) (root : ElementId) (type target : String) :
    (root.dispatch serve type target).Keeps inv :=
  (Run.Keeps.attempt fun _ hw => hw).bind fun _ =>
    (Run.Keeps.mapFailure (runListeners_keeps hpins hserve _ _)).bind fun _ => Run.Keeps.pure _

/-- **What moves, writes and calls keep, an operation keeps.** -/
theorem Operation.run_keeps (hpins : ∀ w ns, inv w → inv { w with pins := ns })
    (hserve : ∀ cue, (serve cue).Keeps inv)
    (hmove : ∀ {w p}, inv w → w.page.Move permits p → inv { w with page := p })
    (hset : ∀ {o key v}, permits (.perform (.set o key v)) → (o.set holds serve key v).Keeps inv)
    {op : Operation κ} (h : permits (.perform op)) : (op.run holds serve).Keeps inv := by
  have hup : KeptByUpdates holds inv := .of_move hpins hmove
  cases op <;> unfold Operation.run
  case observe v tree =>
    intro w hw r w' hr
    cases v with
    | object fields =>
      cases tree with
      | none =>
        cases hr
        exact hmove hw (.wrap fields h)
      | some t =>
        cases hr
        exact hmove hw (.wrapIn t fields h)
    | _ =>
      cases hr
      exact hw
  case get o key => exact .page fun w hw => hmove hw (.read o key)
  case set o key v => exact hset h
  case watch o key code => exact .attempt fun w hw => hmove hw (.watch o key code h)
  case update x => exact x.update_keeps hup hserve
  case newRegistry => exact .page fun w hw => hmove hw (.newRegistry h)
  case register r x => exact .page fun w hw => hmove hw (.register r x h)
  case notify r => exact r.notify_keeps hup hserve
  case isAlive n => exact .isAlive holds n
  case createElement id => exact .page fun w hw => hmove hw (.createElement id h)
  case setMarkup e markup => exact .attempt fun w hw => hmove hw (.setMarkup e markup h)
  case listen e type code => exact .attempt fun w hw => hmove hw (.listen e type code h)
  case refuse writes listens => exact .page fun w hw => hmove hw (.refuse writes listens h)
  case dispatch root type target => exact root.dispatch_keeps hup.pins hserve type target
  case deliver root type event => exact root.deliver_keeps hup.pins hserve type event
  case newCompiler template data root ids table =>
    refine .page fun w hw => ?_
    cases table with
    | some t => exact hmove hw (.newCompiler template data root ids (some t) t h)
    | none =>
      -- the table of its own comes first
      have hw' : inv { w with page := w.page.newTable.2 } :=
        hmove hw (.newTable ⟨template, data, root, ids, h⟩)
      have hdone := hmove hw'
        (.newCompiler template data root ids none w.page.newTable.1 h)
      exact hdone
  case compile c => exact .attempt fun w hw => hmove hw (.compile c (.inl h))
  case bind root t methods receiver =>
    exact .attempt fun w hw => hmove hw (.bind root t methods receiver h)
  case mount vm config => exact .attempt fun w hw => hmove hw (.mount vm config h)
  case call receiver name => exact receiver.call_keeps hup.pins hserve name

end Sequences

/-! ## 3. Invariants of pages -/

section Pages

variable {κ σ : Type} {permits : Request κ → Prop}

/-- An invariant of pages holds now, and did so at every moment of the history. -/
def World.Throughout (inv : Page κ → Prop) (w : World κ (σ × History κ σ)) : Prop :=
  inv w.page ∧ ∀ m ∈ w.client.2, inv m.page

variable {inv : Page κ → Prop} {w : World κ (σ × History κ σ)}

theorem World.Throughout.noting (hw : w.Throughout inv) (request : Request κ) :
    (w.noting request).Throughout inv := by
  refine ⟨hw.1, fun m hm => ?_⟩
  rcases List.mem_append.1 hm with hm | hm
  · exact hw.2 m hm
  · rw [List.mem_singleton.1 hm]
    exact hw.1

theorem World.Throughout.turn (hw : w.Throughout inv) {p : Page κ} (hp : inv p) :
    World.Throughout inv { w with page := p } :=
  ⟨hp, hw.2⟩

theorem World.Throughout.discipline (hmove : ∀ {p q}, inv p → p.Move permits q → inv q)
    (hwrite : ∀ {p o key v}, permits (.perform (.set o key v)) → inv p →
      inv { p with store := p.store.write o key v })
    {holds : σ × History κ σ → List Node} {serve : Cue κ → Run κ (σ × History κ σ) Unit}
    (hserve : ∀ cue, (serve cue).Keeps (World.Throughout inv)) :
    Discipline permits holds serve (World.Throughout inv) (World.Throughout inv) := by
  have hpins : ∀ (w : World κ (σ × History κ σ)) (ns : List Node), w.Throughout inv →
      World.Throughout inv { w with pins := ns } := fun _ _ hw => hw
  have hturn : ∀ {w : World κ (σ × History κ σ)} {q}, w.Throughout inv → w.page.Move permits q →
      World.Throughout inv { w with page := q } := fun hw hq => hw.turn (hmove hw.1 hq)
  refine ⟨id, fun _ hw => hw, fun hw => hw.noting _, fun hop => ?_, fun _ hw _ => hw.noting _,
    fun {w t x store} hcollect hw hbegin => ?_, fun {w t x} hcollect hw => ?_⟩
  · rintro w ⟨v, hv, rfl⟩
    refine Operation.run_keeps hpins hserve hturn (fun hset => ?_) hop _ (hv.noting _)
    exact ObjectId.set_keeps (.of_move hpins hturn) hserve fun w hw => hw.turn (hwrite hset hw.1)
  · obtain ⟨hactive, rfl⟩ := Store.begin_eq_ok hbegin
    exact hturn (hw.noting _) (.occupy t x hcollect hactive)
  · exact hturn hw (.vacate t x hcollect)

/-- **An invariant of the page alone** that permitted moves and writes keep holds at every
    moment. -/
theorem Client.Lives.all {c : Client κ σ} {start : Page κ} {s : σ} {p : Program κ σ}
    {h : History κ σ} (hl : c.Lives start s p h) (inv : Page κ → Prop) (hc : c.Within permits)
    (hp : p.Within permits) (hmove : ∀ {p q}, inv p → p.Move permits q → inv q)
    (hwrite : ∀ {p o key v}, permits (.perform (.set o key v)) → inv p →
      inv { p with store := p.store.write o key v })
    (hstart : inv start) : ∀ m ∈ h, inv m.page := by
  obtain ⟨w, hw, hpre⟩ := hl.ensures hc hp (fun _ => World.Throughout.discipline hmove hwrite)
    (fun _ => World.Throughout.discipline hmove hwrite) ⟨hstart, fun _ hm => nomatch hm⟩
  exact fun m hm => hw.2 m (hpre.subset hm)

end Pages

end ReactiveView
