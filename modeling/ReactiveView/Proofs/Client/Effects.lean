import ReactiveView.Proofs.Client.Moves
import ReactiveView.Proofs.Page.Changes

/-!
# Effects

What a request does to the page before client code is called again.  Behind its effect an operation
only reads, renders for watchers and calls; so an invariant that may speak of the requests made so
far follows a history if every request keeps it that is noted down together with its effect.  The
rule for invariants of stores compares every moment with all later ones.
-/

namespace ReactiveView

/-! ## 1. Effects of requests -/

section Effects

variable {κ σ : Type}

/-- What an operation does to the page before it calls client code. -/
def Operation.effect (op : Operation κ) (p : Page κ) : Page κ :=
  match op with
  | observe (.object fields) none => { p with store := (p.store.wrap fields).2 }
  | observe (.object fields) (some t) => { p with store := (p.store.wrapIn t fields).2 }
  | observe _ _ => p
  | get o key => { p with store := (p.store.get o key).2 }
  | set o key v => { p with store := p.store.write o key v }
  | watch o key code => { p with store := (p.store.watch o key (.client code)).2 }
  | newRegistry => { p with store := p.store.newRegistry.2 }
  | register r w => { p with store := p.store.register r w }
  | createElement id => { p with document := (p.document.create id).2 }
  | setMarkup e markup => { p with document := (p.document.setMarkup e markup).2 }
  | listen e type code => { p with document := (p.document.listen e type (.client code)).2 }
  | refuse writes listens => { p with document := p.document.refuse writes listens }
  | newCompiler template data root ids none =>
    (p.newTable.2.newCompiler (Template.parse template) data root p.newTable.1 ids).2
  | newCompiler template data root ids (some t) =>
    (p.newCompiler (Template.parse template) data root t ids).2
  | compile c => (p.compile c).2
  | bind root t methods receiver => (p.bind root t methods receiver).2
  | mount vm config => (p.mount vm config).2
  | update _ | notify _ | isAlive _ | dispatch _ _ _ | deliver _ _ _ | call _ _ => p

/-- What a request does to the page before client code runs. -/
def Request.effect (request : Request κ) (p : Page κ) : Page κ :=
  match request with
  | perform op => op.effect p
  | collect t w => { p with store := (Store.Change.begin t w).apply p.store }
  | finish => p

variable {holds : σ → List Node} {serve : Cue κ → Run κ σ Unit} {inv : World κ σ → Prop}

/-- **What reads, renders and calls keep, an operation keeps behind its effect.** -/
theorem Operation.run_ensures (hup : KeptByUpdates holds inv)
    (hserve : ∀ cue, (serve cue).Keeps inv) (op : Operation κ) :
    (op.run holds serve).Ensures (fun w => inv { w with page := op.effect w.page })
      fun _ => inv := by
  cases op
  case set o key v =>
    intro w hw r w' h
    rw [run, ObjectId.set_apply] at h
    obtain ⟨⟨r', w₁⟩, hrun, hr⟩ := Option.map_eq_some_iff.1 h
    cases hr
    have hentered := hup.pins.enter
      ((w.page.store.registered (.ofObject o)).map .watcher ++ [.object o])
      (by simp [Node.Pinned, or_imp, forall_and]) hw
    rw [List.append_assoc] at hentered
    have hdone := hup.pins.leave hw (updateAll_keeps hup hserve _ _ hentered _ w₁ hrun)
    exact hdone
  case update x => exact x.update_keeps hup hserve
  case notify r => exact r.notify_keeps hup hserve
  case dispatch root type target => exact root.dispatch_keeps hup.pins hserve type target
  case deliver root type event => exact root.deliver_keeps hup.pins hserve type event
  case call receiver name => exact receiver.call_keeps hup.pins hserve name
  case observe v tree =>
    intro w hw r w' h
    cases v with
    | object fields => cases tree <;> (cases h; exact hw)
    | _ =>
      cases h
      exact hw
  case newCompiler template data root ids table =>
    intro w hw r w' h
    cases table <;> (cases h; exact hw)
  all_goals
    intro w hw r w' h
    cases h
    exact hw

end Effects

/-! ## 2. Invariants of pages and histories -/

section Histories

variable {κ σ : Type} {permits : Request κ → Prop} {inv : Page κ → History κ σ → Prop}

/-- An invariant of the page and its history holds now, and did so at every moment. -/
def World.Follows (inv : Page κ → History κ σ → Prop) (w : World κ (σ × History κ σ)) : Prop :=
  inv w.page w.client.2 ∧ ∀ {g m}, g ++ [m] <+: w.client.2 → inv m.page g

-- The present has become a moment of the past, and the page has moved on.
theorem World.Follows.step {w : World κ (σ × History κ σ)} (hw : w.Follows inv)
    {request : Request κ} {p : Page κ} (hp : inv p (w.noting request).client.2) :
    World.Follows inv { w.noting request with page := p } := by
  refine ⟨hp, fun hpre => ?_⟩
  rcases World.noting_cases hpre with ⟨rfl, rfl⟩ | hpre
  · exact hw.1
  · exact hw.2 hpre

theorem World.Follows.discipline (hfinish : permits .finish)
    (hstep : ∀ {p h s request}, permits request → inv p h →
      inv (request.effect p) (h ++ [⟨p, s, request⟩]))
    (hread : ∀ {p h} o key, inv p h → inv { p with store := (p.store.get o key).2 } h)
    (hrender : ∀ {p h x y c}, inv p h → p.store.watcher? x = some y → y.reaction = .render c →
      inv (p.compile c).2 h)
    (hvacate : ∀ {p h t x}, permits (.collect t x) → inv p h →
      inv { p with store := p.store.vacate t } h)
    {holds : σ × History κ σ → List Node} {serve : Cue κ → Run κ (σ × History κ σ) Unit}
    (hserve : ∀ cue, (serve cue).Keeps (World.Follows inv)) :
    Discipline permits holds serve (World.Follows inv) (World.Follows inv) := by
  refine ⟨id, fun _ hw => hw, fun hw => hw.step (hstep hfinish hw.1), fun {op} hop => ?_,
    fun {w t x error} hc hw hbegin => ?_, fun {w t x store} hc hw hbegin => ?_,
    fun hc hw => ⟨hvacate hc hw.1, hw.2⟩⟩
  · rintro w ⟨v, hv, rfl⟩
    have hup : KeptByUpdates holds (World.Follows inv) :=
      ⟨.of_ignored fun _ _ hw => hw, fun o key hw => ⟨hread o key hw.1, hw.2⟩,
        fun hw hx hy _ => ⟨hrender hw.1 hx hy, hw.2⟩⟩
    exact Operation.run_ensures hup hserve op _ (hv.step (hstep hop hv.1))
  · have hp := hstep (s := w.client.1) hc hw.1
    simp only [Request.effect, Store.Change.apply, hbegin] at hp
    exact hw.step hp
  · have hp := hstep (s := w.client.1) hc hw.1
    simp only [Request.effect, Store.Change.apply, hbegin] at hp
    exact hw.step hp

/-- **An invariant of the page and its history** that every request keeps with its effect, and that
    reads and renders keep, holds at every moment. -/
theorem Client.Lives.follows {c : Client κ σ} {start : Page κ} {s : σ} {p : Program κ σ}
    {g : History κ σ} {m : Moment κ σ} (hl : c.Lives start s p (g ++ [m]))
    (inv : Page κ → History κ σ → Prop) (hc : c.Within permits) (hp : p.Within permits)
    (hfinish : permits .finish)
    (hstep : ∀ {p h s request}, permits request → inv p h →
      inv (request.effect p) (h ++ [⟨p, s, request⟩]))
    (hread : ∀ {p h} o key, inv p h → inv { p with store := (p.store.get o key).2 } h)
    (hrender : ∀ {p h x y c}, inv p h → p.store.watcher? x = some y → y.reaction = .render c →
      inv (p.compile c).2 h)
    (hvacate : ∀ {p h t x}, permits (.collect t x) → inv p h →
      inv { p with store := p.store.vacate t } h)
    (hstart : inv start []) : inv m.page g := by
  have hfollows : (⟨start, (s, []), []⟩ : World κ (σ × History κ σ)).Follows inv :=
    ⟨hstart, fun hpre => by simp at hpre⟩
  have hrule : ∀ serve : Cue κ → Run κ (σ × History κ σ) Unit,
      (∀ cue, (serve cue).Keeps (World.Follows inv)) →
        Discipline permits c.recording.holds serve (World.Follows inv) (World.Follows inv) :=
    fun _ => World.Follows.discipline hfinish @hstep @hread @hrender @hvacate
  obtain ⟨w, hw, hpre⟩ := hl.ensures hc hp hrule hrule hfollows
  exact hw.2 hpre

-- The requests of a history are permitted ones.
theorem Client.Lives.permitted {c : Client κ σ} {start : Page κ} {s : σ} {p : Program κ σ}
    {g : History κ σ} {m : Moment κ σ} (hl : c.Lives start s p (g ++ [m]))
    (hc : c.Within permits) (hp : p.Within permits) (hfinish : permits .finish) :
    ∀ m' ∈ g, permits m'.request := by
  refine hl.follows (fun _ h => ∀ m' ∈ h, permits m'.request) hc hp hfinish
    (fun {p h s request} hr hh m' hm' => ?_) (fun _ _ hh => hh) (fun hh _ _ => hh)
    (fun _ hh => hh) (fun _ hm' => nomatch hm')
  rcases List.mem_append.1 hm' with hm' | hm'
  · exact hh m' hm'
  · rw [List.mem_singleton.1 hm']
    exact hr

end Histories

/-! ## 3. Effects on stores -/

section Stores

variable {κ σ : Type}

namespace Request

/-- The object that the request observes. -/
def observed : Request κ → Option (Fields Value)
  | .perform (.observe (.object fields) _) => some fields
  | .perform (.mount vm _) => some vm.data
  | _ => none

/-- The request writes this property. -/
def Sets (request : Request κ) (o : ObjectId) (key : String) : Prop :=
  ∃ v, request = .perform (.set o key v)

/-- The property that the request writes. -/
def written? : Request κ → Option (ObjectId × String)
  | .perform (.set o key _) => some (o, key)
  | _ => none

theorem written?_eq_some_iff {request : Request κ} {o : ObjectId} {key : String} :
    request.written? = some (o, key) ↔ request.Sets o key := by
  refine ⟨fun h => ?_, fun ⟨v, h⟩ => h ▸ rfl⟩
  unfold written? at h
  split at h
  · cases h
    exact ⟨_, rfl⟩
  · cases h

instance (request : Request κ) (o : ObjectId) (key : String) :
    Decidable (request.Sets o key) :=
  decidable_of_iff _ written?_eq_some_iff

end Request

/-- An operation that is no write changes the store in steps, and leaves collections alone. -/
theorem Operation.effect_reaches {op : Operation κ} (h : ∀ o key v, op ≠ .set o key v)
    (p : Page κ) :
    p.store.Reaches (fun change => change.Neutral ∧
      ∀ fields ∈ change.observed, fields ∈ (Request.perform op).observed)
      (op.effect p).store := by
  have hone : ∀ change : Store.Change (Reaction κ), change.Neutral → change.observed = none →
      p.store.Reaches (fun change => change.Neutral ∧
        ∀ fields ∈ change.observed, fields ∈ (Request.perform op).observed)
        (change.apply p.store) := by
    refine fun change hn hc => Store.reaches_apply change ⟨hn, fun fields hf => ?_⟩
    rw [hc] at hf
    cases hf
  cases op with
  | observe v tree =>
    cases v with
    | object fields =>
      cases tree with
      | none => exact Store.reaches_apply (.observe fields none) ⟨trivial, fun _ hf => hf⟩
      | some t => exact Store.reaches_apply (.observe fields (some t)) ⟨trivial, fun _ hf => hf⟩
    | _ => exact .refl _
  | get o key => exact hone (.read o key) trivial rfl
  | set o key v => exact (h o key v rfl).elim
  | watch o key code => exact hone (.watch o key (.client code)) trivial rfl
  | newRegistry => exact hone .newRegistry trivial rfl
  | register r w => exact hone (.register r w) trivial rfl
  | newCompiler template data root ids table => cases table <;> exact .refl _
  | compile c =>
    refine (Page.compile_changes p c).mono fun _ ⟨x, _, hm⟩ => ⟨hm.neutral, fun fields hf => ?_⟩
    rw [hm.observed] at hf
    cases hf
  | bind root t methods receiver =>
    rw [effect, Page.bind_snd, Page.store_bindTypes]
    exact .refl _
  | mount vm config =>
    refine (Page.mount_reaches p vm config).mono fun _ hm => ⟨hm.1, fun fields hf => ?_⟩
    exact congrArg some (hm.2 fields hf).symm
  | _ => exact .refl _

-- What writes and changes keep, the effect of an operation keeps.
theorem Operation.effect_keeps (op : Operation κ) (p : Page κ) (inv : Store (Reaction κ) → Prop)
    (hwrite : ∀ {s} o key v, inv s → inv (s.write o key v))
    (hchange : ∀ {s} {change : Store.Change (Reaction κ)}, change.Neutral → inv s →
      inv (change.apply s))
    (h : inv p.store) : inv (op.effect p).store := by
  by_cases hset : ∃ o key v, op = .set o key v
  · obtain ⟨o, key, v, rfl⟩ := hset
    exact hwrite o key v h
  · have hno : ∀ o key v, op ≠ .set o key v := fun o key v he => hset ⟨o, key, v, he⟩
    exact (Operation.effect_reaches hno p).keeps inv (fun hm hs => hchange hm.1 hs) h

/-- A request that is no write changes the store in steps. -/
theorem Request.effect_reaches {request : Request κ} (h : ∀ o key, ¬ request.Sets o key)
    (p : Page κ) :
    p.store.Reaches (fun change => ∀ fields ∈ change.observed, fields ∈ request.observed)
      (request.effect p).store := by
  cases request with
  | finish => exact .refl _
  | collect t w => exact Store.reaches_apply (.begin t w) fun _ hf => nomatch hf
  | perform op =>
    refine (Operation.effect_reaches (fun o key v he => h o key ⟨v, ?_⟩) p).mono fun _ hm => hm.2
    rw [he]

/-- Permitted requests can lead to this change. -/
def Store.Change.Permitted (permits : Request κ → Prop) : Store.Change (Reaction κ) → Prop
  | read _ _ | watch _ _ _ | newRegistry => True
  | observe fields _ => ∃ request, permits request ∧ fields ∈ request.observed
  | register r w => permits (.perform (.register r w))
  | begin t w => permits (.collect t w)
  | vacate t => ∃ w, permits (.collect t w)

theorem Store.Change.Permitted.observed {permits : Request κ → Prop}
    {change : Store.Change (Reaction κ)} (h : change.Permitted permits) :
    ∀ fields ∈ change.observed, ∃ request, permits request ∧ fields ∈ request.observed := by
  intro fields hf
  cases change with
  | observe fields' tree =>
    cases hf
    exact h
  | _ => cases hf

theorem Page.compile_permitted (p : Page κ) (c : CompilerId) (permits : Request κ → Prop) :
    p.store.Reaches (Store.Change.Permitted permits) (p.compile c).2.store := by
  refine (compile_changes p c).mono fun change hm => ?_
  obtain ⟨x, -, hm⟩ := hm
  cases change <;> trivial

/-- **A move changes the store in permitted steps.** -/
theorem Page.Move.reaches {permits : Request κ → Prop} {p q : Page κ} (h : p.Move permits q) :
    p.store.Reaches (Store.Change.Permitted permits) q.store := by
  have hone : ∀ change : Store.Change (Reaction κ), change.Permitted permits →
      p.store.Reaches (Store.Change.Permitted permits) (change.apply p.store) :=
    fun change hc => Store.reaches_apply change hc
  cases h with
  | read o key => exact hone (.read o key) trivial
  | wrap fields hr => exact hone (.observe fields none) ⟨_, hr, rfl⟩
  | wrapIn t fields hr => exact hone (.observe fields (some t)) ⟨_, hr, rfl⟩
  | watch o key code => exact hone (.watch o key (.client code)) trivial
  | newRegistry => exact hone .newRegistry trivial
  | register r w hr => exact hone (.register r w) hr
  | occupy t w hr hactive =>
    have hbegin := hone (.begin t w) hr
    rw [Store.Change.apply, Store.begin, hactive] at hbegin
    exact hbegin
  | vacate t w hr => exact hone (.vacate t) ⟨w, hr⟩
  | compile c => exact p.compile_permitted c permits
  | bind root t methods receiver =>
    rw [bind_snd, store_bindTypes]
    exact .refl _
  | mount vm config hr =>
    rcases mount_parts p vm config with hp | ⟨root, hs, -⟩
    · rw [hp]
      exact .refl _
    · rw [hs]
      exact (hone (.observe vm.data none) ⟨_, hr, rfl⟩).trans
        ((p.staged vm config root).compile_permitted _ permits)
  | _ => exact .refl _

/-- The store that the request of the moment leaves to the client code that runs next. -/
def Moment.store (m : Moment κ σ) : Store (Reaction κ) := (m.request.effect m.page).store

/-- At one of these moments client code writes this property. -/
def History.Writes (h : History κ σ) (o : ObjectId) (key : String) : Prop :=
  ∃ m ∈ h, m.request.Sets o key

theorem History.writes_concat (h : History κ σ) (m : Moment κ σ) (o : ObjectId) (key : String) :
    History.Writes (h ++ [m]) o key ↔ h.Writes o key ∨ m.request.Sets o key := by
  simp only [Writes, List.mem_append, List.mem_singleton, or_and_right, exists_or,
    exists_eq_left]

/-! ## 4. Invariants of stores -/

/-- What it takes for `inv` to hold of the store at every moment, and for `R` to relate the stores
    of any two moments and the writes between them. -/
structure Course (permits : Request κ → Prop) (inv : Store (Reaction κ) → Prop)
    (R : (ObjectId → String → Prop) → Store (Reaction κ) → Store (Reaction κ) → Prop) : Prop where
  finish : permits .finish
  empty : inv {}
  write : ∀ {s o key v}, permits (.perform (.set o key v)) → inv s → inv (s.write o key v)
  change : ∀ {s change},
    (∀ fields ∈ Store.Change.observed change, ∃ request, permits request ∧
      fields ∈ request.observed) → inv s → inv (change.apply s)
  refl : ∀ s, R (fun _ _ => False) s s
  written : ∀ {W r s} o key v, inv s → R W r s →
    R (fun q l => W q l ∨ q = o ∧ l = key) r (s.write o key v)
  changed : ∀ {W r s change},
    (∀ fields ∈ Store.Change.observed change, ∃ request, permits request ∧
      fields ∈ request.observed) → inv s → R W r s → R W r (change.apply s)

variable {permits : Request κ → Prop} {inv : Store (Reaction κ) → Prop}
  {R : (ObjectId → String → Prop) → Store (Reaction κ) → Store (Reaction κ) → Prop}

/-- The store keeps the invariant, and is related to the store of every moment of the history. -/
def Related (inv : Store (Reaction κ) → Prop)
    (R : (ObjectId → String → Prop) → Store (Reaction κ) → Store (Reaction κ) → Prop)
    (s : Store (Reaction κ)) (h : History κ σ) : Prop :=
  inv s ∧ ∀ {g₀ m₀ g₁}, h = g₀ ++ m₀ :: g₁ → R (History.Writes g₁) m₀.store s

-- Changes keep the relation to the past.
theorem Related.reaches (d : Course permits inv R) {s s' : Store (Reaction κ)} {h : History κ σ}
    (hs : Related inv R s h) {may : Store.Change (Reaction κ) → Prop} (hreach : s.Reaches may s')
    (hmay : ∀ change, may change → ∀ fields ∈ change.observed, ∃ request, permits request ∧
      fields ∈ request.observed) : Related inv R s' h :=
  hreach.keeps (fun s => Related inv R s h) (fun {_ change} hc hs =>
    ⟨d.change (hmay change hc) hs.1, fun hh => d.changed (hmay change hc) hs.1 (hs.2 hh)⟩) hs

-- A request is noted down and has its effect.
theorem Related.step (d : Course permits inv R) {m : Moment κ σ} {h : History κ σ}
    (hm : permits m.request) (hs : Related inv R m.page.store h) :
    Related inv R m.store (h ++ [m]) := by
  -- the latest moment is related to itself, and to the earlier ones by what its request does
  have hsplit : inv m.store ∧ (∀ {g₀ m₀ g₁}, h = g₀ ++ m₀ :: g₁ →
      R (History.Writes (g₁ ++ [m])) m₀.store m.store) →
      Related inv R m.store (h ++ [m]) := by
    rintro ⟨hinv, hpast⟩
    refine ⟨hinv, fun {g₀ m₀ g₁} hh => ?_⟩
    rcases History.concat_cases hh with ⟨rfl, rfl⟩ | ⟨g, rfl, hpre⟩
    · have hnone : History.Writes ([] : History κ σ) = fun _ _ => False := by
        funext o key
        simp [History.Writes]
      rw [hnone]
      exact d.refl _
    · exact hpast hpre
  refine hsplit ?_
  by_cases hset : ∃ o key v, m.request = .perform (.set o key v)
  · obtain ⟨o, key, v, hset⟩ := hset
    have hstore : m.store = m.page.store.write o key v := by
      rw [Moment.store, hset]
      rfl
    rw [hstore]
    refine ⟨d.write (hset ▸ hm) hs.1, fun hh => ?_⟩
    have hwrites : ∀ g₁ : History κ σ, History.Writes (g₁ ++ [m]) =
        fun q l => History.Writes g₁ q l ∨ q = o ∧ l = key := by
      intro g₁
      funext q l
      rw [History.writes_concat, hset]
      simp only [Request.Sets, Request.perform.injEq, Operation.set.injEq, exists_and_left,
        exists_eq', and_true, eq_comm]
    rw [hwrites]
    exact d.written o key v hs.1 (hs.2 hh)
  · have hno : ∀ o key, ¬ m.request.Sets o key := fun o key ⟨v, hv⟩ => hset ⟨o, key, v, hv⟩
    have hwrites : ∀ g₁ : History κ σ, History.Writes (g₁ ++ [m]) = History.Writes g₁ := by
      intro g₁
      funext o key
      rw [History.writes_concat, or_iff_left (hno o key)]
    have hdone := hs.reaches d (m.request.effect_reaches hno m.page) fun change hc fields hf =>
      ⟨m.request, hm, hc fields hf⟩
    refine ⟨hdone.1, fun hh => ?_⟩
    rw [hwrites]
    exact hdone.2 hh

/-- **An invariant of stores**, and a relation between the stores of any two moments. -/
theorem Client.Lives.course {c : Client κ σ} {p : Program κ σ} {document : Document (Listener κ)}
    {entropy : Entropy} {s : σ} {g : History κ σ} {m : Moment κ σ}
    (hl : c.Lives { document, entropy } s p (g ++ [m])) (hc : c.Within permits)
    (hp : p.Within permits) (d : Course permits inv R) : Related inv R m.page.store g := by
  have hpermitted : ∀ {s s' : Store (Reaction κ)} {h : History κ σ}, Related inv R s h →
      s.Reaches (Store.Change.Permitted permits) s' → Related inv R s' h :=
    fun hs hreach => hs.reaches d hreach fun _ hc => hc.observed
  refine hl.follows (fun p h => Related inv R p.store h) hc hp d.finish
    (fun {p h s request} hr hs => ?_) (fun {p h} o key hs => ?_)
    (fun {p h x y c} hs _ _ => hpermitted hs (p.compile_permitted c permits))
    (fun {p h t x} hr hs => ?_) ⟨d.empty, fun hh => by simp at hh⟩
  · exact Related.step (m := ⟨p, s, request⟩) d hr hs
  · exact hpermitted hs (Store.reaches_apply (.read o key) trivial)
  · exact hpermitted hs (Store.reaches_apply (.vacate t) ⟨x, hr⟩)

end Stores

end ReactiveView
