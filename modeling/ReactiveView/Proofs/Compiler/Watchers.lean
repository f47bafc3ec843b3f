import ReactiveView.Proofs.Page.Registrations

/-!
# The watchers of a compiler

A compile that has not rendered before makes a watcher for each placeholder, and only then draws an
id.  If that fails, the watchers stay, and the next compile makes them again: a compiler that has
rendered has for each placeholder one watcher for every attempt that it took to draw an id.
-/

namespace ReactiveView

variable {κ : Type}

/-! ## 1. Sources that fail -/

namespace IdSource

/-- How many calls fail before the first id is given. -/
def gaps : IdSource → Nat
  | listed ids => (ids.takeWhile Option.isNone).length
  | _ => 0

/-- What a source becomes by `n` calls that all fail. -/
inductive Fails (s : IdSource) : Nat → IdSource → Prop where
  | refl : Fails s 0 s
  | step {n s' s'' e e' error} (h : Fails s n s') (hd : s'.draw e = (.error error, s'', e')) :
    Fails s (n + 1) s''

variable {s s' s'' : IdSource} {n : Nat} {e e' : Entropy}

theorem Fails.gaps (h : s.Fails n s') : s' = .listed [] ∨ s.gaps = n + s'.gaps := by
  induction h with
  | refl => exact .inr (Nat.zero_add _).symm
  | step _ hd ih =>
    unfold draw at hd
    split at hd <;> cases hd
    · -- a gap was used up
      refine .inr ?_
      rcases ih with ih | ih
      · cases ih
      · rw [ih, IdSource.gaps, IdSource.gaps, List.takeWhile_cons_of_pos rfl, List.length_cons]
        omega
    · exact .inl rfl

-- The calls that failed before an id was given are the gaps of the source.
theorem Fails.gaps_eq (h : s.Fails n s') {id : String} (hd : s'.draw e = (.ok id, s'', e')) :
    s.gaps = n := by
  have hgaps := h.gaps
  unfold draw at hd
  split at hd <;> cases hd <;> simpa [IdSource.gaps] using hgaps

end IdSource

/-! ## 2. The compiles before the first render -/

/-- How often a compiler with this template, whose source of ids is `ids` at first, makes its
    watchers before it renders. -/
def Template.attempts (t : Template) (ids : IdSource) : Nat :=
  if t.binding? = none then 1 else ids.gaps + 1

/-- The compiler, whose source of ids was `ids` at first, has made its watchers `n` times. -/
structure Compiler.Attempted (x : Compiler) (ids : IdSource) (n : Nat) : Prop where
  rendered : x.initialized = true → n = x.template.attempts ids
  -- Every attempt so far has failed, at the source.
  waiting : x.initialized = false → ids.Fails n x.ids ∧ (x.template.binding? = none → n = 0)

-- One more attempt, which has rendered or failed.
theorem Compiler.Attempted.attempt {x x' : Compiler} {ids : IdSource} {n : Nat}
    (h : x.Attempted ids n) (hinit : x.initialized = false) (ht : x'.template = x.template)
    {e : Entropy}
    (ho : (x'.initialized = true ∧ (x.template.binding? ≠ none → ∃ i e',
        x.ids.draw e = (.ok i, x'.ids, e'))) ∨
      x'.initialized = false ∧ x.template.binding? ≠ none ∧ ∃ error e',
        x.ids.draw e = (.error error, x'.ids, e')) : x'.Attempted ids (n + 1) := by
  obtain ⟨hfails, hnone⟩ := h.waiting hinit
  rcases ho with ⟨hinit', hdraw⟩ | ⟨hinit', hb, error, e', hdraw⟩
  · refine ⟨fun _ => ?_, fun hno => ?_⟩
    · rw [ht, Template.attempts]
      split
      · rename_i hb
        rw [hnone hb]
      · rename_i hb
        obtain ⟨i, e', hdraw⟩ := hdraw hb
        rw [hfails.gaps_eq hdraw]
    · rw [hinit'] at hno
      cases hno
  · refine ⟨fun hyes => ?_, fun _ => ⟨hfails.step hdraw, fun hno => ?_⟩⟩
    · rw [hinit'] at hyes
      cases hyes
    · rw [ht] at hno
      exact (hb hno).elim

namespace Page

variable {p q : Page κ} {c : CompilerId} {x : Compiler} {ids : IdSource}

/-- The page after a compile of `c` that has made the watchers `ws`. -/
structure Attempt (p : Page κ) (c : CompilerId) (x : Compiler) (ws : List WatcherId)
    (x' : Compiler) (p' : Page κ) : Prop where
  compiler : p'.compiler? c = some x'
  watchers : x'.watchers = x.watchers ++ ws
  watches : p'.store.Watches x.data (.render c) x.template.slots ws
  registered : p'.store.registered (.ofObject x.data) = p.store.registered (.ofObject x.data) ++ ws
  -- It has rendered now, unless the source failed.
  outcome : (x'.initialized = true ∧ (x.template.binding? ≠ none → ∃ i e,
      x.ids.draw p.entropy = (.ok i, x'.ids, e))) ∨
    x'.initialized = false ∧ x.template.binding? ≠ none ∧ ∃ error e,
      x.ids.draw p.entropy = (.error error, x'.ids, e)

/-- **An attempt** makes a watcher for each placeholder, whether an id can be drawn or not. -/
theorem attempt (hx : p.compiler? c = some x) (ht : x.template.isEmpty = false)
    (hinit : x.initialized = false) (hi : p.store.Idle) (hs : p.store.Sound)
    (ho : (p.store.object? x.data).isSome) :
    ∃ ws x', p.Attempt c x ws x' (p.compile c).2 := by
  have hfull : ¬ x.template.isEmpty = true := by
    rw [ht]
    exact Bool.false_ne_true
  have hfirst : ¬ x.initialized = true := by
    rw [hinit]
    exact Bool.false_ne_true
  obtain ⟨ws, p₁, hw, hslots, hmade⟩ :=
    watchSlots_of_active_eq_none (hi x.data.tree) c x.template.slots
  obtain ⟨hsince, hregistered⟩ := hmade hs ho
  have hwatches := hsince.watches (hslots.sound hs)
  have hy : p₁.compiler? c = some { x with watchers := x.watchers ++ ws } := by
    rw [hslots.compiler, if_pos rfl, hx]
    rfl
  rcases drawId_cases (x := x) hy rfl with ⟨error, ids, entropy, hb, hd, hdraw⟩ |
    ⟨id, ids, p₂, hdraw, hd⟩
  · have hrun : p.compile c =
        (.error error, { p₁ with entropy }.modifyCompiler c fun y => { y with ids }) := by
      simp only [compile, hx, if_neg hfull, if_neg hfirst, hw, hdraw]
    rw [hrun]
    refine ⟨ws, { x with ids, watchers := x.watchers ++ ws }, ?_, rfl, hwatches, hregistered,
      .inr ⟨hinit, hb, error, entropy, hslots.entropy ▸ hd⟩⟩
    rw [compiler?_modifyCompiler, if_pos rfl]
    exact congrArg (Option.map _) hy
  · obtain ⟨markup, result, p', hrender, -, hstore, -, -, hentropy, hcompiler, -⟩ :=
      renderWith_eq p₂ c x id
    have hrun : p.compile c = (result.mapError .document, p') := by
      simp only [compile, hx, if_neg hfull, if_neg hfirst, hw, hdraw, hrender]
    have hnew := (hcompiler c).trans ((if_pos rfl).trans (congrArg (Option.map _) hd.compiler))
    -- the reads of a render register nobody, as nobody collects
    have hidle : p₁.store.Idle := fun t => (hslots.active t).trans (hi t)
    have hsteady : p₁.store.Steady p'.store := by
      rw [hstore, hd.store]
      have hreads : p₁.store.Reaches Store.Change.Quiet
          (p₁.store.getTexts x.data x.template.slots).2 :=
        Store.getTexts_reaches (fun _ => trivial) _
      exact hreads.keeps p₁.store.Steady
        (fun hq hs => hs.trans (Store.Change.steady hq (hs.idle hidle))) (.refl _)
    have hdata : p₁.store.SameData p'.store := by
      rw [hstore, hd.store]
      exact Store.sameData_getTexts _ _ _
    rw [hrun]
    refine ⟨ws, _, hnew, rfl, hwatches.grows hdata.toGrows,
      (hsteady.registered _).trans hregistered, .inl ⟨rfl, fun hb => ?_⟩⟩
    obtain ⟨b, hb⟩ := Option.ne_none_iff_exists'.1 hb
    have hdrawn := hd.drawn
    rw [hb] at hdrawn
    obtain ⟨i, -, hdraw, -⟩ := hdrawn
    exact ⟨i, _, hslots.entropy ▸ hdraw⟩

/-! ## 3. The watchers of one compiler -/

/-- The compiler `c`, which is now `x`, has for each placeholder one watcher for every attempt, and
    no others render for it; its source of ids was `ids` at first. -/
structure Staffed (p : Page κ) (c : CompilerId) (ids : IdSource) (x : Compiler) : Prop where
  found : p.compiler? c = some x
  object : (p.store.object? x.data).isSome
  registered : p.store.registeredFor c x.data = x.watchers
  watchers : ∃ n, x.Attempted ids n ∧ p.store.Watches x.data (.render c)
    (List.replicate n x.template.slots).flatten x.watchers

-- What neither has to do with the compiler nor with its registrations.
theorem Staffed.later (h : p.Staffed c ids x) (hg : p.store.Grows q.store)
    (hr : q.store.registeredFor c x.data = p.store.registeredFor c x.data)
    (hx : q.compiler? c = some x) : q.Staffed c ids x := by
  obtain ⟨n, hn, hw⟩ := h.watchers
  exact ⟨hx, hg.object?_isSome h.object, hr.trans h.registered, n, hn, hw.grows hg⟩

theorem Staffed.compile (h : p.Staffed c ids x) (hr : p.store.AtRest) (hs : p.store.Sound) :
    ∃ x', (p.compile c).2.Staffed c ids x' ∧ x.Continues x' := by
  have hre := recompiled p c
  obtain ⟨x', hx', hcont⟩ := hre.continues h.found
  cases ht : x.template.isEmpty with
  | true =>
    rw [compile_of_isEmpty h.found ht]
    exact ⟨x, h, .refl x⟩
  | false =>
    refine ⟨x', ?_, hcont⟩
    obtain ⟨n, hn, hw⟩ := h.watchers
    have hobject : ((p.compile c).2.store.object? x'.data).isSome := by
      rw [hcont.data]
      exact hre.store.object?_isSome h.object
    have hkept := hw.grows hre.store.toGrows
    cases hinit : x.initialized with
    | true =>
      -- it has its watchers, and makes no more
      have hset : x.Settled := .inr hinit
      have hsteady := compile_steady hr.idle fun {y} hy => by
        rwa [Option.some.inj (hy.symm.trans h.found)]
      have hinit' : x'.initialized = true :=
        (hcont.settled hset).resolve_left (by rw [hcont.template, ht]; exact Bool.false_ne_true)
      refine ⟨hx', hobject, ?_, n, ⟨fun _ => ?_, fun hno => ?_⟩, ?_⟩
      · rw [hcont.data, hcont.watchers hset, hsteady.registeredFor]
        exact h.registered
      · rw [hcont.template]
        exact hn.rendered hinit
      · rw [hinit'] at hno
        cases hno
      · rw [hcont.data, hcont.template, hcont.watchers hset]
        exact hkept
    | false =>
      obtain ⟨ws, y, ha⟩ := attempt h.found ht hinit hr.idle hs h.object
      obtain rfl : y = x' := Option.some.inj (ha.compiler.symm.trans hx')
      refine ⟨hx', hobject, ?_, n + 1, hn.attempt hinit hcont.template ha.outcome, ?_⟩
      · -- the new watchers stand behind the old ones, and render for the compiler
        rw [hcont.data, ha.watchers, Store.registeredFor, ha.registered, List.filter_append,
          List.filter_congr fun w => hr.rendersFor hre.store.toGrows,
          List.filter_eq_self.2 ha.watches.rendersFor]
        exact congrArg (· ++ ws) h.registered
      · rw [hcont.data, hcont.template, ha.watchers, List.replicate_succ', List.flatten_append,
          List.flatten_singleton]
        exact List.rel_append hkept ha.watches

/-! ## 4. Pages that can be reached -/

/-- What holds of every page that nobody collects or registers watchers on by hand. -/
structure Attended (p : Page κ) : Prop extends p.Orderly where
  atRest : p.store.AtRest
  -- Watchers render for compilers that are there.
  known : ∀ {w y c}, p.store.watcher? w = some y → y.reaction = .render c → (p.compiler? c).isSome
  -- The watchers of a view are those of its compiler.
  views : ∀ {e engine}, p.engine? e = some engine → ∃ ids x, p.Staffed engine.compiler ids x

theorem attended_of_document (document : Document (Listener κ)) (entropy : Entropy) :
    Attended { document, entropy : Page κ } :=
  ⟨orderly_of_document document entropy, .empty, (fun h => nomatch h), fun h => nomatch h⟩

-- A compiler that has just been created has nothing registered.
theorem staffed_newCompiler (hknown : ∀ {w y c}, p.store.watcher? w = some y →
      y.reaction = .render c → (p.compiler? c).isSome) (template : Template) {data : ObjectId}
    (ho : (p.store.object? data).isSome) (root : ElementId) (t : TableId) (ids : IdSource) :
    (p.newCompiler template data root t ids).2.Staffed ⟨p.compilers.size⟩ ids
      { template, data, root, table := t, ids } := by
  refine ⟨?_, ho, List.filter_eq_nil_iff.2 fun w _ hw => ?_, 0,
    ⟨(fun h => nomatch h), fun _ => ⟨.refl, fun _ => rfl⟩⟩, .nil⟩
  · show (p.compilers.push _).get? p.compilers.size = _
    rw [Arena.get?_push, if_pos rfl]
  · obtain ⟨y, hy, hr⟩ := Store.rendersFor_iff.1 hw
    have hthere := hknown hy hr
    rw [compiler?_size] at hthere
    cases hthere

theorem Attended.staffed_move (h : p.Attended) (hx : p.Staffed c ids x)
    (hmove : p.Move Request.Orderly q) : ∃ x', q.Staffed c ids x' ∧ x.Continues x' := by
  rcases hmove.tamed h.atRest with ⟨d, rfl⟩ | ⟨hcalm, htamed⟩
  · by_cases hdc : c = d
    · subst hdc
      exact hx.compile h.atRest h.sound
    · have hre := recompiled p d
      exact ⟨x, hx.later hre.store.toGrows ((tamed_compile h.atRest d).registeredFor hdc _)
        ((hre.others c hdc).trans hx.found), .refl x⟩
  · have hthere : ¬ (p.compiler? c = none ∧ (q.compiler? c).isSome) := by
      rw [hx.found]
      exact fun hno => nomatch hno.1
    exact ⟨x, hx.later hcalm.store.toGrows (htamed.registeredFor hthere _)
      (hcalm.compiler hx.found), .refl x⟩

-- The compiler of a view that is being mounted begins like every other.
theorem Attended.staffed_staged (h : p.Attended) (vm : ViewModel κ) (config : Config)
    (root : ElementId) :
    ∃ x, ((p.staged vm config root).compile ⟨p.compilers.size⟩).2.Staffed ⟨p.compilers.size⟩
      config.ids.source x := by
  have hwrapped : p.store.Tamed (fun _ => False) (p.store.wrap vm.data).2 :=
    Store.Reaches.tamed (Store.reaches_apply (.observe vm.data none) trivial) h.atRest
  have hstaged : (p.staged vm config root).Staffed ⟨p.compilers.size⟩ config.ids.source
      (p.stagedCompiler vm config root) := by
    refine staffed_newCompiler (p := ({ p with store := (p.store.wrap vm.data).2 } :
      Page κ).newTable.2) (fun {w y c} hy hr => ?_) _ ?_ _ _ _
    · exact h.known ((hwrapped.only hy).resolve_right fun hno => hno c hr) hr
    · exact Option.isSome_of_eq_some (object?_staged p vm config root)
  obtain ⟨x, hx, -⟩ := hstaged.compile hwrapped.atRest (h.sound.wrap vm.data)
  exact ⟨x, hx⟩

-- The compiler of a view, old or new, has its watchers.
theorem Attended.views_move (h : p.Attended) (hmove : p.Move Request.Orderly q) {e : EngineId}
    {engine : Engine κ} (he : q.engine? e = some engine) :
    ∃ ids x, q.Staffed engine.compiler ids x := by
  have hold : p.engine? e = some engine → ∃ ids x, q.Staffed engine.compiler ids x := by
    intro he
    obtain ⟨ids, x, hx⟩ := h.views he
    obtain ⟨x', hx', -⟩ := h.staffed_move hx hmove
    exact ⟨ids, x', hx'⟩
  rcases hmove.engines_or_mount with hengines | ⟨vm, config, -, rfl⟩
  · rw [engine?, hengines] at he
    exact hold he
  · rcases (mounting p vm config).engine? he with he | ⟨-, root, -, types, -, -, -, -, rfl, -⟩
    · exact hold he
    · rcases mount_parts p vm config with hp | ⟨root, hstore, hcompilers⟩
      · rw [hp] at he
        exact hold he
      · obtain ⟨x, hx⟩ := h.staffed_staged vm config root
        refine ⟨_, x, hx.later ?_ ?_ ?_⟩
        · rw [hstore]
          exact .refl _
        · rw [hstore]
        · rw [compiler?, hcompilers]
          exact hx.found

theorem Move.attended (hmove : p.Move Request.Orderly q) (h : p.Attended) : q.Attended := by
  have hthere : ∀ {c}, (p.compiler? c).isSome → (q.compiler? c).isSome := by
    intro c hc
    obtain ⟨x, hx⟩ := Option.isSome_iff_exists.1 hc
    obtain ⟨x', hx', -⟩ := hmove.grows.compiler hx
    exact Option.isSome_of_eq_some hx'
  refine ⟨h.toOrderly.move hmove, ?_, fun {w y c} hy hr => ?_, h.views_move hmove⟩
  · rcases hmove.tamed h.atRest with ⟨d, rfl⟩ | ⟨-, htamed⟩
    · exact (tamed_compile h.atRest d).atRest
    · exact htamed.atRest
  · rcases hmove.tamed h.atRest with ⟨d, rfl⟩ | ⟨-, htamed⟩
    · cases hd : p.compiler? d with
      | none =>
        rw [compile_of_none hd] at hy ⊢
        exact h.known hy hr
      | some x =>
        rcases (tamed_compile h.atRest d).only hy with hy | hmine
        · exact hthere (h.known hy hr)
        · rw [hmine c hr]
          exact hthere (Option.isSome_of_eq_some hd)
    · rcases htamed.only hy with hy | hmine
      · exact hthere (h.known hy hr)
      · exact (hmine c hr).2

theorem Attended.write (h : p.Attended) (o : ObjectId) (key : String) (v : Value) :
    Attended { p with store := p.store.write o key v } := by
  have hsteady := Store.steady_write p.store o key v
  refine ⟨h.toOrderly.write o key v, h.atRest.steady hsteady, fun {w y c} hy hr => ?_, fun he => ?_⟩
  · exact h.known ((hsteady.watcher w).symm.trans hy) hr
  · obtain ⟨ids, x, hx⟩ := h.views he
    exact ⟨ids, x, hx.later (Store.grows_write _ o key v) (hsteady.registeredFor _ _) hx.found⟩

theorem Leads.attended (h : Leads Request.Orderly (fun _ => False) p q) (hp : p.Attended) :
    q.Attended :=
  h.all Attended (fun hq hmove => hmove.attended hq) (fun o key v hq => hq.write o key v) hp

theorem Leads.staffed (h : Leads Request.Orderly (fun _ => False) p q) (hp : p.Attended)
    (hx : p.Staffed c ids x) : ∃ x', q.Staffed c ids x' ∧ x.Continues x' := by
  refine (h.all (fun q => q.Attended ∧ ∃ x', q.Staffed c ids x' ∧ x.Continues x')
    (fun {q q'} ⟨hq, y, hy, hcont⟩ hmove => ?_) (fun {q} o key v ⟨hq, y, hy, hcont⟩ => ?_)
    ⟨hp, x, hx, .refl x⟩).2
  · obtain ⟨y', hy', hcont'⟩ := hq.staffed_move hy hmove
    exact ⟨hmove.attended hq, y', hy', hcont.trans hcont'⟩
  · have hsteady := Store.steady_write q.store o key v
    exact ⟨hq.write o key v, y, hy.later (Store.grows_write _ o key v)
      (hsteady.registeredFor _ _) hy.found, hcont⟩

end Page

/-! ## 5. Compilers and views -/

/-- **One watcher for each placeholder and attempt.**  On a page on which nobody collects or registers
    watchers by hand, whatever else happens to it, the registrations that a compiler has with its data
    are its watchers.  Once it has rendered, it has for each placeholder as many of them as it took
    attempts to draw an id; and so one, unless the source of its ids began with a gap.  The compiler of
    a view that is mounted has one for each placeholder in any case. -/
theorem watchers_per_attempt {document : Document (Listener κ)} {entropy : Entropy}
    {start : Page κ}
    (hstart : Page.Leads Request.Orderly (fun _ => False) { document, entropy } start) :
    (∀ {source : String} {data : ObjectId} {root : ElementId} {t : TableId} {ids : IdSource}
      {p : Page κ}, (start.store.object? data).isSome →
      Page.Leads Request.Orderly (fun _ => False)
        (start.newCompiler (Template.parse source) data root t ids).2 p →
      ∃ x, p.compiler? ⟨start.compilers.size⟩ = some x ∧ x.template = Template.parse source ∧
        x.data = data ∧ p.store.registeredFor ⟨start.compilers.size⟩ data = x.watchers ∧
        (x.initialized = true →
          p.store.Watches data (.render ⟨start.compilers.size⟩)
            (List.replicate (x.template.attempts ids) x.template.slots).flatten x.watchers ∧
          x.watchers.length = x.template.attempts ids * x.template.slots.length ∧
          (x.watchers.length = x.template.slots.length ↔
            x.template.slots = [] ∨ x.template.binding? = none ∨ ids.gaps = 0))) ∧
    ∀ {e : EngineId} {engine : Engine κ}, start.engine? e = some engine →
      ∃ x, start.compiler? engine.compiler = some x ∧ x.data = engine.data ∧
        start.store.registeredFor engine.compiler x.data = x.watchers ∧
        start.store.Watches x.data (.render engine.compiler) x.template.slots x.watchers ∧
        x.watchers.length = x.template.slots.length := by
  have hattended := hstart.attended (Page.attended_of_document document entropy)
  refine ⟨fun {source data root t ids p} hdata hleads => ?_, fun {e engine} he => ?_⟩
  · have hcreated : start.Move Request.Orderly
        (start.newCompiler (Template.parse source) data root t ids).2 :=
      .newCompiler source data root ids (some t) t trivial
    obtain ⟨x, hx, hcont⟩ := hleads.staffed (hcreated.attended hattended)
      (Page.staffed_newCompiler hattended.known (Template.parse source) hdata root t ids)
    have hregistered := hx.registered
    obtain ⟨n, hn, hwatches⟩ := hx.watchers
    rw [hcont.data] at hregistered hwatches
    refine ⟨x, hx.found, hcont.template, hcont.data, hregistered, fun hinit => ?_⟩
    have hcount := hn.rendered hinit
    rw [hcount] at hwatches
    have hlength : x.watchers.length = x.template.attempts ids * x.template.slots.length := by
      rw [← hwatches.length_eq, List.length_flatten, List.map_replicate, List.sum_replicate_nat]
    refine ⟨hwatches, hlength, ?_⟩
    rw [hlength, ← List.length_eq_zero_iff, Template.attempts]
    by_cases hb : x.template.binding? = none
    · simp [hb]
    · rw [if_neg hb, Nat.succ_mul, or_iff_right hb, Nat.add_eq_right, Nat.mul_eq_zero, or_comm]
  · obtain ⟨ids, x, hx⟩ := hattended.views he
    obtain ⟨y, hy⟩ := hattended.mounted he
    obtain rfl : y = x := Option.some.inj (hy.found.symm.trans hx.found)
    exact ⟨y, hx.found, hy.data, hx.registered, hy.watches, hy.watches.length_eq.symm⟩

/-- A page with a text to show, and a table for its button. -/
def gapPage : Page Unit :=
  { document := .ofIds ["root"], store := (Store.wrap {} [("a", .text "x")]).2
    tables := ⟨#[.empty]⟩ }

/-- The page with the compiler of the button, whose ids are these. -/
def gapCompiler (ids : List (Option String)) : Page Unit :=
  (gapPage.newCompiler (Template.parse "<b @click=\"go\">\x7b\x7ba\x7d\x7d</b>") ⟨⟨0⟩, 0⟩ ⟨1⟩ ⟨0⟩
    (.listed ids)).2

/-- The page after a first compile that drew no id, and a second one. -/
def gapRetried : Page Unit :=
  (((gapCompiler [none, some "k"]).compile ⟨0⟩).2.compile ⟨0⟩).2

theorem watchers_per_attempt_gap :
    ∃ x, gapRetried.compiler? ⟨0⟩ = some x ∧ x.initialized = true ∧ x.watchers.length = 2 ∧
      gapRetried.store.registeredFor ⟨0⟩ ⟨⟨0⟩, 0⟩ = x.watchers := by
  have hstart : Page.Leads Request.Orderly (fun _ => False)
      ({ document := .ofIds ["root"] } : Page Unit) gapPage :=
    .move (.move .refl (.wrap [("a", .text "x")] trivial))
      (.newTable ⟨"", ⟨⟨0⟩, 0⟩, ⟨1⟩, .random, trivial⟩)
  have hleads : Page.Leads Request.Orderly (fun _ => False) (gapCompiler [none, some "k"])
      gapRetried := .move (.move .refl (.compile ⟨0⟩ (.inl trivial))) (.compile ⟨0⟩ (.inl trivial))
  obtain ⟨x, hx, -, -, hregistered, hrendered⟩ :=
    (watchers_per_attempt hstart).1 (by decide +kernel) hleads
  have hfacts : ∀ x ∈ gapRetried.compiler? ⟨0⟩, x.initialized = true ∧
      x.template.attempts (.listed [none, some "k"]) * x.template.slots.length = 2 := by
    decide +kernel
  obtain ⟨hinit, htwo⟩ := hfacts x hx
  exact ⟨x, hx, hinit, (hrendered hinit).2.1.trans htwo, hregistered⟩

-- The compile that is repeated makes the watcher of the placeholder again.
theorem watched_twice_gap :
    ((gapCompiler [none, some "k"]).compile ⟨0⟩).1 = .error (.invalidConfig "no id") ∧
    (((gapCompiler [none, some "k"]).compile ⟨0⟩).2.compile ⟨0⟩).1 = .ok () ∧
    ((gapCompiler [some "k"]).compile ⟨0⟩).1 = .ok () ∧
    (∃ x, gapRetried.compiler? ⟨0⟩ = some x ∧ x.initialized = true ∧ x.template.slots = ["a"] ∧
      x.watchers = [⟨⟨0⟩, 0⟩, ⟨⟨0⟩, 1⟩] ∧
      gapRetried.store.registered (.ofObject ⟨⟨0⟩, 0⟩) = [⟨⟨0⟩, 0⟩, ⟨⟨0⟩, 1⟩]) ∧
    ∃ x, ((gapCompiler [some "k"]).compile ⟨0⟩).2.compiler? ⟨0⟩ = some x ∧
      x.initialized = true ∧ x.watchers = [⟨⟨0⟩, 0⟩] := by
  have htwice : ((gapRetried.compiler? ⟨0⟩).map fun x =>
      (x.initialized, x.template.slots, x.watchers)) =
        some (true, ["a"], [⟨⟨0⟩, 0⟩, ⟨⟨0⟩, 1⟩]) := by decide +kernel
  have honce : ((((gapCompiler [some "k"]).compile ⟨0⟩).2.compiler? ⟨0⟩).map fun x =>
      (x.initialized, x.watchers)) = some (true, [⟨⟨0⟩, 0⟩]) := by decide +kernel
  obtain ⟨x, hx, hfacts⟩ := Option.map_eq_some_iff.1 htwice
  obtain ⟨y, hy, hyfacts⟩ := Option.map_eq_some_iff.1 honce
  simp only [Prod.mk.injEq] at hfacts hyfacts
  exact ⟨by decide +kernel, by decide +kernel, by decide +kernel,
    ⟨x, hx, hfacts.1, hfacts.2.1, hfacts.2.2, by decide +kernel⟩, y, hy, hyfacts⟩

end ReactiveView
