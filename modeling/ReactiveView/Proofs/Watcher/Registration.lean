import ReactiveView.Proofs.Client.Effects
import ReactiveView.Proofs.Client.Forgetting
import ReactiveView.Proofs.Store.Enrolment

/-!
# Registrations

Clients that neither collect nor register by hand find in the registry of an observable just the
watchers that were created on it, in the order of their creation.  Their callbacks may read, write,
compile, create watchers and fail.
-/

namespace ReactiveView

variable {κ σ : Type}

/-! ## 1. Requests -/

namespace Request

/-- The request neither collects nor registers a watcher by hand. -/
def Orderly : Request κ → Prop
  | .collect _ _ => False
  | .perform (.register _ _) => False
  | _ => True

/-- The request creates a watcher, or a compiler that will. -/
def Creates : Request κ → Prop
  | .perform (.watch _ _ _) => True
  | .perform (.newCompiler _ _ _ _ _) => True
  | .perform (.mount _ _) => True
  | _ => False

/-- The observable that is to be watched. -/
def watched? : Request κ → Option ObjectId
  | .perform (.watch o _ _) => some o
  | .perform (.newCompiler _ data _ _ _) => some data
  | _ => none

end Request

/-- What the request is to watch is there, as is every observable whose identity a client was
    given. -/
def Moment.Grounded (m : Moment κ σ) : Prop :=
  ∀ o ∈ m.request.watched?, (m.page.store.object? o).isSome = true

/-- All compilers have made their watchers. -/
def Page.AllSettled (p : Page κ) : Prop := ∀ {c x}, p.compiler? c = some x → x.Settled

-- What an orderly request does, unless it has to do with a compiler or a new watcher.
theorem Request.effect_cases {request : Request κ} (h : request.Orderly) {p : Page κ}
    (hi : p.store.Idle) :
    (p.store.Steady (request.effect p).store ∧ p.store.Grows (request.effect p).store ∧
      (request.effect p).compilers = p.compilers) ∨
    (∃ o key code, request = .perform (.watch o key code)) ∨
    (∃ c, request = .perform (.compile c)) ∨
    (∃ template data root ids table,
      request = .perform (.newCompiler template data root ids table)) ∨
    ∃ vm config, request = .perform (.mount vm config) := by
  have hquiet : ∀ change : Store.Change (Reaction κ), change.Quiet →
      p.store.Steady (change.apply p.store) ∧ p.store.Grows (change.apply p.store) :=
    fun change hq => ⟨change.steady hq hi, (change.sameData _).toGrows⟩
  have hsame : p.store.Steady p.store ∧ p.store.Grows p.store := ⟨.refl _, .refl _⟩
  cases request with
  | collect t w => exact h.elim
  | finish => exact .inl ⟨hsame.1, hsame.2, rfl⟩
  | perform op =>
    cases op with
    | observe v tree =>
      cases v with
      | object fields =>
        cases tree with
        | none =>
          obtain ⟨hs, hg⟩ := hquiet (.observe fields none) trivial
          exact .inl ⟨hs, hg, rfl⟩
        | some t =>
          obtain ⟨hs, hg⟩ := hquiet (.observe fields (some t)) trivial
          exact .inl ⟨hs, hg, rfl⟩
      | _ => exact .inl ⟨hsame.1, hsame.2, rfl⟩
    | get o key =>
      obtain ⟨hs, hg⟩ := hquiet (.read o key) trivial
      exact .inl ⟨hs, hg, rfl⟩
    | set o key v =>
      exact .inl ⟨Store.steady_write _ o key v, Store.grows_write _ o key v, rfl⟩
    | watch o key code => exact .inr (.inl ⟨o, key, code, rfl⟩)
    | newRegistry =>
      obtain ⟨hs, hg⟩ := hquiet .newRegistry trivial
      exact .inl ⟨hs, hg, rfl⟩
    | register r w => exact h.elim
    | compile c => exact .inr (.inr (.inl ⟨c, rfl⟩))
    | newCompiler template data root ids table =>
      exact .inr (.inr (.inr (.inl ⟨template, data, root, ids, table, rfl⟩)))
    | mount vm config => exact .inr (.inr (.inr (.inr ⟨vm, config, rfl⟩)))
    | bind root t methods receiver =>
      have hstore := p.store_bindTypes root t methods receiver (p.table t).eventTypes
      rw [← Page.bind_snd] at hstore
      refine .inl ⟨?_, ?_, (Page.still_bind p root t methods receiver).compilers⟩
      · rw [effect, Operation.effect, hstore]
        exact hsame.1
      · rw [effect, Operation.effect, hstore]
        exact hsame.2
    | _ => exact .inl ⟨hsame.1, hsame.2, rfl⟩

/-! ## 2. Pages -/

namespace Page

variable {p q : Page κ}

-- A compiler that has made its watchers makes no more.
theorem compile_steady (hi : p.store.Idle) {c : CompilerId}
    (hc : ∀ {x}, p.compiler? c = some x → x.Settled) :
    p.store.Steady (p.compile c).2.store := by
  cases hx : p.compiler? c with
  | none =>
    rw [compile_of_none hx]
    exact .refl _
  | some x =>
    rcases hc hx with he | hinit
    · rw [compile_of_isEmpty hx he]
      exact .refl _
    · refine (compile_reaches hx).keeps p.store.Steady (fun {s change} hm hs => ?_) (.refl _)
      have hq : change.Quiet := by
        cases change with
        | read o key => trivial
        | watch o key reaction =>
          obtain ⟨hfirst, -, -⟩ := hm
          rw [hinit] at hfirst
          cases hfirst
        | _ => exact hm.elim
      exact hs.trans (Store.Change.steady hq (hs.idle hi))

/-- The registries of the page are lists of watchers, and every compiler has its data. -/
structure Rostered (p : Page κ) : Prop where
  enrolled : p.store.Enrolled
  data : ∀ {c x}, p.compiler? c = some x → (p.store.object? x.data).isSome

theorem Rostered.congr (h : p.Rostered) (hs : q.store = p.store)
    (hc : q.compilers = p.compilers) : q.Rostered := by
  refine ⟨hs ▸ h.enrolled, fun {c x} hx => ?_⟩
  rw [compiler?, hc] at hx
  rw [hs]
  exact h.data hx

theorem Rostered.of_store (h : p.Rostered) {s : Store (Reaction κ)} (he : s.Enrolled)
    (hg : p.store.Grows s) (hs : q.store = s) (hc : q.compilers = p.compilers) : q.Rostered := by
  refine ⟨hs ▸ he, fun {c x} hx => ?_⟩
  rw [compiler?, hc] at hx
  rw [hs]
  exact hg.object?_isSome (h.data hx)

theorem Rostered.newCompiler (h : p.Rostered) (template : Template) {data : ObjectId}
    (hd : (p.store.object? data).isSome) (root : ElementId) (t : TableId) (ids : IdSource) :
    (p.newCompiler template data root t ids).2.Rostered := by
  refine ⟨h.enrolled, fun {c x} hx => ?_⟩
  change (p.compilers.push _).get? c.index = some x at hx
  rw [Arena.get?_push] at hx
  split at hx
  · cases hx
    exact hd
  · exact h.data hx

-- A compile creates watchers of the data of its compiler.
theorem Rostered.compile (h : p.Rostered) (c : CompilerId) : (p.compile c).2.Rostered := by
  obtain ⟨he, hsame⟩ := (compile_changes p c).keeps
    (fun s => s.Enrolled ∧ p.store.SameData s) (fun {s change} hm hs => by
      refine ⟨?_, hs.2.trans (change.sameData s)⟩
      obtain ⟨x, hx, hm⟩ := hm
      cases change with
      | read o key => exact hs.1.quiet trivial
      | watch o key reaction =>
        obtain ⟨-, rfl, -⟩ := hm
        obtain ⟨w, s', hrun, he, -⟩ := hs.1.watch (hs.2.object?_isSome (h.data hx)) key reaction
        rw [Store.Change.apply, hrun]
        exact he
      | _ => exact hm.elim) ⟨h.enrolled, .refl _⟩
  refine ⟨he, fun {d y} hy => ?_⟩
  obtain ⟨x, hx, hcont⟩ := compiler?_compile hy
  rw [hcont.data]
  exact hsame.object?_isSome (h.data hx)

theorem Rostered.mount (h : p.Rostered) (vm : ViewModel κ) (config : Config) :
    (p.mount vm config).2.Rostered := by
  rcases mount_parts p vm config with hp | ⟨root, hs, hc⟩
  · rw [hp]
    exact h
  · have hobserve : Store.Change.Quiet (.observe vm.data none : Store.Change (Reaction κ)) :=
      trivial
    have hwrapped : Page.Rostered { p with store := (p.store.wrap vm.data).2 } :=
      h.of_store (h.enrolled.quiet hobserve) (Store.sameData_wrap p.store vm.data).toGrows rfl rfl
    have htable : Page.Rostered { p with store := (p.store.wrap vm.data).2 }.newTable.2 :=
      hwrapped.congr rfl rfl
    have hdata : ((p.store.wrap vm.data).2.object? (p.store.wrap vm.data).1).isSome := by
      rw [Store.object?_wrap, if_pos rfl]
      rfl
    have hstaged : (p.staged vm config root).Rostered := htable.newCompiler _ hdata _ _ _
    exact (hstaged.compile _).congr hs hc

theorem rostered_effect (h : p.Rostered) {m : Moment κ σ} (hp : m.page = p)
    (ho : m.request.Orderly) (hg : m.Grounded) : (m.request.effect p).Rostered := by
  subst hp
  rcases Request.effect_cases ho h.enrolled.idle with ⟨hs, hgrows, hc⟩ | ⟨o, key, code, hr⟩ |
    ⟨c, hr⟩ | ⟨template, data, root, ids, table, hr⟩ | ⟨vm, config, hr⟩
  · exact h.of_store (h.enrolled.steady hs hgrows) hgrows rfl hc
  · have hpresent : (m.page.store.object? o).isSome := hg o (by rw [hr]; rfl)
    obtain ⟨w, s', hrun, he, -⟩ := h.enrolled.watch hpresent key (.client code)
    rw [hr]
    refine h.of_store he ?_ (congrArg Prod.snd hrun) rfl
    have hdata := Store.sameData_watch m.page.store o key (.client code)
    rw [hrun] at hdata
    exact hdata.toGrows
  · rw [hr]
    exact h.compile c
  · have hpresent : (m.page.store.object? data).isSome := hg data (by rw [hr]; rfl)
    rw [hr]
    cases table with
    | none =>
      have htable : Page.Rostered m.page.newTable.2 := h.congr rfl rfl
      exact htable.newCompiler _ hpresent _ _ _
    | some t => exact h.newCompiler _ hpresent _ _ _
  · rw [hr]
    exact h.mount vm config

/-- No registry has changed, and no compiler is left that would change one. -/
structure Kept (p q : Page κ) : Prop where
  steady : p.store.Steady q.store
  settled : q.AllSettled

theorem Kept.trans {r : Page κ} (h : p.Kept q) (h' : q.Kept r) : p.Kept r :=
  ⟨h.steady.trans h'.steady, h'.settled⟩

theorem kept_compile (hi : p.store.Idle) (h : p.AllSettled) (c : CompilerId) :
    p.Kept (p.compile c).2 := by
  refine ⟨compile_steady hi h, fun {d y} hy => ?_⟩
  obtain ⟨x, hx, hcont⟩ := compiler?_compile hy
  exact hcont.settled (h hx)

theorem kept_effect (hi : p.store.Idle) (h : p.AllSettled) {request : Request κ}
    (ho : request.Orderly) (hc : ¬ request.Creates) : p.Kept (request.effect p) := by
  rcases Request.effect_cases ho hi with ⟨hs, -, hcompilers⟩ | ⟨o, key, code, rfl⟩ |
    ⟨c, rfl⟩ | ⟨template, data, root, ids, table, rfl⟩ | ⟨vm, config, rfl⟩
  · refine ⟨hs, fun {c x} hx => ?_⟩
    rw [compiler?, hcompilers] at hx
    exact h hx
  · exact (hc trivial).elim
  · exact kept_compile hi h c
  · exact (hc trivial).elim
  · exact (hc trivial).elim

end Page

/-! ## 3. Every history -/

/-- What the registries have to do with the history. -/
structure Registered (p : Page κ) (h : History κ σ) : Prop where
  rostered : p.Rostered
  kept : ∀ {g₀ m₀ g₁}, h = g₀ ++ m₀ :: g₁ → m₀.page.AllSettled →
    (∀ m' ∈ m₀ :: g₁, ¬ m'.request.Creates) → m₀.page.Kept p

theorem Registered.later {p q : Page κ} {h : History κ σ} (hp : Registered p h)
    (hq : q.Rostered) (hkept : p.AllSettled → p.Kept q) : Registered q h :=
  ⟨hq, fun hh hs hc => (hp.kept hh hs hc).trans (hkept (hp.kept hh hs hc).settled)⟩

theorem Registered.step {m : Moment κ σ} {h : History κ σ} (hp : Registered m.page h)
    (ho : m.request.Orderly) (hg : m.Grounded) :
    Registered (m.request.effect m.page) (h ++ [m]) := by
  have hi := hp.rostered.enrolled.idle
  refine ⟨Page.rostered_effect hp.rostered rfl ho hg, fun {g₀ m₀ g₁} hh hs hc => ?_⟩
  rcases History.concat_cases hh with ⟨rfl, rfl⟩ | ⟨g, rfl, hpre⟩
  · exact Page.kept_effect hi hs ho (hc _ List.mem_cons_self)
  · rw [← List.cons_append] at hc
    have hkept := hp.kept hpre hs fun m' hm' => hc m' (List.mem_append_left _ hm')
    exact hkept.trans (Page.kept_effect hi hkept.settled ho
      (hc m (List.mem_append_right _ (List.mem_singleton.2 rfl))))

/-- **Registries are exact** at every moment of every history without collections and registrations
    by hand: the registry of an observable lists its watchers, in the order of their creation.  A new
    watcher is added to the one registry of its source.  Reads, writes and compiles of compilers that
    have made their watchers change no registry; and neither does anything else that happens, to any
    depth of callbacks, while nobody creates a watcher. -/
theorem Client.registries_exact {c : Client κ σ} (hc : c.Within Request.Orderly)
    {p : Program κ σ} (hp : p.Within Request.Orderly) {document : Document (Listener κ)}
    {entropy : Entropy} {s : σ} {g : History κ σ} {m : Moment κ σ}
    (hl : c.Lives { document, entropy } s p (g ++ [m])) (hg : ∀ m' ∈ g, m'.Grounded) :
    let store := m.page.store
    (∀ o, store.registered (.ofObject o) = store.watchersOf o ∧
      (store.registered (.ofObject o)).Nodup) ∧
    (∀ {o w}, w ∈ store.registered (.ofObject o) ↔
      ∃ x, store.watcher? w = some x ∧ x.source = o) ∧
    (∀ {o}, (store.object? o).isSome → ∀ key code, ∃ w store',
      store.watch o key (.client code) = (.ok w, store') ∧ store.watcher? w = none ∧
      (store'.watcher? w).map Watcher.source = some o ∧
      ∀ r, store'.registered r =
        if r = .ofObject o then store.registered r ++ [w] else store.registered r) ∧
    (∀ o key r, (store.get o key).2.registered r = store.registered r) ∧
    (∀ o key v r, (store.write o key v).registered r = store.registered r) ∧
    (∀ {c x}, m.page.compiler? c = some x → x.Settled →
      ∀ r, (m.page.compile c).2.store.registered r = store.registered r) ∧
    ∀ {g₀ m₀ g₁}, g = g₀ ++ m₀ :: g₁ → m₀.page.AllSettled →
      (∀ m' ∈ m₀ :: g₁, ¬ m'.request.Creates) →
      ∀ r, store.registered r = m₀.page.store.registered r := by
  intro store
  have hall : Registered m.page g := by
    refine hl.follows (fun p h => (∀ m' ∈ h, m'.Grounded) → Registered p h) hc hp trivial
      (fun {p h s request} ho hh hg => ?_) (fun {p h} o key hh hg => ?_)
      (fun {p h x y c} hh hx hy hg => ?_) (fun hcollect => hcollect.elim)
      (fun _ => ⟨⟨.empty, fun hx => nomatch hx⟩, fun hh => by simp at hh⟩) hg
    · have hpast := hh fun m' hm' => hg m' (List.mem_append_left _ hm')
      exact Registered.step (m := ⟨p, s, request⟩) hpast ho
        (hg _ (List.mem_append_right _ (List.mem_singleton.2 rfl)))
    · have hr := (hh hg).rostered
      have hs := Store.steady_get hr.enrolled.idle o key
      have hgrows := (Store.sameData_get p.store o key).toGrows
      exact (hh hg).later (hr.of_store (hr.enrolled.steady hs hgrows) hgrows rfl rfl)
        fun hset => ⟨hs, hset⟩
    · have hr := (hh hg).rostered
      exact (hh hg).later (hr.compile c) fun hset => Page.kept_compile hr.enrolled.idle hset c
  have he := hall.rostered.enrolled
  refine ⟨fun o => ⟨he.listed o, by rw [he.listed]; exact store.nodup_watchersOf o⟩,
    fun {o w} => ?_, fun ho key code => ?_,
    fun o key => (Store.steady_get he.idle o key).registered,
    fun o key v => (Store.steady_write store o key v).registered, fun {c x} hx hset => ?_,
    fun hh hset hcreates => (hall.kept hh hset hcreates).steady.registered⟩
  · rw [he.listed, Store.mem_watchersOf]
    refine ⟨And.right, fun ⟨x, hx, hsource⟩ => ⟨?_, x, hx, hsource⟩⟩
    rw [(he.source hx).2, hsource]
  · obtain ⟨w, store', hrun, -, hrest⟩ := he.watch ho key (.client code)
    exact ⟨w, store', hrun, hrest⟩
  · refine (Page.compile_steady he.idle fun {y} hy => ?_).registered
    rw [hx] at hy
    cases hy
    exact hset

/-- A client whose callbacks watch another field of the observable. -/
def watchfulClient : Client Unit Unit where
  respond _ := .perform (.watch ⟨⟨0⟩, 0⟩ "b" ()) fun _ => .done
  holds _ := []

/-- Watches a field and changes it. -/
def watchfulProgram : Program Unit Unit :=
  .perform (.observe (.object [("a", .bool false)]) none) fun _ =>
    .perform (.watch ⟨⟨0⟩, 0⟩ "a" ()) fun _ =>
      .perform (.set ⟨⟨0⟩, 0⟩ "a" (.bool true)) fun _ => .done

def watchfulHistory : History Unit Unit :=
  watchfulClient.history 2 { document := {} } () watchfulProgram

theorem registries_exact_watchful :
    ∃ m, watchfulHistory[5]? = some m ∧
      m.page.store.registered (.ofObject ⟨⟨0⟩, 0⟩) = [⟨⟨0⟩, 0⟩, ⟨⟨0⟩, 1⟩] ∧
      m.page.store.watchersOf ⟨⟨0⟩, 0⟩ = [⟨⟨0⟩, 0⟩, ⟨⟨0⟩, 1⟩] := by
  have hrun : (watchfulClient.run 2 watchfulProgram
      ⟨{ document := {} }, (), []⟩).isSome = true := by decide +kernel
  have hsome : (watchfulHistory[5]?).isSome = true := by decide +kernel
  have hgrounded : ∀ m ∈ watchfulHistory.take 5, ∀ o ∈ m.request.watched?,
      (m.page.store.object? o).isSome = true := by decide +kernel
  have hlisted : ∀ m ∈ watchfulHistory[5]?,
      m.page.store.registered (.ofObject ⟨⟨0⟩, 0⟩) = [⟨⟨0⟩, 0⟩, ⟨⟨0⟩, 1⟩] := by decide +kernel
  obtain ⟨m, hm⟩ := Option.isSome_iff_exists.1 hsome
  have hclient : watchfulClient.Within Request.Orderly := fun _ => ⟨trivial, fun _ => trivial⟩
  have hprogram : watchfulProgram.Within Request.Orderly :=
    ⟨trivial, fun _ => ⟨trivial, fun _ => ⟨trivial, fun _ => trivial⟩⟩⟩
  obtain ⟨hexact, -⟩ :=
    Client.registries_exact hclient hprogram (Client.lives_take hrun hm) hgrounded
  exact ⟨m, hm, hlisted m hm, (hexact _).1.symm.trans (hlisted m hm)⟩

end ReactiveView
