import ReactiveView.Proofs.Client.Effects
import ReactiveView.Proofs.Page.Delegation
import ReactiveView.Proofs.Page.Lifetimes
import ReactiveView.Proofs.Page.Registrations

/-!
# Pages at rest

What a render changes is its compiler, the markup of its element and its table.  Each of them rests
while nobody changes it by hand and no compiler is alive that does so when it renders.  Nothing keeps
a compiler alive but a handle of its own or a view of it; so the watchers of a view that has been
dropped, which stay registered for good, do no more than read.
-/

namespace ReactiveView

/-- What the renders of a compiler change. -/
inductive Outlet where
  | compiler (c : CompilerId)
  | element (root : ElementId)
  | table (t : TableId)
  deriving DecidableEq

/-- The renders of the compiler `x`, which is called `c`, change the outlet. -/
def Outlet.FedBy (c : CompilerId) (x : Compiler) : Outlet → Prop
  | .compiler d => c = d
  | .element root => x.root = root
  | .table t => x.table = t

instance (c : CompilerId) (x : Compiler) : (outlet : Outlet) → Decidable (outlet.FedBy c x)
  | .compiler d => inferInstanceAs (Decidable (c = d))
  | .element root => inferInstanceAs (Decidable (x.root = root))
  | .table t => inferInstanceAs (Decidable (x.table = t))

theorem Compiler.Continues.fedBy {x x' : Compiler} (h : x.Continues x') (c : CompilerId)
    (outlet : Outlet) : outlet.FedBy c x' = outlet.FedBy c x := by
  cases outlet <;> simp only [Outlet.FedBy, h.root, h.table]

namespace Page

variable {κ : Type} {p p' q : Page κ} {held : List Node} {outlet : Outlet}

/-! ## 1. What drives an outlet -/

/-- The node is, or belongs to, a compiler whose renders change the outlet. -/
def Drives (p : Page κ) (outlet : Outlet) : Node → Prop
  | .compiler c => ∃ x ∈ p.compiler? c, outlet.FedBy c x
  | .engine e => ∃ engine ∈ p.engine? e, ∃ x ∈ p.compiler? engine.compiler,
      outlet.FedBy engine.compiler x
  | _ => False

instance (p : Page κ) (outlet : Outlet) : (n : Node) → Decidable (p.Drives outlet n)
  | .compiler c => inferInstanceAs (Decidable (∃ x ∈ p.compiler? c, outlet.FedBy c x))
  | .engine e => inferInstanceAs (Decidable (∃ engine ∈ p.engine? e,
      ∃ x ∈ p.compiler? engine.compiler, outlet.FedBy engine.compiler x))
  | .object _ | .registry _ | .watcher _ => .isFalse id

/-- Nothing that is held drives the outlet. -/
def Dropped (p : Page κ) (outlet : Outlet) (held : List Node) : Prop :=
  ∀ n ∈ held, ¬ p.Drives outlet n

instance (p : Page κ) (outlet : Outlet) (held : List Node) : Decidable (p.Dropped outlet held) :=
  inferInstanceAs (Decidable (∀ n ∈ held, ¬ p.Drives outlet n))

theorem not_drives_of_pinned {n : Node} (h : n.Pinned) : ¬ p.Drives outlet n := by
  cases n <;> first | exact id | exact h.elim

-- Nothing is driven but by compilers and views.
theorem drives_congr (hc : q.compilers = p.compilers) (he : q.engines = p.engines) :
    q.Drives outlet = p.Drives outlet := by
  funext n
  cases n <;> simp only [Drives, compiler?, engine?, hc, he]

theorem drives_of_store (p : Page κ) (s : Store (Reaction κ)) :
    Page.Drives { p with store := s } outlet = p.Drives outlet :=
  drives_congr rfl rfl

-- A compile changes neither where its compiler renders nor the table that it fills.
theorem drives_compile (p : Page κ) (c : CompilerId) :
    (p.compile c).2.Drives outlet = p.Drives outlet := by
  have hre := recompiled p c
  have hcompiler : ∀ d, (∃ x ∈ (p.compile c).2.compiler? d, outlet.FedBy d x) ↔
      ∃ x ∈ p.compiler? d, outlet.FedBy d x := by
    intro d
    constructor
    · rintro ⟨y, hy, hfed⟩
      obtain ⟨x, hx, hcont⟩ := compiler?_compile hy
      rw [hcont.fedBy] at hfed
      exact ⟨x, hx, hfed⟩
    · rintro ⟨x, hx, hfed⟩
      obtain ⟨y, hy, hcont⟩ := hre.grows.compiler hx
      rw [← hcont.fedBy] at hfed
      exact ⟨y, hy, hfed⟩
  funext n
  cases n with
  | compiler d => exact propext (hcompiler d)
  | engine e =>
    simp only [Drives, engine?, hre.engines]
    exact propext (exists_congr fun engine => and_congr_right fun _ => hcompiler engine.compiler)
  | _ => rfl

/-! ## 2. Compilers that are not alive -/

-- Only views refer to compilers.
theorem mem_references_compiler {n : Node} {c : CompilerId} (h : .compiler c ∈ p.references n) :
    ∃ e engine, n = .engine e ∧ p.engine? e = some engine ∧ engine.compiler = c := by
  cases mem_references_iff.1 h with
  | compiler he => exact ⟨_, _, rfl, he, rfl⟩

-- Nothing refers to views.
theorem not_mem_references_engine (n : Node) (e : EngineId) : .engine e ∉ p.references n := by
  intro h
  cases mem_references_iff.1 h

-- The page itself holds watchers and observables.
theorem pinned_of_mem_anchors {n : Node} (h : n ∈ p.anchors) : n.Pinned := by
  rcases mem_anchors_iff.1 h with ⟨t, w, -, rfl⟩ | ⟨e, el, ⟨type, l⟩, -, -, hn⟩
  · trivial
  · cases l with
    | client code => cases hn
    | delegate t methods receiver =>
      rw [List.mem_singleton.1 hn]
      trivial

/-- **A compiler that is alive is held**, or a view of it is. -/
theorem held_of_alive {c : CompilerId} (h : p.alive held (.compiler c) = true) :
    .compiler c ∈ held ∨
      ∃ e engine, .engine e ∈ held ∧ p.engine? e = some engine ∧ engine.compiler = c := by
  have hheld : ∀ {n}, n ∈ held ++ p.anchors → ¬ n.Pinned → n ∈ held := fun hn hpin =>
    (List.mem_append.1 hn).resolve_right fun ha => hpin (pinned_of_mem_anchors ha)
  -- a view that a compiler is alive for must be held itself
  have hview : ∀ {S : Node → Prop}, p.Supports (held ++ p.anchors) S → ∀ {l}, S l →
      .compiler c ∈ p.references l →
        ∃ e engine, .engine e ∈ held ∧ p.engine? e = some engine ∧ engine.compiler = c := by
    intro S hS l hl hc
    obtain ⟨e, engine, rfl, he, hcompiler⟩ := mem_references_compiler hc
    rcases (hS _ hl).2 with hroot | ⟨l', -, href⟩
    · exact ⟨e, engine, hheld hroot id, he, hcompiler⟩
    · exact (not_mem_references_engine l' e href).elim
  rcases alive_iff.1 h with hroot | ⟨l, hl, hc⟩ | hliving
  · exact .inl (hheld hroot id)
  · obtain ⟨e, engine, rfl, he, hcompiler⟩ := mem_references_compiler hc
    exact .inr ⟨e, engine, hheld hl id, he, hcompiler⟩
  · obtain ⟨S, hS, hc⟩ := mem_living_iff.1 hliving
    rcases (hS _ hc).2 with hroot | ⟨l, hl, href⟩
    · exact .inl (hheld hroot id)
    · exact .inr (hview hS hl href)

theorem Dropped.not_alive (h : p.Dropped outlet held) {c : CompilerId}
    (hc : p.Drives outlet (.compiler c)) : p.alive held (.compiler c) = false := by
  refine Bool.eq_false_iff.2 fun halive => ?_
  rcases held_of_alive halive with hheld | ⟨e, engine, hheld, he, rfl⟩
  · exact h _ hheld hc
  · obtain ⟨x, hx, hfed⟩ := hc
    exact h _ hheld ⟨engine, he, x, hx, hfed⟩

/-! ## 3. Rest -/

/-- The outlet is on the page `p'` what it was on `p`: its compiler has not compiled, nobody has
    written the markup, or no row has come to the table. -/
def SameAt (p p' : Page κ) : Outlet → Prop
  | .compiler c => ∀ {x}, p.compiler? c = some x → p'.compiler? c = some x
  | .element root => ∀ {el}, p.document.element? root = some el →
      ∃ el', p'.document.element? root = some el' ∧ el'.markup = el.markup ∧ el'.writes = el.writes
  | .table t => p.HasTable t → p'.HasTable t ∧ p'.table t = p.table t

/-- The outlet has been at rest from `p` to `p'`. -/
structure Rests (outlet : Outlet) (p p' : Page κ) : Prop where
  same : p.SameAt p' outlet
  engine : ∀ {e engine}, p.engine? e = some engine → p'.engine? e = some engine

theorem SameAt.trans (h : p.SameAt p' outlet) (h' : p'.SameAt q outlet) : p.SameAt q outlet := by
  cases outlet with
  | compiler c => exact fun hx => h' (h hx)
  | element root =>
    intro el hel
    obtain ⟨el', hel', hmarkup, hwrites⟩ := h hel
    obtain ⟨el'', hel'', hmarkup', hwrites'⟩ := h' hel'
    exact ⟨el'', hel'', hmarkup'.trans hmarkup, hwrites'.trans hwrites⟩
  | table t => exact fun ht => ⟨(h' (h ht).1).1, (h' (h ht).1).2.trans (h ht).2⟩

theorem Rests.trans (h : p.Rests outlet p') (h' : p'.Rests outlet q) : p.Rests outlet q :=
  ⟨h.same.trans h'.same, fun he => h'.engine (h.engine he)⟩

theorem Still.rests (h : p.Still p') (outlet : Outlet) : p.Rests outlet p' := by
  refine ⟨?_, h.calm.engine⟩
  cases outlet with
  | compiler c => exact h.calm.compiler
  | element root => exact h.element
  | table t => exact fun ht => ⟨h.hasTable ht, h.table t⟩

-- Where no compiler, no element and no table has changed, everything rests.
theorem rests_of_eq (hc : ∀ {c x}, p.compiler? c = some x → p'.compiler? c = some x)
    (hd : p'.document.element? = p.document.element?) (ht : p'.tables = p.tables)
    (he : p'.engines = p.engines) : p.Rests outlet p' := by
  refine ⟨?_, fun h => ?_⟩
  · cases outlet with
    | compiler c => exact hc
    | element root =>
      intro el hel
      rw [hd]
      exact ⟨el, hel, rfl, rfl⟩
    | table t =>
      intro h
      rw [HasTable, Page.table, ht]
      exact ⟨h, rfl⟩
  · rw [engine?, he]
    exact h

theorem Rests.refl (outlet : Outlet) (p : Page κ) : p.Rests outlet p :=
  rests_of_eq id rfl rfl rfl

-- A change of the store alone.
theorem rests_of_store (p : Page κ) (s : Store (Reaction κ)) (outlet : Outlet) :
    p.Rests outlet { p with store := s } :=
  rests_of_eq id rfl rfl rfl

theorem rests_newCompiler (p : Page κ) (template : Template) (data : ObjectId)
    (into : ElementId) (table : TableId) (ids : IdSource) (outlet : Outlet) :
    p.Rests outlet (p.newCompiler template data into table ids).2 :=
  rests_of_eq (calm_newCompiler p template data into table ids).compiler rfl rfl rfl

theorem rests_engine (p : Page κ) (engine : Engine κ) (outlet : Outlet) :
    p.Rests outlet { p with engines := p.engines.push engine } :=
  ⟨(rests_of_store p p.store outlet).same, (calm_engine p engine).engine⟩

theorem rests_setMarkup {e : ElementId} (he : outlet ≠ .element e) (markup : String) :
    p.Rests outlet { p with document := (p.document.setMarkup e markup).2 } := by
  refine ⟨?_, id⟩
  cases outlet with
  | compiler c => exact id
  | element root =>
    have hne : root ≠ e := fun h => he (congrArg _ h)
    intro el hel
    exact ⟨el, (Document.element?_setMarkup_of_ne hne markup).trans hel, rfl, rfl⟩
  | table t => exact fun ht => ⟨ht, rfl⟩

-- A compile that has another outlet.
theorem rests_compile {c : CompilerId} (h : ¬ p.Drives outlet (.compiler c)) :
    p.Rests outlet (p.compile c).2 := by
  have hre := recompiled p c
  have hfed : ∀ {x}, p.compiler? c = some x → ¬ outlet.FedBy c x := fun hx hf => h ⟨_, hx, hf⟩
  refine ⟨?_, fun he => ?_⟩
  · cases outlet with
    | compiler d =>
      intro x hx
      by_cases hdc : d = c
      · subst hdc
        exact (hfed hx rfl).elim
      · rw [hre.others d hdc]
        exact hx
    | element root =>
      intro el hel
      rcases document_compile p c with hdoc | ⟨x, markup, hx, hdoc⟩
      · rw [hdoc]
        exact ⟨_, hel, rfl, rfl⟩
      · rw [hdoc, Document.element?_setMarkup_of_ne fun e => hfed hx e.symm]
        exact ⟨_, hel, rfl, rfl⟩
    | table t =>
      refine fun ht => ⟨hre.hasTable ht, ?_⟩
      rcases tables_compile p c with htables | ⟨x, b, id, hx, -, htables⟩
      · rw [Page.table, Page.table, htables]
      · rw [table_of_modify htables, if_neg fun e => hfed hx e.1]
  · rw [engine?, hre.engines]
    exact he

-- A mount makes a compiler and a table of its own.
theorem rests_mount (vm : ViewModel κ) {config : Config}
    (h : ∀ root, p.document.byId? config.rootId = some root → outlet ≠ .element root) :
    p.Rests outlet (p.mount vm config).2 := by
  rcases mount_cases p vm config with hp | ⟨into, q, q', hinto, hq, hstill, hp⟩
  · rw [hp]
    exact .refl outlet p
  have hstaged : p.Rests outlet (p.staged vm config into) :=
    ((((still_wrap p vm.data).trans (still_newTable _)).rests outlet)).trans
      (rests_newCompiler _ _ _ _ _ _ outlet)
  have hcompiled : p.SameAt q outlet := by
    by_cases hfed : outlet.FedBy ⟨p.compilers.size⟩ (p.stagedCompiler vm config into)
    · -- what the new compiler feeds was not on the page, but for its element
      cases outlet with
      | compiler d =>
        obtain rfl : _ = d := hfed
        intro x hx
        rw [compiler?_size] at hx
        cases hx
      | element root => exact (h into hinto (congrArg _ hfed.symm)).elim
      | table t =>
        intro ht
        have hlt : t.index < p.tables.size := (Arena.get?_isSome_iff _ _).1 ht
        rw [← show _ = t from hfed] at hlt
        exact (Nat.lt_irrefl _ hlt).elim
    · rw [← hq]
      refine (hstaged.trans (rests_compile ?_)).same
      rintro ⟨x, hx, hf⟩
      obtain rfl : x = p.stagedCompiler vm config into :=
        Option.some.inj (hx.symm.trans (compiler?_staged p vm config into))
      exact hfed hf
  refine ⟨?_, (calm_mount p vm config).engine⟩
  have hbound := hcompiled.trans (hstill.rests outlet).same
  rcases hp with hp | ⟨-, types, hp⟩
  · rw [hp]
    exact hbound
  · rw [hp]
    exact hbound.trans (rests_engine q' _ outlet).same

end Page

variable {κ σ : Type}

/-- The request neither writes the markup of the outlet by hand nor compiles for it. -/
def Request.Spares (outlet : Outlet) (p : Page κ) : Request κ → Prop
  | .perform (.setMarkup e _) => outlet ≠ .element e
  | .perform (.compile c) => ¬ p.Drives outlet (.compiler c)
  | .perform (.mount _ config) =>
    ∀ root, p.document.byId? config.rootId = some root → outlet ≠ .element root
  | _ => True

instance (outlet : Outlet) (p : Page κ) (request : Request κ) :
    Decidable (request.Spares outlet p) := by
  unfold Request.Spares
  split <;> infer_instance

/-- **What spares an outlet leaves it at rest**, as far as it goes by itself. -/
theorem Page.rests_effect {p : Page κ} {outlet : Outlet} {request : Request κ}
    (h : request.Spares outlet p) : p.Rests outlet (request.effect p) := by
  cases request with
  | collect u w => exact rests_of_store p _ outlet
  | finish => exact .refl outlet p
  | perform op =>
    cases op with
    | observe v tree =>
      cases v with
      | object fields => cases tree <;> exact rests_of_store p _ outlet
      | _ => exact .refl outlet p
    | createElement id =>
      have hstill : p.Still { p with document := (p.document.create id).2 } :=
        .of_document (fun h => ⟨_, Document.element?_create h id, rfl, rfl⟩)
          (Document.refusedWrites_create _ _)
      exact hstill.rests outlet
    | setMarkup e markup => exact rests_setMarkup h markup
    | listen e type code => exact (still_listen p e type (.client code)).rests outlet
    | refuse writes listens => exact rests_of_eq id rfl rfl rfl
    | newCompiler template data into ids table =>
      cases table with
      | none => exact ((still_newTable p).rests outlet).trans (rests_newCompiler _ _ _ _ _ _ outlet)
      | some u => exact rests_newCompiler p _ _ _ _ _ outlet
    | compile c => exact rests_compile h
    | bind into u methods receiver => exact (still_bind p into u methods receiver).rests outlet
    | mount vm config => exact rests_mount vm h
    | get o key => exact rests_of_store p _ outlet
    | set o key v => exact rests_of_store p _ outlet
    | watch o key code => exact rests_of_store p _ outlet
    | newRegistry => exact rests_of_store p _ outlet
    | register r w => exact rests_of_store p _ outlet
    | _ => exact .refl outlet p

/-! ## 4. Watchers of dropped views -/

section Worlds

variable {holds : σ → List Node} {serve : Cue κ → Run κ σ Unit} {outlet : Outlet} {w w' : World κ σ}

/-- The client holds nothing that drives the outlet, and operations under way keep only
    observables and watchers alive. -/
structure World.Dropped (holds : σ → List Node) (outlet : Outlet)
    (w : World κ σ) : Prop where
  client : w.page.Dropped outlet (holds w.client)
  pins : ∀ n ∈ w.pins, n.Pinned

theorem World.Dropped.not_alive (h : w.Dropped holds outlet) {c : CompilerId}
    (hc : w.page.Drives outlet (.compiler c)) : w.alive holds (.compiler c) = false := by
  refine Page.Dropped.not_alive (fun n hn => ?_) hc
  rcases List.mem_append.1 hn with hn | hn
  · exact h.client n hn
  · exact Page.not_drives_of_pinned (h.pins n hn)

theorem World.Dropped.pin (h : w.Dropped holds outlet) (ns : List Node)
    (hns : ∀ n ∈ ns, n.Pinned) : World.Dropped holds outlet { w with pins := ns ++ w.pins } :=
  ⟨h.client, fun n hn => (List.mem_append.1 hn).elim (hns n) (h.pins n)⟩

-- A change of the store alone.
theorem World.Dropped.of_store (h : w.Dropped holds outlet) (s : Store (Reaction κ)) :
    World.Dropped holds outlet { w with page := { w.page with store := s } } := by
  refine ⟨fun n hn => ?_, h.pins⟩
  rw [Page.drives_of_store]
  exact h.client n hn

theorem World.Dropped.compile (h : w.Dropped holds outlet) (c : CompilerId) :
    World.Dropped holds outlet { w with page := (w.page.compile c).2 } := by
  refine ⟨fun n hn => ?_, h.pins⟩
  rw [Page.drives_compile]
  exact h.client n hn

variable {u : WatcherId} {d : CompilerId}

variable (serve)

-- The reaction of a watcher whose compiler has been dropped.
theorem Watcher.react_of_dropped (h : w.Dropped holds (.compiler d))
    (hd : (w.page.compiler? d).isSome) {y : Watcher (Reaction κ)} (hy : y.reaction = .render d)
    (field : Field) : y.react holds serve field w = some (.ok (), w) := by
  obtain ⟨x, hx⟩ := Option.isSome_iff_exists.1 hd
  have hpinned := h.pin (.object y.source :: field.proxy?.toList.map .object)
    (by simp [Node.Pinned])
  have hdead := hpinned.not_alive (c := d) ⟨x, hx, rfl⟩
  rw [react, hy, Run.pinning, Run.mapFailure]
  show ((((Run.isAlive holds (.compiler d) >>= _) _).map _).map _) = _
  rw [Run.bind_of_ok (Run.isAlive_apply holds _ _)]
  change World.alive holds _ _ = false at hdead
  rw [World.alive] at hdead
  rw [hdead]
  rfl

/-- **The watchers of a dropped view do no more than read.** -/
theorem WatcherId.update_of_dropped (h : w.Dropped holds (.compiler d))
    (hd : (w.page.compiler? d).isSome) (hu : w.page.store.rendersFor d u = true) :
    ∃ s, w.page.store.SameData s ∧ (∀ v, s.watcher? v = w.page.store.watcher? v) ∧
      u.update holds serve w = some (.ok (), { w with page := { w.page with store := s } }) := by
  obtain ⟨y, hu, hy⟩ := Store.rendersFor_iff.1 hu
  rw [update_of_some holds serve hu]
  by_cases ha : w.alive holds (.object y.source) = true
  · rw [if_pos ha]
    refine ⟨(w.page.store.get y.source y.property).2, Store.sameData_get _ _ _,
      Store.watcher?_get _ _ _, ?_⟩
    show _ = some (Except.ok (), w.read y.source y.property)
    split
    · rfl
    · have hread : World.Dropped holds (.compiler d) (w.read y.source y.property) := h.of_store _
      exact Watcher.react_of_dropped serve hread hd hy _
  · rw [if_neg ha]
    exact ⟨w.page.store, .refl _, fun _ => rfl, rfl⟩

-- A notification that reaches nobody else.
theorem updateAll_of_dropped {us : List WatcherId} (h : w.Dropped holds (.compiler d))
    (hd : (w.page.compiler? d).isSome) (hus : ∀ u ∈ us, w.page.store.rendersFor d u = true) :
    ∃ s, w.page.store.SameData s ∧
      updateAll holds serve us w = some (.ok (), { w with page := { w.page with store := s } }) := by
  induction us generalizing w with
  | nil => exact ⟨w.page.store, .refl _, rfl⟩
  | cons u us ih =>
    obtain ⟨s, hs, hwatcher, hrun⟩ :=
      WatcherId.update_of_dropped serve h hd (hus u List.mem_cons_self)
    obtain ⟨s', hs', hrest⟩ := ih (h.of_store s) hd fun v hv => by
      rw [Store.rendersFor, hwatcher v]
      exact hus v (List.mem_cons_of_mem _ hv)
    exact ⟨s', hs.trans hs', (Run.bind_of_ok hrun).trans hrest⟩

-- The world in which a write notifies.
theorem World.Dropped.write (h : w.Dropped holds outlet) (o : ObjectId) (key : String) (v : Value) :
    World.Dropped holds outlet { w with
      page := { w.page with store := w.page.store.write o key v }
      pins := (w.page.store.registered (.ofObject o)).map .watcher ++ .object o :: w.pins } := by
  have hwritten := (h.of_store (w.page.store.write o key v)).pin
    ((w.page.store.registered (.ofObject o)).map .watcher ++ [.object o])
    (by simp [Node.Pinned, or_imp, forall_and])
  rwa [List.append_assoc] at hwritten

theorem ObjectId.set_of_dropped (h : w.Dropped holds (.compiler d))
    (hd : (w.page.compiler? d).isSome) {o : ObjectId}
    (hus : ∀ u ∈ w.page.store.registered (.ofObject o), w.page.store.rendersFor d u = true) (key : String)
    (v : Value) :
    ∃ s, (w.page.store.write o key v).SameData s ∧
      o.set holds serve key v w = some (.ok (), { w with page := { w.page with store := s } }) := by
  obtain ⟨s, hs, hrun⟩ := updateAll_of_dropped serve (h.write o key v) hd fun u hu => by
    rw [Store.rendersFor, Store.watcher?_write]
    exact hus u hu
  refine ⟨s, hs, ?_⟩
  rw [ObjectId.set_apply]
  exact congrArg (Option.map _) hrun

variable {serve}

/-- The error is that of one of the watchers, which does not render for the compiler. -/
def Page.FailsElsewhere (p : Page κ) (d : CompilerId) (us : List WatcherId) (error : Failure) :
    Prop :=
  ∃ u ∈ us, p.store.rendersFor d u = false ∧ ∃ number property cause,
    error = .reactive (.callback number property cause) ∧
    ∀ y ∈ p.store.watcher? u, number = y.number ∧ property = y.property

-- An update fails only by the reaction of its watcher.
theorem WatcherId.error_of_update {error : Failure}
    (h : u.update holds serve w = some (.error error, w')) :
    ∃ y cause, w.page.store.watcher? u = some y ∧
      error = .reactive (.callback y.number y.property cause) := by
  cases hu : w.page.store.watcher? u with
  | none =>
    rw [update_of_none holds serve hu] at h
    cases h
  | some y =>
    rw [update_of_some holds serve hu] at h
    split at h
    · split at h
      · cases h
      · obtain ⟨w₁, h₁, -⟩ := Run.pinning_eq_some h
        obtain ⟨r, -, hr⟩ := Run.mapFailure_eq_some h₁
        cases r with
        | ok a => cases hr
        | error cause =>
          cases hr
          exact ⟨y, cause, rfl, rfl⟩
    · cases h

/-- The compiler has been dropped since the page was `p`. -/
def World.DroppedSince (holds : σ → List Node) (d : CompilerId) (p : Page κ) (w : World κ σ) :
    Prop :=
  w.Dropped holds (.compiler d) ∧ p.Grows w.page

theorem World.DroppedSince.compiler {p : Page κ} (hw : w.DroppedSince holds d p)
    (hd : (p.compiler? d).isSome) : (w.page.compiler? d).isSome := by
  obtain ⟨x, hx⟩ := Option.isSome_iff_exists.1 hd
  obtain ⟨x', hx', -⟩ := hw.2.compiler hx
  exact Option.isSome_of_eq_some hx'

theorem World.DroppedSince.rendersFor {p : Page κ} (hw : w.DroppedSince holds d p)
    (hu : p.store.rendersFor d u = true) : w.page.store.rendersFor d u = true := by
  obtain ⟨y, hy, hr⟩ := Store.rendersFor_iff.1 hu
  exact Store.rendersFor_iff.2 ⟨y, hw.2.store.watcher hy, hr⟩

theorem World.droppedSince_kept (holds : σ → List Node) (d : CompilerId) (p : Page κ) :
    KeptByUpdates holds (World.DroppedSince holds d p) := by
  refine ⟨⟨fun ns hns hw => ⟨hw.1.pin ns hns, hw.2⟩, fun hw hw' => ⟨⟨hw'.1.client, hw.1.pins⟩, hw'.2⟩⟩,
    fun {w} o key hw => ⟨hw.1.of_store _, ?_⟩, fun {w x y c} hw _ _ _ => ⟨hw.1.compile c, ?_⟩⟩
  · have hcalm : w.page.Calm (w.read o key).page :=
      ⟨Store.sameData_get _ _ _, fun h => h.get _ _, id, id, id, id⟩
    exact hw.2.trans hcalm.grows
  · exact hw.2.trans (Page.recompiled w.page c).grows

/-- **A notification does not fail because of a dropped view**: as long as the calls do not take it up
    again, the watcher that fails is somebody else's. -/
theorem updateAll_error {p : Page κ} (hd : (p.compiler? d).isSome)
    (hserve : ∀ cue, (serve cue).Keeps (World.DroppedSince holds d p)) {us : List WatcherId}
    (hw : w.DroppedSince holds d p) {error : Failure}
    (h : updateAll holds serve us w = some (.error error, w')) : p.FailsElsewhere d us error := by
  induction us generalizing w with
  | nil => cases h
  | cons u us ih =>
    rcases Run.bind_eq_some h with ⟨e, h₁, he⟩ | ⟨a, w₁, h₁, h₂⟩
    · cases he
      obtain ⟨y, cause, hy, hcause⟩ := WatcherId.error_of_update h₁
      refine ⟨u, List.mem_cons_self, Bool.eq_false_iff.2 fun hu => ?_, _, _, cause, hcause,
        fun z hz => ?_⟩
      · obtain ⟨s, -, -, hrun⟩ := WatcherId.update_of_dropped serve hw.1 (hw.compiler hd)
          (hw.rendersFor hu)
        rw [h₁] at hrun
        cases hrun
      · obtain rfl : y = z := Option.some.inj (hy.symm.trans (hw.2.store.watcher hz))
        exact ⟨rfl, rfl⟩
    · obtain ⟨v, hv, hrest⟩ := ih (u.update_keeps (World.droppedSince_kept holds d p) hserve
        w hw _ _ h₁) h₂
      exact ⟨v, List.mem_cons_of_mem _ hv, hrest⟩

theorem ObjectId.set_error (h : w.Dropped holds (.compiler d))
    (hd : (w.page.compiler? d).isSome)
    (hserve : ∀ cue, (serve cue).Keeps (World.DroppedSince holds d w.page)) {o : ObjectId}
    {key : String} {v : Value} {error : Failure}
    (hset : o.set holds serve key v w = some (.error error, w')) :
    w.page.FailsElsewhere d (w.page.store.registered (.ofObject o)) error := by
  rw [ObjectId.set_apply] at hset
  obtain ⟨⟨r, w₁⟩, hrun, hr⟩ := Option.map_eq_some_iff.1 hset
  cases hr
  exact updateAll_error hd hserve ⟨h.write o key v, Page.grows_write w.page o key v⟩ hrun

end Worlds

end ReactiveView
