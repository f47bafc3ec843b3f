import ReactiveView.Proofs.BindingIds
import ReactiveView.Proofs.Page.Frame

/-!
# Growing pages

Nothing is ever removed from a page.  A compiler goes on from the state it was in, and all moves but
compiles leave the compilers that are there as they are; a view that is being mounted compiles, but
with a compiler of its own.
-/

namespace ReactiveView

/-! ## 1. Compilers that go on -/

namespace Compiler

/-- The compiler makes no more watchers. -/
def Settled (x : Compiler) : Prop := x.template.isEmpty = true ∨ x.initialized = true

/-- There is an id if the template asks for one. -/
def Bound (x : Compiler) : Prop := x.lastId.isSome = x.template.binding?.isSome

/-- What stays true of a compiler whatever it does. -/
structure Continues (x x' : Compiler) : Prop where
  template : x'.template = x.template
  data : x'.data = x.data
  root : x'.root = x.root
  table : x'.table = x.table
  settled : x.Settled → x'.Settled
  watchers : x.Settled → x'.watchers = x.watchers
  endless : x.ids.Endless → x'.ids.Endless
  given : ∀ {id}, x.ids.Given id → x'.ids.Given id
  bound : x.Bound → x'.Bound

theorem Continues.refl (x : Compiler) : x.Continues x :=
  ⟨rfl, rfl, rfl, rfl, id, fun _ => rfl, id, id, id⟩

theorem Continues.trans {x x' x'' : Compiler} (h : x.Continues x') (h' : x'.Continues x'') :
    x.Continues x'' :=
  ⟨h'.template.trans h.template, h'.data.trans h.data, h'.root.trans h.root,
    h'.table.trans h.table, h'.settled ∘ h.settled,
    fun hs => (h'.watchers (h.settled hs)).trans (h.watchers hs), h'.endless ∘ h.endless,
    fun hi => h'.given (h.given hi), h'.bound ∘ h.bound⟩

end Compiler

namespace Page

variable {κ : Type}

theorem Stopped.continues {p p' : Page κ} {c : CompilerId} {x x' : Compiler}
    (h : p.Stopped c x x' p') (ht : x.template.isEmpty = false) : x.Continues x' := by
  have hframe := h.frame
  have hsettled : x.Settled → x.initialized = true := by
    intro hs
    rcases hs with he | hi
    · rw [ht] at he
      cases he
    · exact hi
  refine ⟨by rw [hframe], by rw [hframe], by rw [hframe], by rw [hframe], fun hs => .inr ?_,
    fun hs => h.watchers (hsettled hs), fun hs => ?_, fun hi => ?_, fun hb => ?_⟩
  · rw [hframe]
    exact hsettled hs
  · -- an endless source draws, so that only another collection can have been in the way
    rcases h.cause with ⟨-, -, hids, -⟩ | ⟨-, error, hd⟩
    · rwa [hids]
    · obtain ⟨id, ids, e', hok, -⟩ := hs.draw p.entropy
      rw [hok] at hd
      cases hd
  · rcases h.cause with ⟨-, -, hids, -⟩ | ⟨-, error, hd⟩
    · rwa [hids]
    · exact hi.draw hd
  · rw [hframe]
    exact hb

-- After a render the id of a compiler is the one drawn for it, and there is one exactly if the
-- template asks for one.
theorem Rendered.lastId {p p' : Page κ} {c : CompilerId} {x x' : Compiler} {id : Option String}
    {markup : String} {result : Except DocumentError Unit}
    (h : p.Rendered c x id markup result x' p')
    (hid : x.template.binding? = none → x.lastId = none) : x'.lastId = id ∧ x'.Bound := by
  have hdrawn := h.drawn
  rw [Compiler.Bound, h.frame]
  split at hdrawn
  · rename_i hnone
    rw [hdrawn.1, hnone]
    exact ⟨hid hnone, congrArg Option.isSome (hid hnone)⟩
  · rename_i b hsome
    obtain ⟨i, hi, -⟩ := hdrawn
    rw [hi, hsome]
    exact ⟨rfl, rfl⟩

theorem Rendered.continues {p p' : Page κ} {c : CompilerId} {x x' : Compiler} {id : Option String}
    {markup : String} {result : Except DocumentError Unit}
    (h : p.Rendered c x id markup result x' p') (ht : x.template.isEmpty = false) :
    x.Continues x' := by
  have hframe := h.frame
  have hdrawn := h.drawn
  refine ⟨by rw [hframe], by rw [hframe], by rw [hframe], by rw [hframe], fun _ => .inr ?_,
    fun hs => ?_, fun hs => ?_, fun hi => ?_, fun hb => ?_⟩
  · rw [hframe]
  · rcases hs with he | hi
    · rw [ht] at he
      cases he
    · exact h.watchers hi
  · split at hdrawn
    · rw [hdrawn.2.1]
      exact hs
    · obtain ⟨i, -, hd, -⟩ := hdrawn
      obtain ⟨id, ids, e', hok, hends⟩ := hs.draw p.entropy
      rw [hok] at hd
      cases hd
      exact hends
  · split at hdrawn
    · rw [hdrawn.2.1]
      exact hi
    · obtain ⟨i, -, hd, -⟩ := hdrawn
      exact hi.draw hd
  · refine (h.lastId fun hnone => ?_).2
    rw [Compiler.Bound, hnone] at hb
    exact Option.not_isSome_iff_eq_none.1 (by rw [hb]; exact Bool.false_ne_true)

-- A render may add a row to a table, but takes none away.
theorem Rendered.hasTable {p p' : Page κ} {c : CompilerId} {x x' : Compiler} {id : Option String}
    {markup : String} {result : Except DocumentError Unit}
    (h : p.Rendered c x id markup result x' p') {t : TableId} (ht : p.HasTable t) :
    p'.HasTable t := by
  have hdrawn := h.drawn
  split at hdrawn
  · rw [HasTable, hdrawn.2.2.2]
    exact ht
  · obtain ⟨i, -, -, htables⟩ := hdrawn
    rw [HasTable, htables, Arena.get?_isSome_iff, Arena.size_modify, ← Arena.get?_isSome_iff]
    exact ht

/-! ## 2. Pages that go on -/

/-- Whatever is on the page `p` is still on `p'`, and its data is as it was. -/
structure Calm (p p' : Page κ) : Prop where
  store : p.store.SameData p'.store
  sound : p.store.Sound → p'.store.Sound
  compiler : ∀ {c x}, p.compiler? c = some x → p'.compiler? c = some x
  engine : ∀ {e x}, p.engine? e = some x → p'.engine? e = some x
  element : ∀ {e}, (p.document.element? e).isSome → (p'.document.element? e).isSome
  hasTable : ∀ {t}, p.HasTable t → p'.HasTable t

/-- Whatever is on the page `p` has gone on to what is on `p'`. -/
structure Grows (p p' : Page κ) : Prop where
  store : p.store.Grows p'.store
  sound : p.store.Sound → p'.store.Sound
  compiler : ∀ {c x}, p.compiler? c = some x → ∃ x', p'.compiler? c = some x' ∧ x.Continues x'
  engine : ∀ {e x}, p.engine? e = some x → p'.engine? e = some x
  element : ∀ {e}, (p.document.element? e).isSome → (p'.document.element? e).isSome
  hasTable : ∀ {t}, p.HasTable t → p'.HasTable t

theorem Calm.refl (p : Page κ) : p.Calm p := ⟨.refl _, id, id, id, id, id⟩

theorem Calm.trans {p p' p'' : Page κ} (h : p.Calm p') (h' : p'.Calm p'') : p.Calm p'' :=
  ⟨h.store.trans h'.store, h'.sound ∘ h.sound, fun hx => h'.compiler (h.compiler hx),
    fun hx => h'.engine (h.engine hx), fun he => h'.element (h.element he),
    h'.hasTable ∘ h.hasTable⟩

theorem Grows.trans {p p' p'' : Page κ} (h : p.Grows p') (h' : p'.Grows p'') : p.Grows p'' := by
  refine ⟨h.store.trans h'.store, h'.sound ∘ h.sound, fun hx => ?_, fun hx => h'.engine (h.engine hx),
    fun he => h'.element (h.element he), h'.hasTable ∘ h.hasTable⟩
  obtain ⟨x', hx', hcont⟩ := h.compiler hx
  obtain ⟨x'', hx'', hcont'⟩ := h'.compiler hx'
  exact ⟨x'', hx'', hcont.trans hcont'⟩

theorem Calm.grows {p p' : Page κ} (h : p.Calm p') : p.Grows p' :=
  ⟨h.store.toGrows, h.sound, fun hx => ⟨_, h.compiler hx, .refl _⟩, h.engine, h.element,
    h.hasTable⟩

theorem Still.calm {p p' : Page κ} (h : p.Still p') : p.Calm p' := by
  refine ⟨h.store, h.sound, fun hx => ?_, fun hx => ?_, fun he => ?_, h.hasTable⟩
  · rwa [compiler?, h.compilers]
  · rwa [engine?, h.engines]
  · obtain ⟨x, hx⟩ := Option.isSome_iff_exists.1 he
    obtain ⟨x', hx', -⟩ := h.element hx
    rw [hx']
    rfl

theorem calm_document (p : Page κ) {d : Document (Listener κ)}
    (h : ∀ {e}, (p.document.element? e).isSome → (d.element? e).isSome) :
    p.Calm { p with document := d } :=
  ⟨.refl _, id, id, id, h, id⟩

theorem calm_newCompiler (p : Page κ) (template : Template) (data : ObjectId) (root : ElementId)
    (t : TableId) (ids : IdSource) : p.Calm (p.newCompiler template data root t ids).2 := by
  refine ⟨.refl _, id, fun {c x} hx => ?_, id, id, id⟩
  have hlt : c.index < p.compilers.size := by
    rw [← Arena.get?_isSome_iff]
    exact Option.isSome_iff_exists.2 ⟨x, hx⟩
  show (p.compilers.push _).get? c.index = some x
  rw [Arena.get?_push, if_neg (by omega)]
  exact hx

theorem calm_engine (p : Page κ) (e : Engine κ) :
    p.Calm { p with engines := p.engines.push e } := by
  refine ⟨.refl _, id, id, fun {i x} hx => ?_, id, id⟩
  have hlt : i.index < p.engines.size := by
    rw [← Arena.get?_isSome_iff]
    exact Option.isSome_iff_exists.2 ⟨x, hx⟩
  show (p.engines.push e).get? i.index = some x
  rw [Arena.get?_push, if_neg (by omega)]
  exact hx

theorem calm_modifyTable (p : Page κ) (t : TableId) (f : BindingTable → BindingTable) :
    p.Calm (p.modifyTable t f) := by
  refine ⟨.refl _, id, id, id, id, fun {u} hu => ?_⟩
  rw [HasTable, modifyTable, Arena.get?_isSome_iff, Arena.size_modify, ← Arena.get?_isSome_iff]
  exact hu

/-- A compile leaves the other compilers alone. -/
structure Recompiled (p : Page κ) (c : CompilerId) (p' : Page κ) : Prop where
  store : p.store.SameData p'.store
  sound : p.store.Sound → p'.store.Sound
  others : ∀ d, d ≠ c → p'.compiler? d = p.compiler? d
  engines : p'.engines = p.engines
  element : ∀ {e}, (p.document.element? e).isSome → (p'.document.element? e).isSome
  hasTable : ∀ {t}, p.HasTable t → p'.HasTable t
  continues : ∀ {x}, p.compiler? c = some x → ∃ x', p'.compiler? c = some x' ∧ x.Continues x'

theorem recompiled (p : Page κ) (c : CompilerId) : p.Recompiled c (p.compile c).2 := by
  rcases compile_parts p c with h | ⟨x, y, hx, ht, hs | ⟨drawn, markup, result, hr⟩⟩
  · rw [h]
    exact ⟨.refl _, id, fun _ _ => rfl, rfl, id, id, fun hx => ⟨_, hx, .refl _⟩⟩
  · refine ⟨hs.store, hs.sound, hs.others, hs.engines, fun he => ?_, fun hz => ?_, fun hz => ?_⟩
    · rw [hs.document]
      exact he
    · rw [HasTable, hs.tables]
      exact hz
    · rw [hx] at hz
      cases hz
      exact ⟨y, hs.compiler, hs.continues ht⟩
  · refine ⟨hr.store, hr.sound, hr.others, hr.engines, fun he => ?_, hr.hasTable, fun hz => ?_⟩
    · have hkept := Document.element?_setMarkup_isSome he x.root markup
      rw [hr.document] at hkept
      exact hkept
    · rw [hx] at hz
      cases hz
      exact ⟨y, hr.compiler, hr.continues ht⟩

-- A compiler that is there behind a compile was there before it.
theorem compiler?_compile {p : Page κ} {c d : CompilerId} {y : Compiler}
    (hy : (p.compile c).2.compiler? d = some y) : ∃ x, p.compiler? d = some x ∧ x.Continues y := by
  have hre := recompiled p c
  by_cases hdc : d = c
  · subst hdc
    cases hx : p.compiler? d with
    | none =>
      rw [compile_of_none hx, hx] at hy
      cases hy
    | some x =>
      obtain ⟨y', hy', hcont⟩ := hre.continues hx
      cases hy'.symm.trans hy
      exact ⟨x, rfl, hcont⟩
  · exact ⟨y, (hre.others d hdc).symm.trans hy, .refl y⟩

theorem Recompiled.grows {p p' : Page κ} {c : CompilerId} (h : p.Recompiled c p') :
    p.Grows p' := by
  refine ⟨h.store.toGrows, h.sound, fun {d x} hx => ?_, fun hx => ?_, h.element, h.hasTable⟩
  · by_cases hdc : d = c
    · subst hdc
      exact h.continues hx
    · rw [h.others d hdc]
      exact ⟨x, hx, .refl x⟩
  · rwa [engine?, h.engines]

-- A compiler that came later may compile without disturbing anything.
theorem Recompiled.calm {p q q' : Page κ} {c : CompilerId} (hc : p.compiler? c = none)
    (h : p.Calm q) (hq : q.Recompiled c q') : p.Calm q' := by
  refine ⟨h.store.trans hq.store, hq.sound ∘ h.sound, fun {d x} hx => ?_, fun hx => ?_,
    fun he => hq.element (h.element he), hq.hasTable ∘ h.hasTable⟩
  · have hdc : d ≠ c := by
      intro e
      rw [e, hc] at hx
      cases hx
    rw [hq.others d hdc]
    exact h.compiler hx
  · rw [engine?, hq.engines]
    exact h.engine hx

/-! ## 3. Mounting -/

/-- The page on which a view has its compiler and waits for the first compile. -/
def staged (p : Page κ) (vm : ViewModel κ) (config : Config) (root : ElementId) : Page κ :=
  ({ p with store := (p.store.wrap vm.data).2 }.newTable.2.newCompiler (Template.parse vm.template)
    (p.store.wrap vm.data).1 root ⟨p.tables.size⟩ config.ids.source).2

/-- The compiler of a view before the first compile. -/
def stagedCompiler (p : Page κ) (vm : ViewModel κ) (config : Config) (root : ElementId) :
    Compiler :=
  { template := Template.parse vm.template, data := (p.store.wrap vm.data).1, root,
    table := ⟨p.tables.size⟩, ids := config.ids.source }

theorem compiler?_staged (p : Page κ) (vm : ViewModel κ) (config : Config) (root : ElementId) :
    (p.staged vm config root).compiler? ⟨p.compilers.size⟩ =
      some (p.stagedCompiler vm config root) := by
  show (p.compilers.push _).get? p.compilers.size = _
  rw [Arena.get?_push, if_pos rfl]
  rfl

theorem object?_staged (p : Page κ) (vm : ViewModel κ) (config : Config) (root : ElementId) :
    (p.staged vm config root).store.object? (p.stagedCompiler vm config root).data =
      some { slots := Fields.mapValues .plain vm.data } :=
  (Store.object?_wrap p.store vm.data _).trans (if_pos rfl)

theorem hasTable_staged (p : Page κ) (vm : ViewModel κ) (config : Config) (root : ElementId) :
    (p.staged vm config root).HasTable (p.stagedCompiler vm config root).table := by
  show ((p.tables.push _).get? p.tables.size).isSome = true
  rw [Arena.get?_push, if_pos rfl]
  rfl

theorem compiler?_size (p : Page κ) : p.compiler? ⟨p.compilers.size⟩ = none :=
  (Arena.get?_eq_none_iff _ _).2 (Nat.le_refl _)

theorem calm_staged (p : Page κ) (vm : ViewModel κ) (config : Config) (root : ElementId) :
    p.Calm (p.staged vm config root) :=
  ((still_wrap p vm.data).trans (still_newTable _)).calm.trans (calm_newCompiler _ _ _ _ _ _)

/-- The view that a mount adds to the page in the end. -/
def stagedEngine (p : Page κ) (vm : ViewModel κ) (root : ElementId) (types : List String) :
    Engine κ :=
  ⟨root, ⟨p.compilers.size⟩, ⟨(p.store.wrap vm.data).1, vm.methods⟩, types⟩

theorem mount_eq (p : Page κ) (vm : ViewModel κ) (config : Config) :
    p.mount vm config =
      match p.document.byId? config.rootId with
      | none => (.error (.rootNotFound config.rootId), p)
      | some root =>
        match (p.staged vm config root).compile ⟨p.compilers.size⟩ with
        | (.error error, p) => (.error error, p)
        | (.ok (), q) =>
          match q.bind root ⟨p.tables.size⟩ vm.methods ⟨(p.store.wrap vm.data).1, vm.methods⟩ with
          | (.error error, p) => (.error (.document error), p)
          | (.ok boundTypes, q) =>
            (.ok ⟨q.engines.size⟩,
              { q with engines := q.engines.push (p.stagedEngine vm root boundTypes) }) :=
  rfl

/-- The receiver of a view that is being mounted. -/
def stagedReceiver (p : Page κ) (vm : ViewModel κ) : Receiver κ :=
  ⟨(p.store.wrap vm.data).1, vm.methods⟩

section Outcomes

variable {p q q' : Page κ} {vm : ViewModel κ} {config : Config} {root : ElementId}

-- Neither the first compile nor the registration of the listeners touches other views.
theorem engines_staged {result : Except EngineError Unit}
    (hcompile : (p.staged vm config root).compile ⟨p.compilers.size⟩ = (result, q)) :
    q.engines = p.engines := by
  have hengines := (recompiled (p.staged vm config root) ⟨p.compilers.size⟩).engines
  rwa [hcompile] at hengines

theorem still_of_bind {result : Except DocumentError (List String)}
    (hbind : q.bind root ⟨p.tables.size⟩ vm.methods (p.stagedReceiver vm) = (result, q')) :
    q.Still q' := by
  have hstill := still_bind q root ⟨p.tables.size⟩ vm.methods (p.stagedReceiver vm)
  rwa [hbind] at hstill

/-- **The outcomes of a mount**: there is no root element, the compile fails, a registration is
    refused, or the view is there. -/
inductive Mounting (p : Page κ) (vm : ViewModel κ) (config : Config) :
    Except EngineError EngineId × Page κ → Prop where
  | homeless (hroot : p.document.byId? config.rootId = none) :
    Mounting p vm config (.error (.rootNotFound config.rootId), p)
  | stopped {root error q} (hroot : p.document.byId? config.rootId = some root)
    (hcompile : (p.staged vm config root).compile ⟨p.compilers.size⟩ = (.error error, q)) :
    Mounting p vm config (.error error, q)
  | unbound {root q error q'} (hroot : p.document.byId? config.rootId = some root)
    (hcompile : (p.staged vm config root).compile ⟨p.compilers.size⟩ = (.ok (), q))
    (hbind : q.bind root ⟨p.tables.size⟩ vm.methods (p.stagedReceiver vm) = (.error error, q')) :
    Mounting p vm config (.error (.document error), q')
  | done {root q types q'} (hroot : p.document.byId? config.rootId = some root)
    (hcompile : (p.staged vm config root).compile ⟨p.compilers.size⟩ = (.ok (), q))
    (hbind : q.bind root ⟨p.tables.size⟩ vm.methods (p.stagedReceiver vm) = (.ok types, q')) :
    Mounting p vm config (.ok ⟨p.engines.size⟩,
      { q' with engines := q'.engines.push (p.stagedEngine vm root types) })

theorem mounting (p : Page κ) (vm : ViewModel κ) (config : Config) :
    p.Mounting vm config (p.mount vm config) := by
  rw [mount_eq]
  cases hroot : p.document.byId? config.rootId with
  | none => exact .homeless hroot
  | some root =>
    dsimp only
    rcases hcompile : (p.staged vm config root).compile ⟨p.compilers.size⟩ with ⟨result, q⟩
    cases result with
    | error error => exact .stopped hroot hcompile
    | ok =>
      rcases hbind : q.bind root ⟨p.tables.size⟩ vm.methods (p.stagedReceiver vm) with ⟨bound, q'⟩
      have hstill := still_of_bind hbind
      rw [stagedReceiver] at hbind
      dsimp only
      rw [hbind]
      cases bound with
      | error error => exact .unbound hroot hcompile hbind
      | ok types =>
        dsimp only
        rw [hstill.engines, engines_staged hcompile]
        have hdone := Mounting.done hroot hcompile hbind
        rwa [hstill.engines, engines_staged hcompile] at hdone

-- A mount that goes through.
theorem mount_of_ok {types : List String} (hroot : p.document.byId? config.rootId = some root)
    (hcompile : (p.staged vm config root).compile ⟨p.compilers.size⟩ = (.ok (), q))
    (hbind : q.bind root ⟨p.tables.size⟩ vm.methods (p.stagedReceiver vm) = (.ok types, q')) :
    p.mount vm config = (.ok ⟨q'.engines.size⟩,
      { q' with engines := q'.engines.push (p.stagedEngine vm root types) }) := by
  rw [stagedReceiver] at hbind
  simp only [mount_eq, hroot, hcompile, hbind]

-- A view that has been mounted is there, and was not before.
theorem Mounting.new {e : EngineId} (h : p.Mounting vm config (.ok e, q)) :
    p.engine? e = none ∧ (q.engine? e).isSome := by
  cases h with
  | done hroot hcompile hbind =>
    refine ⟨(Arena.get?_eq_none_iff _ _).2 (Nat.le_refl _), ?_⟩
    rw [engine?, Arena.get?_push, (still_of_bind hbind).engines, engines_staged hcompile,
      if_pos rfl]
    rfl

-- A view behind a mount was there before, or is the new one.
theorem Mounting.engine? {mounted : Except EngineError EngineId × Page κ}
    (h : p.Mounting vm config mounted) {e : EngineId} {engine : Engine κ}
    (he : mounted.2.engine? e = some engine) :
    p.engine? e = some engine ∨ mounted.1 = .ok e ∧ ∃ root q types q',
      p.document.byId? config.rootId = some root ∧
      (p.staged vm config root).compile ⟨p.compilers.size⟩ = (.ok (), q) ∧
      q.bind root ⟨p.tables.size⟩ vm.methods (p.stagedReceiver vm) = (.ok types, q') ∧
      engine = p.stagedEngine vm root types ∧
      mounted.2 = { q' with engines := q'.engines.push engine } := by
  cases h with
  | homeless => exact .inl he
  | stopped _ hcompile =>
    rw [Page.engine?, engines_staged hcompile] at he
    exact .inl he
  | unbound _ hcompile hbind =>
    rw [Page.engine?, (still_of_bind hbind).engines, engines_staged hcompile] at he
    exact .inl he
  | done hroot hcompile hbind =>
    rw [Page.engine?, Arena.get?_push, (still_of_bind hbind).engines,
      engines_staged hcompile] at he
    split at he
    · rename_i hindex
      cases he
      obtain ⟨i⟩ := e
      exact .inr ⟨congrArg (fun i => Except.ok (EngineId.mk i)) hindex.symm, _, _, _, _, hroot,
        hcompile, hbind, rfl, rfl⟩
    · exact .inl he

end Outcomes

-- What a view that is being mounted does to the page, and what is there when it is.
theorem mount_cases (p : Page κ) (vm : ViewModel κ) (config : Config) :
    (p.mount vm config).2 = p ∨
    ∃ root q q', p.document.byId? config.rootId = some root ∧
      ((p.staged vm config root).compile ⟨p.compilers.size⟩).2 = q ∧ q.Still q' ∧
      ((p.mount vm config).2 = q' ∨
        ((p.staged vm config root).compile ⟨p.compilers.size⟩).1 = .ok () ∧
        ∃ types, p.mount vm config = (.ok ⟨p.engines.size⟩,
          { q' with engines := q'.engines.push (p.stagedEngine vm root types) })) := by
  have h := mounting p vm config
  generalize p.mount vm config = mounted at h ⊢
  cases h with
  | homeless => exact .inl rfl
  | @stopped root error q hroot hcompile =>
    exact .inr ⟨root, q, q, hroot, by rw [hcompile], .refl q, .inl rfl⟩
  | @unbound root q error q' hroot hcompile hbind =>
    exact .inr ⟨root, q, q', hroot, by rw [hcompile], still_of_bind hbind, .inl rfl⟩
  | @done root q types q' hroot hcompile hbind =>
    exact .inr ⟨root, q, q', hroot, by rw [hcompile], still_of_bind hbind,
      .inr ⟨by rw [hcompile], types, rfl⟩⟩

-- What the steps of a mount keep, the mount keeps.
theorem mount_keeps {inv : Page κ → Prop} {p : Page κ}
    (hstill : ∀ {q q'}, inv q → q.Still q' → inv q')
    (hnew : ∀ {q} (template : Template) (data : ObjectId) (root : ElementId) (t : TableId)
      (ids : IdSource), inv q → inv (q.newCompiler template data root t ids).2)
    (hcompile : ∀ {q}, inv q → inv (q.compile ⟨p.compilers.size⟩).2)
    (hengine : ∀ {q} (engine : Engine κ),
      inv q → inv { q with engines := q.engines.push engine })
    (h : inv p) (vm : ViewModel κ) (config : Config) : inv (p.mount vm config).2 := by
  rcases mount_cases p vm config with hp | ⟨root, q, q', -, hq, hs, hp⟩
  · rw [hp]
    exact h
  · have hstaged : inv (p.staged vm config root) :=
      hnew _ _ _ _ _ (hstill h ((still_wrap p vm.data).trans (still_newTable _)))
    have hcompiled : inv q := hq ▸ hcompile hstaged
    have hbound : inv q' := hstill hcompiled hs
    rcases hp with hp | ⟨-, types, hp⟩
    · rw [hp]
      exact hbound
    · rw [hp]
      exact hengine _ hbound

theorem calm_mount (p : Page κ) (vm : ViewModel κ) (config : Config) :
    p.Calm (p.mount vm config).2 :=
  mount_keeps (fun h hs => h.trans hs.calm)
    (fun _ _ _ _ _ h => h.trans (calm_newCompiler _ _ _ _ _ _))
    (fun h => Recompiled.calm (compiler?_size p) h (recompiled _ _))
    (fun _ h => h.trans (calm_engine _ _)) (.refl p) vm config

/-! ## 4. Moves -/

-- Every move is calm, or a compile.
theorem Move.calm_or_compile {permits : Request κ → Prop} {p p' : Page κ}
    (h : p.Move permits p') : p.Calm p' ∨ ∃ c, p' = (p.compile c).2 := by
  rcases h.cases with h | ⟨c, -, rfl⟩ | ⟨e, markup, -, rfl⟩ | ⟨writes, listens, -, rfl⟩ |
    ⟨template, data, root, ids, table, t, -, rfl⟩ | ⟨vm, config, -, rfl⟩
  · exact .inl h.calm
  · exact .inr ⟨c, rfl⟩
  · exact .inl (calm_document p fun he => Document.element?_setMarkup_isSome he e markup)
  · exact .inl (calm_document p id)
  · exact .inl (calm_newCompiler p _ _ _ _ _)
  · exact .inl (calm_mount p vm config)

theorem Move.grows {permits : Request κ → Prop} {p p' : Page κ} (h : p.Move permits p') :
    p.Grows p' := by
  rcases h.calm_or_compile with h | ⟨c, rfl⟩
  · exact h.grows
  · exact (recompiled p c).grows

section Tables

variable (inv : Page κ → Prop)
  (hcalm : ∀ {q q'}, inv q → q.Calm q' → (∀ t, q'.table t = q.table t) → inv q')
  (hcompile : ∀ {q}, inv q → ∀ c, inv (q.compile c).2)

include hcalm hcompile

/-- **What a compile keeps**, and what goes unnoticed by compilers and tables, a mount keeps. -/
theorem mount_of_calm {p : Page κ} (h : inv p) (vm : ViewModel κ) (config : Config) :
    inv (p.mount vm config).2 :=
  mount_keeps (fun h hs => hcalm h hs.calm hs.table)
    (fun _ _ _ _ _ h => hcalm h (calm_newCompiler _ _ _ _ _ _) fun _ => rfl)
    (fun h => hcompile h _) (fun _ h => hcalm h (calm_engine _ _) fun _ => rfl) h vm config

/-- The same for every move. -/
theorem Move.of_calm {permits : Request κ → Prop} {p p' : Page κ} (h : p.Move permits p')
    (hp : inv p) : inv p' := by
  rcases h.cases with h | ⟨c, -, rfl⟩ | ⟨e, markup, -, rfl⟩ | ⟨writes, listens, -, rfl⟩ |
    ⟨template, data, root, ids, table, t, -, rfl⟩ | ⟨vm, config, -, rfl⟩
  · exact hcalm hp h.calm h.table
  · exact hcompile hp c
  · exact hcalm hp (calm_document p fun he => Document.element?_setMarkup_isSome he e markup)
      fun _ => rfl
  · exact hcalm hp (calm_document p id) fun _ => rfl
  · exact hcalm hp (calm_newCompiler p _ _ _ _ _) fun _ => rfl
  · exact mount_of_calm inv hcalm hcompile hp vm config

end Tables

-- Only a mount adds a view.
theorem Move.engines_or_mount {permits : Request κ → Prop} {p p' : Page κ}
    (h : p.Move permits p') :
    p'.engines = p.engines ∨
      ∃ vm config, permits (.perform (.mount vm config)) ∧ p' = (p.mount vm config).2 := by
  rcases h.cases with h | ⟨c, -, rfl⟩ | ⟨e, markup, -, rfl⟩ | ⟨writes, listens, -, rfl⟩ |
    ⟨template, data, root, ids, table, t, -, rfl⟩ | h
  · exact .inl h.engines
  · exact .inl (recompiled p c).engines
  · exact .inl rfl
  · exact .inl rfl
  · exact .inl rfl
  · exact .inr h

theorem Move.engines {permits : Request κ → Prop} {p p' : Page κ} (h : p.Move permits p')
    (hmount : ∀ {vm config}, ¬ permits (.perform (.mount vm config))) :
    p'.engines = p.engines := by
  rcases h.engines_or_mount with h | ⟨vm, config, hvm, -⟩
  · exact h
  · exact (hmount hvm).elim

theorem grows_write (p : Page κ) (o : ObjectId) (key : String) (v : Value) :
    p.Grows { p with store := p.store.write o key v } :=
  ⟨Store.grows_write _ _ _ _, fun h => h.write _ _ _, fun hx => ⟨_, hx, .refl _⟩, id, id, id⟩

/-! ## 5. Documents that refuse nothing -/

theorem accepts_compile {p : Page κ} (h : p.document.Accepts) (c : CompilerId) :
    (p.compile c).2.document.Accepts := by
  rcases compile_parts p c with hidle | ⟨x, y, -, -, hs | ⟨id, markup, result, hr⟩⟩
  · rw [hidle]
    exact h
  · rw [hs.document]
    exact h
  · have hwrites := Document.refusedWrites_setMarkup p.document x.root markup
    rw [hr.document, h] at hwrites
    exact hwrites

theorem accepts_mount {p : Page κ} (h : p.document.Accepts) (vm : ViewModel κ)
    (config : Config) : (p.mount vm config).2.document.Accepts :=
  mount_keeps (fun h hs => hs.refusedWrites.trans h) (fun _ _ _ _ _ h => h)
    (fun h => accepts_compile h _) (fun _ h => h) h vm config

-- A document that no request lets refuse a write takes all of them.
theorem Move.accepts {permits : Request κ → Prop} {p p' : Page κ} (h : p.Move permits p')
    (hp : ∀ {writes listens}, permits (.perform (.refuse writes listens)) → writes = 0)
    (ha : p.document.Accepts) : p'.document.Accepts := by
  rcases h.cases with h | ⟨c, -, rfl⟩ | ⟨e, markup, -, rfl⟩ | ⟨writes, listens, hr, rfl⟩ |
    ⟨template, data, root, ids, table, t, -, rfl⟩ | ⟨vm, config, -, rfl⟩
  · exact h.refusedWrites.trans ha
  · exact accepts_compile ha c
  · refine (Document.refusedWrites_setMarkup _ _ _).trans ?_
    rw [ha]
    rfl
  · rw [hp hr]
    rfl
  · exact ha
  · exact accepts_mount ha vm config

end Page

end ReactiveView
