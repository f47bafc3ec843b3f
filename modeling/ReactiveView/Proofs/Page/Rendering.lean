import Mathlib.Data.List.Forall2
import ReactiveView.Page.Compile
import ReactiveView.Proofs.Store.Watching

/-!
# The two outcomes of a compile

A compile either stops before it renders, and then neither the document nor a table has changed, or
it counts the render and hands the markup to the document, which may refuse it.  `compile_cases`
says all that is true of a page in either case, and `compile_parts` that a compile changes a page in
no other way.
-/

namespace ReactiveView

/-! ## 1. Watchers of placeholders -/

namespace Store

variable {ρ : Type}

/-- The watchers `ws` stand for the properties `keys` of `o`, one each and in this order. -/
def Watches (s : Store ρ) (o : ObjectId) (reaction : ρ) (keys : List String)
    (ws : List WatcherId) : Prop :=
  List.Forall₂ (fun key w => ∃ number baseline,
    s.watcher? w = some ⟨number, o, key, reaction, baseline⟩ ∧ s.Known baseline) keys ws

theorem Watches.grows {s s' : Store ρ} (h : s.Grows s') {o : ObjectId} {reaction : ρ}
    {keys : List String} {ws : List WatcherId} (hw : s.Watches o reaction keys ws) :
    s'.Watches o reaction keys ws := by
  refine List.Forall₂.imp (fun key w hkw => ?_) hw
  obtain ⟨number, baseline, hx, hb⟩ := hkw
  exact ⟨number, baseline, h.watcher hx, h.known hb⟩

/-- The watchers `ws` stand for the properties `keys` of `o`, one each and in this order, and compare
    with the fields that these have in the store `s₀`. -/
def WatchesSince (s₀ s : Store ρ) (o : ObjectId) (reaction : ρ) (keys : List String)
    (ws : List WatcherId) : Prop :=
  List.Forall₂ (fun key w => ∃ number,
    s.watcher? w = some ⟨number, o, key, reaction, s₀.field o key⟩) keys ws

theorem WatchesSince.grows {s₀ s s' : Store ρ} (h : s.Grows s') {o : ObjectId} {reaction : ρ}
    {keys : List String} {ws : List WatcherId} (hw : s₀.WatchesSince s o reaction keys ws) :
    s₀.WatchesSince s' o reaction keys ws := by
  refine List.Forall₂.imp (fun key w hkw => ?_) hw
  obtain ⟨number, hx⟩ := hkw
  exact ⟨number, h.watcher hx⟩

theorem WatchesSince.watches {s₀ s : Store ρ} (hs : s.Sound) {o : ObjectId} {reaction : ρ}
    {keys : List String} {ws : List WatcherId} (hw : s₀.WatchesSince s o reaction keys ws) :
    s.Watches o reaction keys ws := by
  refine List.Forall₂.imp (fun key w hkw => ?_) hw
  obtain ⟨number, hx⟩ := hkw
  exact ⟨number, _, hx, hs.baseline hx⟩

-- Watchers that compare with the present go on to do so until something is written.
theorem WatchesSince.sameData {s s' : Store ρ} (h : s.SameData s') (hs : s.Sound) {o : ObjectId}
    (ho : (s.object? o).isSome) {reaction : ρ} {keys : List String} {ws : List WatcherId}
    (hw : s.WatchesSince s o reaction keys ws) : s'.WatchesSince s' o reaction keys ws := by
  refine List.Forall₂.imp (fun key w hkw => ?_) hw
  obtain ⟨number, hx⟩ := hkw
  refine ⟨number, ?_⟩
  rw [h.field ho (hs.baseline hx)]
  exact h.watcher hx

-- What a template shows of an object does not depend on how its data is stored.
theorem Alike.render {s s' : Store ρ} {o : ObjectId} (h : s.Alike s' o) (t : Template)
    (id : Option String) :
    t.render (fun key => (s'.field o key).display) id =
      t.render (fun key => (s.field o key).display) id :=
  congrArg (t.fill · id) (List.map_congr_left fun key _ => h.display key)

end Store

namespace Page

variable {κ : Type}

/-! ## 2. Look-ups in a changed page -/

theorem compiler?_modifyCompiler (p : Page κ) (c : CompilerId) (f : Compiler → Compiler)
    (d : CompilerId) :
    (p.modifyCompiler c f).compiler? d = if c = d then (p.compiler? d).map f
      else p.compiler? d := by
  obtain ⟨i⟩ := c
  obtain ⟨j⟩ := d
  simp only [compiler?, modifyCompiler, Arena.get?_modify, CompilerId.mk.injEq]

/-! ## 3. The first stage -/

/-- The page `p'` is `p` with the watchers `ws` added to the compiler `c`. -/
structure Slotted (p : Page κ) (c : CompilerId) (ws : List WatcherId) (p' : Page κ) : Prop where
  store : p.store.SameData p'.store
  active : ∀ t, p'.store.active t = p.store.active t
  sound : p.store.Sound → p'.store.Sound
  only : ∀ {w x}, p'.store.watcher? w = some x →
    p.store.watcher? w = some x ∨ x.reaction = .render c
  document : p'.document = p.document
  tables : p'.tables = p.tables
  engines : p'.engines = p.engines
  entropy : p'.entropy = p.entropy
  compiler : ∀ d, p'.compiler? d =
    if c = d then (p.compiler? d).map fun x => { x with watchers := x.watchers ++ ws }
    else p.compiler? d

theorem Slotted.refl (p : Page κ) (c : CompilerId) : p.Slotted c [] p := by
  refine ⟨.refl _, fun _ => rfl, id, .inl, rfl, rfl, rfl, rfl, fun d => ?_⟩
  split
  · cases p.compiler? d <;> simp
  · rfl

theorem Slotted.trans {p p' p'' : Page κ} {c : CompilerId} {ws ws' : List WatcherId}
    (h : p.Slotted c ws p') (h' : p'.Slotted c ws' p'') : p.Slotted c (ws ++ ws') p'' := by
  refine ⟨h.store.trans h'.store, fun t => (h'.active t).trans (h.active t), h'.sound ∘ h.sound,
    fun hx => ?_, h'.document.trans h.document, h'.tables.trans h.tables,
    h'.engines.trans h.engines, h'.entropy.trans h.entropy, fun d => ?_⟩
  · rcases h'.only hx with hx | hx
    · exact h.only hx
    · exact .inr hx
  · rw [h'.compiler, h.compiler]
    by_cases hcd : c = d
    · rw [if_pos hcd, if_pos hcd, if_pos hcd]
      cases p.compiler? d <;> simp
    · rw [if_neg hcd, if_neg hcd, if_neg hcd]

-- A single attempt to make a watcher.
theorem slotted_watch (p : Page κ) (c : CompilerId) (data : ObjectId) (key : String) :
    p.Slotted c [] { p with store := (p.store.watch data key (.render c)).2 } := by
  refine ⟨Store.sameData_watch _ _ _ _, fun t => Store.active_watch _ _ _ _ t,
    fun h => h.watch _ _ _, fun {w x} hx => ?_, rfl, rfl, rfl, rfl, (Slotted.refl p c).compiler⟩
  exact (Store.watcher?_watch hx).imp_right fun h => congrArg Watcher.reaction h.2

theorem slotted_modifyCompiler (p : Page κ) (c : CompilerId) (ws : List WatcherId) :
    p.Slotted c ws (p.modifyCompiler c fun x => { x with watchers := x.watchers ++ ws }) :=
  ⟨.refl _, fun _ => rfl, id, .inl, rfl, rfl, rfl, rfl, compiler?_modifyCompiler p c _⟩

-- Where another watcher is collecting not one of the watchers is made.
theorem watchSlots_of_active {p : Page κ} {data : ObjectId} {a : WatcherId}
    (h : p.store.active data.tree = some a) (c : CompilerId) (keys : List String) :
    (keys = [] ∧ p.watchSlots c data keys = (.ok (), p)) ∨
      ∃ error p', p.watchSlots c data keys = (.error error, p') ∧ p.Slotted c [] p' := by
  cases keys with
  | nil => exact .inl ⟨rfl, rfl⟩
  | cons key keys =>
    have hwatch := slotted_watch p c data key
    rw [Store.watch_of_active h] at hwatch
    refine .inr ⟨.collecting (p.store.number a) ((p.store.tree data.tree).issued + 1), _, ?_,
      hwatch⟩
    rw [watchSlots, Store.watch_of_active h]

theorem watchSlots_of_active_eq_none {p : Page κ} {data : ObjectId}
    (h : p.store.active data.tree = none) (c : CompilerId) (keys : List String) :
    ∃ ws p', p.watchSlots c data keys = (.ok (), p') ∧ p.Slotted c ws p' ∧
      (p.store.Sound → (p.store.object? data).isSome →
        p'.store.WatchesSince p'.store data (.render c) keys ws ∧
          p'.store.registered (.ofObject data) = p.store.registered (.ofObject data) ++ ws) := by
  induction keys generalizing p with
  | nil =>
    exact ⟨[], p, rfl, .refl p c, fun _ _ => ⟨.nil, (List.append_nil _).symm⟩⟩
  | cons key keys ih =>
    obtain ⟨w, s', hs, hw⟩ := Store.watch_of_active_eq_none h key (.render c)
    have hone : p.Slotted c [w] ({ p with store := s' }.modifyCompiler c fun x =>
        { x with watchers := x.watchers ++ [w] }) := by
      have hwatch := slotted_watch p c data key
      rw [hs] at hwatch
      exact hwatch.trans (slotted_modifyCompiler _ c [w])
    have hactive : ({ p with store := s' }.modifyCompiler c fun x =>
        { x with watchers := x.watchers ++ [w] }).store.active data.tree = none :=
      (hw.active data.tree).trans h
    obtain ⟨ws, p', hrun, hslots, hmade⟩ := ih hactive
    refine ⟨w :: ws, p', ?_, hone.trans hslots, fun hsound hdata => ?_⟩
    · rw [watchSlots, hs]
      exact hrun
    · have hnew := hw.made (Store.hasTree_of_object? hdata)
      have hobject := hone.store.object?_isSome hdata
      obtain ⟨hwatches, hreg⟩ := hmade (hone.sound hsound) hobject
      -- the watchers that follow read other properties, or read this one again
      have hfield : p'.store.field data key = p.store.field data key := by
        have hknown : s'.Known (s'.field data key) := by
          rw [hw.reads]
          exact (hone.sound hsound).baseline hnew
        exact (hslots.store.field hobject hknown).trans hw.reads
      refine ⟨.cons ⟨(p.store.tree data.tree).issued + 1, ?_⟩ hwatches, ?_⟩
      · rw [hfield]
        exact hslots.store.watcher hnew
      rw [hreg]
      show s'.registered _ ++ ws = _
      rw [hw.registered, if_pos ⟨rfl, hdata⟩, List.append_assoc]
      rfl

/-! ## 4. The other stages -/

theorem drawId_of_none {x : Compiler} (h : x.template.binding? = none) (p : Page κ)
    (c : CompilerId) : p.drawId c x = (.ok none, p) := by
  rw [drawId, h]

theorem drawId_of_error {x : Compiler} {b : Binding} (h : x.template.binding? = some b)
    {p : Page κ} {error : EngineError} {ids : IdSource} {entropy : Entropy}
    (hd : x.ids.draw p.entropy = (.error error, ids, entropy)) (c : CompilerId) :
    p.drawId c x = (.error error, { p with entropy }.modifyCompiler c fun y => { y with ids }) := by
  simp only [drawId, h, hd]

theorem drawId_of_ok {x : Compiler} {b : Binding} (h : x.template.binding? = some b)
    {p : Page κ} {id : String} {ids : IdSource} {entropy : Entropy}
    (hd : x.ids.draw p.entropy = (.ok id, ids, entropy)) (c : CompilerId) :
    p.drawId c x =
      (.ok (some id),
        (({ p with entropy }.modifyCompiler c fun y => { y with ids }).modifyCompiler c
          fun y => { y with lastId := some id }).modifyTable x.table fun t => t.insert id b) := by
  simp only [drawId, h, hd]

/-- The page `p'` is `p` after `c`, which is now `y`, drew the id `id`, if its template `x` asks for
    one. -/
structure Drawn (p : Page κ) (c : CompilerId) (x y : Compiler) (id : Option String)
    (ids : IdSource) (p' : Page κ) : Prop where
  store : p'.store = p.store
  document : p'.document = p.document
  engines : p'.engines = p.engines
  others : ∀ d, d ≠ c → p'.compiler? d = p.compiler? d
  compiler : p'.compiler? c = some { y with ids, lastId := id.or y.lastId }
  drawn : match x.template.binding? with
    | none => id = none ∧ ids = x.ids ∧ p'.entropy = p.entropy ∧ p'.tables = p.tables
    | some b => ∃ i, id = some i ∧ x.ids.draw p.entropy = (.ok i, ids, p'.entropy) ∧
      p'.tables = p.tables.modify x.table.index fun t => t.insert i b

theorem drawId_cases {p : Page κ} {c : CompilerId} {x y : Compiler} (hy : p.compiler? c = some y)
    (hids : y.ids = x.ids) :
    (∃ error ids entropy, x.template.binding? ≠ none ∧
      x.ids.draw p.entropy = (.error error, ids, entropy) ∧
      p.drawId c x = (.error error, { p with entropy }.modifyCompiler c fun y => { y with ids })) ∨
    ∃ id ids p', p.drawId c x = (.ok id, p') ∧ p.Drawn c x y id ids p' := by
  cases hb : x.template.binding? with
  | none =>
    refine .inr ⟨none, x.ids, p, drawId_of_none hb p c, rfl, rfl, rfl, fun _ _ => rfl, ?_, ?_⟩
    · rw [hy, ← hids]
      rfl
    · rw [hb]
      exact ⟨rfl, rfl, rfl, rfl⟩
  | some b =>
    rcases hd : x.ids.draw p.entropy with ⟨drawn, ids, entropy⟩
    cases drawn with
    | error error =>
      exact .inl ⟨error, ids, entropy, (fun h => nomatch h), rfl, drawId_of_error hb hd c⟩
    | ok id =>
      refine .inr ⟨_, ids, _, drawId_of_ok hb hd c, rfl, rfl, rfl, fun d hdc => ?_, ?_, ?_⟩
      · have hcd : ¬ c = d := fun e => hdc e.symm
        refine (compiler?_modifyCompiler _ c _ d).trans ((if_neg hcd).trans ?_)
        exact (compiler?_modifyCompiler _ c _ d).trans (if_neg hcd)
      · refine (compiler?_modifyCompiler _ c _ c).trans ((if_pos rfl).trans ?_)
        rw [compiler?_modifyCompiler, if_pos rfl]
        show ((p.compiler? c).map _).map _ = _
        rw [hy]
        rfl
      · rw [hb]
        exact ⟨id, rfl, hd, rfl⟩

-- A failed attempt to draw an id shows only in the source of the ids.
theorem draw_error_ne {s : IdSource} {e : Entropy} {error : EngineError} {ids : IdSource}
    {entropy : Entropy} (h : s.draw e = (.error error, ids, entropy)) (d : DocumentError) :
    error ≠ .document d := by
  unfold IdSource.draw at h
  split at h <;> cases h <;> exact fun hd => nomatch hd

/-! ## 5. The outcomes -/

/-- The page after a compile of `c` that ended before anything was rendered. -/
structure Stopped (p : Page κ) (c : CompilerId) (x x' : Compiler) (p' : Page κ) : Prop where
  store : p.store.SameData p'.store
  active : ∀ t, p'.store.active t = p.store.active t
  sound : p.store.Sound → p'.store.Sound
  only : ∀ {w y}, p'.store.watcher? w = some y →
    p.store.watcher? w = some y ∨ y.reaction = .render c
  document : p'.document = p.document
  tables : p'.tables = p.tables
  engines : p'.engines = p.engines
  others : ∀ d, d ≠ c → p'.compiler? d = p.compiler? d
  compiler : p'.compiler? c = some x'
  frame : x' = { x with ids := x'.ids, watchers := x'.watchers }
  watchers : x.initialized = true → x'.watchers = x.watchers
  -- What was in the way.
  cause : (x.initialized = false ∧ p.store.active x.data.tree ≠ none ∧ x'.ids = x.ids ∧
      p'.entropy = p.entropy) ∨
    x.template.binding? ≠ none ∧ ∃ error,
      x.ids.draw p.entropy = (.error error, x'.ids, p'.entropy)

/-- The page after a compile of `c` that handed `markup`, with the id `id`, to the document. -/
structure Rendered (p : Page κ) (c : CompilerId) (x : Compiler) (id : Option String)
    (markup : String) (result : Except DocumentError Unit) (x' : Compiler) (p' : Page κ) :
    Prop where
  store : p.store.SameData p'.store
  active : ∀ t, p'.store.active t = p.store.active t
  sound : p.store.Sound → p'.store.Sound
  only : ∀ {w y}, p'.store.watcher? w = some y →
    p.store.watcher? w = some y ∨ y.reaction = .render c
  document : p.document.setMarkup x.root markup = (result, p'.document)
  engines : p'.engines = p.engines
  others : ∀ d, d ≠ c → p'.compiler? d = p.compiler? d
  compiler : p'.compiler? c = some x'
  frame : x' = { x with
    ids := x'.ids, watchers := x'.watchers, lastId := id.or x.lastId, initialized := true
    renders := x.renders + 1, lastMarkup := x'.lastMarkup }
  lastMarkup : x'.lastMarkup = if result.isOk then markup else x.lastMarkup
  reads : x.initialized = true → p'.store = (p.store.getTexts x.data x.template.slots).2
  watchers : x.initialized = true → x'.watchers = x.watchers
  made : x.initialized = false → p.store.Sound → (p.store.object? x.data).isSome → ∃ ws,
    x'.watchers = x.watchers ++ ws ∧
      p'.store.WatchesSince p'.store x.data (.render c) x.template.slots ws ∧
      p.store.registered (.ofObject x.data) ++ ws <+: p'.store.registered (.ofObject x.data)
  markup : (p.store.object? x.data).isSome →
    markup = x.template.render (fun key => (p.store.field x.data key).display) id
  drawn : match x.template.binding? with
    | none => id = none ∧ x'.ids = x.ids ∧ p'.entropy = p.entropy ∧ p'.tables = p.tables
    | some b => ∃ i, id = some i ∧ x.ids.draw p.entropy = (.ok i, x'.ids, p'.entropy) ∧
      p'.tables = p.tables.modify x.table.index fun t => t.insert i b

-- The stage that makes the watchers, for a compiler in any state.
theorem watched_cases (p : Page κ) (c : CompilerId) (x : Compiler) :
    (∃ error p', (if x.initialized then (.ok (), p)
        else p.watchSlots c x.data x.template.slots) = (.error error, p') ∧
      x.initialized = false ∧ p.store.active x.data.tree ≠ none ∧ p.Slotted c [] p') ∨
    ∃ ws p', (if x.initialized then (.ok (), p)
        else p.watchSlots c x.data x.template.slots) = (.ok (), p') ∧ p.Slotted c ws p' ∧
      (x.initialized = true → ws = [] ∧ p' = p) ∧
      (x.initialized = false → p.store.Sound → (p.store.object? x.data).isSome →
        p'.store.WatchesSince p'.store x.data (.render c) x.template.slots ws ∧
          p'.store.registered (.ofObject x.data) =
            p.store.registered (.ofObject x.data) ++ ws) := by
  cases hinit : x.initialized with
  | true =>
    exact .inr ⟨[], p, rfl, .refl p c, fun _ => ⟨rfl, rfl⟩, (fun h => nomatch h)⟩
  | false =>
    cases ha : p.store.active x.data.tree with
    | none =>
      obtain ⟨ws, p', hrun, hslots, hmade⟩ :=
        watchSlots_of_active_eq_none ha c x.template.slots
      exact .inr ⟨ws, p', hrun, hslots, (fun h => nomatch h), fun _ => hmade⟩
    | some a =>
      rcases watchSlots_of_active ha c x.template.slots with ⟨hnil, hrun⟩ | ⟨error, p', hrun, hs⟩
      · refine .inr ⟨[], p, hrun, .refl p c, fun _ => ⟨rfl, rfl⟩, fun _ _ _ => ⟨?_, ?_⟩⟩
        · rw [hnil]
          exact .nil
        · rw [List.append_nil]
      · exact .inl ⟨error, p', hrun, rfl, (fun h => nomatch h), hs⟩

-- The last stage of a compile.
theorem renderWith_eq (p : Page κ) (c : CompilerId) (x : Compiler) (id : Option String) :
    ∃ markup result p', p.renderWith c x id = (result.mapError .document, p') ∧
      p.document.setMarkup x.root markup = (result, p'.document) ∧
      p'.store = (p.store.getTexts x.data x.template.slots).2 ∧
      p'.tables = p.tables ∧ p'.engines = p.engines ∧ p'.entropy = p.entropy ∧
      (∀ d, p'.compiler? d = if c = d then (p.compiler? d).map fun y =>
          { y with
            initialized := true, renders := y.renders + 1
            lastMarkup := if result.isOk then markup else y.lastMarkup }
        else p.compiler? d) ∧
      ((p.store.object? x.data).isSome →
        markup = x.template.render (fun key => (p.store.field x.data key).display) id) := by
  have htexts : (p.store.object? x.data).isSome →
      (p.store.getTexts x.data x.template.slots).1 =
        x.template.slots.map fun key => (p.store.field x.data key).display :=
    fun h => Store.getTexts_fst h _
  rcases hg : p.store.getTexts x.data x.template.slots with ⟨texts, store⟩
  rw [hg] at htexts
  rcases hm : p.document.setMarkup x.root (x.template.fill texts id) with ⟨result, document⟩
  have hrender : (p.store.object? x.data).isSome → x.template.fill texts id =
      x.template.render (fun key => (p.store.field x.data key).display) id :=
    fun h => congrArg (x.template.fill · id) (htexts h)
  let counted : Page κ := { p with store, document }.modifyCompiler c fun y =>
    { y with initialized := true, renders := y.renders + 1 }
  cases result with
  | error e =>
    refine ⟨_, .error e, counted, ?_, hm, rfl, rfl, rfl, rfl, fun d => ?_, hrender⟩
    · simp only [renderWith, hg, modifyCompiler, hm]
      rfl
    · exact compiler?_modifyCompiler _ c _ d
  | ok a =>
    refine ⟨_, .ok a, counted.modifyCompiler c fun y =>
        { y with lastMarkup := x.template.fill texts id },
      ?_, hm, rfl, rfl, rfl, rfl, fun d => ?_, hrender⟩
    · simp only [renderWith, hg, modifyCompiler, hm]
      rfl
    · rw [compiler?_modifyCompiler, compiler?_modifyCompiler]
      by_cases hcd : c = d
      · rw [if_pos hcd, if_pos hcd, if_pos hcd, Option.map_map]
        rfl
      · rw [if_neg hcd, if_neg hcd, if_neg hcd]
        rfl

theorem compile_of_none {p : Page κ} {c : CompilerId} (h : p.compiler? c = none) :
    p.compile c = (.ok (), p) := by
  rw [compile, h]

theorem compile_of_isEmpty {p : Page κ} {c : CompilerId} {x : Compiler}
    (h : p.compiler? c = some x) (ht : x.template.isEmpty = true) :
    p.compile c = (.ok (), p) := by
  rw [compile, h]
  exact if_pos ht

-- A compile whose watchers could not be made.
theorem Slotted.stopped {p p' : Page κ} {c : CompilerId} {x : Compiler}
    (hx : p.compiler? c = some x) (hi : x.initialized = false)
    (ha : p.store.active x.data.tree ≠ none) (h : p.Slotted c [] p') : p.Stopped c x x p' := by
  refine ⟨h.store, h.active, h.sound, h.only, h.document, h.tables, h.engines, fun d hd => ?_, ?_,
    rfl, fun _ => rfl, .inl ⟨hi, ha, rfl, h.entropy⟩⟩
  · rw [h.compiler, if_neg fun e => hd e.symm]
  · rw [h.compiler, if_pos rfl, hx, Option.map_some, List.append_nil]

-- A compile that drew no id.
theorem Slotted.stopped_of_draw {p p' : Page κ} {c : CompilerId} {x : Compiler}
    {ws : List WatcherId} (hx : p.compiler? c = some x) (h : p.Slotted c ws p')
    (hws : x.initialized = true → ws = [] ∧ p' = p) (hb : x.template.binding? ≠ none)
    {error : EngineError} {ids : IdSource} {entropy : Entropy}
    (hd : x.ids.draw p'.entropy = (.error error, ids, entropy)) :
    p.Stopped c x { x with ids, watchers := x.watchers ++ ws }
      ({ p' with entropy }.modifyCompiler c fun y => { y with ids }) := by
  refine ⟨h.store, h.active, h.sound, h.only, h.document, h.tables, h.engines, fun d hd => ?_, ?_,
    rfl, fun hi => ?_, .inr ⟨hb, error, ?_⟩⟩
  · rw [compiler?_modifyCompiler, if_neg fun e => hd e.symm]
    exact (h.compiler d).trans (if_neg fun e => hd e.symm)
  · rw [compiler?_modifyCompiler, if_pos rfl]
    show (p'.compiler? c).map _ = _
    rw [h.compiler, if_pos rfl, hx]
    rfl
  · show x.watchers ++ ws = x.watchers
    rw [(hws hi).1, List.append_nil]
  · rw [← h.entropy, hd]
    rfl

-- A compile that went through all stages.
theorem Slotted.rendered {p p₁ p₂ : Page κ} {c : CompilerId} {x : Compiler} {ws : List WatcherId}
    (h : p.Slotted c ws p₁) (hws : x.initialized = true → ws = [] ∧ p₁ = p)
    (hmade : x.initialized = false → p.store.Sound → (p.store.object? x.data).isSome →
      p₁.store.WatchesSince p₁.store x.data (.render c) x.template.slots ws ∧
        p₁.store.registered (.ofObject x.data) = p.store.registered (.ofObject x.data) ++ ws)
    {id : Option String} {ids : IdSource}
    (hd : p₁.Drawn c x { x with watchers := x.watchers ++ ws } id ids p₂) :
    ∃ markup result x' p', p₂.renderWith c x id = (result.mapError .document, p') ∧
      p.Rendered c x id markup result x' p' := by
  obtain ⟨markup, result, p', hrun, hdoc, hstore, htables, hengines, hentropy, hcompiler,
    hmarkup⟩ := renderWith_eq p₂ c x id
  have hdata : p₁.store.SameData p'.store := by
    rw [hstore, hd.store]
    exact Store.sameData_getTexts _ _ _
  -- the compiler is found under its own identity through all three stages
  have hnew := (hcompiler c).trans ((if_pos rfl).trans (congrArg (Option.map _) hd.compiler))
  refine ⟨markup, result, _, p', hrun, h.store.trans hdata, fun t => ?_, fun hsound => ?_,
    fun {w y} hy => ?_, ?_, ?_, fun d hdc => ?_, hnew, rfl, rfl, fun hi => ?_, fun hi => ?_,
    fun hi hsound ho => ?_, fun ho => ?_, ?_⟩
  · rw [hstore, hd.store, Store.active_getTexts]
    exact h.active t
  · rw [hstore, hd.store]
    exact (h.sound hsound).getTexts _ _
  · rw [hstore, hd.store, Store.watcher?_getTexts] at hy
    exact h.only hy
  · rw [← h.document, ← hd.document]
    exact hdoc
  · exact hengines.trans (hd.engines.trans h.engines)
  · have hcd : ¬ c = d := fun e => hdc e.symm
    exact (hcompiler d).trans ((if_neg hcd).trans
      ((hd.others d hdc).trans ((h.compiler d).trans (if_neg hcd))))
  · rw [hstore, hd.store, (hws hi).2]
  · show x.watchers ++ ws = x.watchers
    rw [(hws hi).1, List.append_nil]
  · obtain ⟨hw, hreg⟩ := hmade hi hsound ho
    refine ⟨ws, rfl, hw.sameData hdata (h.sound hsound) (h.store.object?_isSome ho), ?_⟩
    rw [← hreg]
    exact hdata.toGrows.registered _
  · have ho₁ := h.store.object?_isSome ho
    rw [hmarkup (by rw [hd.store]; exact ho₁), hd.store]
    exact (h.store.alike ho).render x.template id
  · have hdrawn := hd.drawn
    rw [hentropy, htables]
    cases hb : x.template.binding? with
    | none =>
      simp only [hb] at hdrawn
      rw [← h.entropy, ← h.tables]
      exact hdrawn
    | some b =>
      simp only [hb] at hdrawn
      rw [← h.entropy, ← h.tables]
      exact hdrawn

/-- **The two outcomes of a compile.** -/
theorem compile_cases {p : Page κ} {c : CompilerId} {x : Compiler} (hx : p.compiler? c = some x)
    (ht : x.template.isEmpty = false) :
    (∃ error x' p', p.compile c = (.error error, p') ∧ (∀ d, error ≠ .document d) ∧
      p.Stopped c x x' p') ∨
    ∃ id markup result x' p', p.compile c = (result.mapError .document, p') ∧
      p.Rendered c x id markup result x' p' := by
  have hfull : ¬ x.template.isEmpty = true := by
    rw [ht]
    exact Bool.false_ne_true
  rcases watched_cases p c x with ⟨error, p₁, hw, hi, ha, hs⟩ | ⟨ws, p₁, hw, hs, hinit, hmade⟩
  · have hrun : p.compile c = (.error (.reactive error), p₁) := by
      simp only [compile, hx, if_neg hfull, hw]
    have hother : ∀ d, EngineError.reactive error ≠ .document d := by
      intro d hd
      cases hd
    exact .inl ⟨_, x, p₁, hrun, hother, hs.stopped hx hi ha⟩
  · have hy : p₁.compiler? c = some { x with watchers := x.watchers ++ ws } := by
      rw [hs.compiler, if_pos rfl, hx]
      rfl
    rcases drawId_cases (x := x) hy rfl with ⟨error, ids, entropy, hb, hd, hdraw⟩ |
      ⟨id, ids, p₂, hdraw, hd⟩
    · refine .inl ⟨error, _, _, ?_, draw_error_ne hd, hs.stopped_of_draw hx hinit hb hd⟩
      simp only [compile, hx, if_neg hfull, hw, hdraw]
    · obtain ⟨markup, result, x', p', hrender, hr⟩ := hs.rendered hinit hmade hd
      refine .inr ⟨id, markup, result, x', p', ?_, hr⟩
      simp only [compile, hx, if_neg hfull, hw, hdraw]
      exact hrender

/-- **What a compile makes of the page**, if the compiler is there. -/
theorem compile_found {p : Page κ} {c : CompilerId} {x : Compiler} (hx : p.compiler? c = some x) :
    (p.compile c).2 = p ∨ x.template.isEmpty = false ∧ ∃ y, p.Stopped c x y (p.compile c).2 ∨
      ∃ id markup result, p.Rendered c x id markup result y (p.compile c).2 := by
  cases ht : x.template.isEmpty with
  | true => exact .inl (by rw [compile_of_isEmpty hx ht])
  | false =>
    rcases compile_cases hx ht with ⟨error, y, q, hrun, -, hs⟩ |
      ⟨id, markup, result, y, q, hrun, hr⟩
    · rw [hrun]
      exact .inr ⟨rfl, y, .inl hs⟩
    · rw [hrun]
      exact .inr ⟨rfl, y, .inr ⟨id, markup, result, hr⟩⟩

/-- **What a compile makes of the page**, if it changes it at all. -/
theorem compile_parts (p : Page κ) (c : CompilerId) :
    (p.compile c).2 = p ∨ ∃ x y, p.compiler? c = some x ∧ x.template.isEmpty = false ∧
      (p.Stopped c x y (p.compile c).2 ∨
        ∃ id markup result, p.Rendered c x id markup result y (p.compile c).2) := by
  cases hx : p.compiler? c with
  | none => exact .inl (by rw [compile_of_none hx])
  | some x =>
    rcases compile_found hx with hidle | ⟨ht, y, h⟩
    · exact .inl hidle
    · exact .inr ⟨x, y, rfl, ht, h⟩

-- A compile that succeeded has rendered, and the document has taken the markup.
theorem rendered_of_ok {p q : Page κ} {c : CompilerId} {x : Compiler} (hx : p.compiler? c = some x)
    (ht : x.template.isEmpty = false) (hrun : p.compile c = (.ok (), q)) :
    ∃ id markup x', p.Rendered c x id markup (.ok ()) x' q := by
  rcases compile_cases hx ht with ⟨error, x', p', hrun', -, -⟩ |
    ⟨id, markup, result, x', p', hrun', hr⟩
  · rw [hrun] at hrun'
    cases hrun'
  · rw [hrun] at hrun'
    cases result with
    | error error => cases hrun'
    | ok =>
      cases hrun'
      exact ⟨id, markup, x', hr⟩

-- A compile goes on from what its first two stages left.
theorem compile_of_drawn {p p' q : Page κ} {c : CompilerId} {x : Compiler} {id : Option String}
    (hx : p.compiler? c = some x) (ht : x.template.isEmpty = false)
    (hwatched : (if x.initialized then (.ok (), p)
      else p.watchSlots c x.data x.template.slots) = (.ok (), p'))
    (hdrawn : p'.drawId c x = (.ok id, q)) : p.compile c = q.renderWith c x id := by
  simp only [compile, hx, ht, hwatched, hdrawn, Bool.false_eq_true, if_false]

-- The last stage, where the document takes the markup.
theorem renderWith_of_ok {p : Page κ} {x : Compiler} {id : Option String} {texts : List String}
    {store : Store (Reaction κ)} {document : Document (Listener κ)}
    (hread : p.store.getTexts x.data x.template.slots = (texts, store))
    (hwrite : p.document.setMarkup x.root (x.template.fill texts id) = (.ok (), document))
    (c : CompilerId) :
    p.renderWith c x id =
      (.ok (), ({ p with store, document }.modifyCompiler c fun y =>
        { y with initialized := true, renders := y.renders + 1 }).modifyCompiler c fun y =>
          { y with lastMarkup := x.template.fill texts id }) := by
  simp only [renderWith, modifyCompiler, hread, hwrite]

end Page

end ReactiveView
