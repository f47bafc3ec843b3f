import ReactiveView.Proofs.Page.Growth

/-!
# Mounted views

Once a view is mounted its compiler has one watcher for each placeholder, and these are the first
watchers that its data ever had.  Nothing that happens to a page afterwards takes this away.  The
markup of a view is fresh when it shows the data as it is, or when there is nothing to show because
every placeholder is back at the baseline of its watcher.
-/

namespace ReactiveView

-- An empty template has neither placeholders nor a binding.
theorem Template.of_isEmpty {source : String} (h : (Template.parse source).isEmpty = true) :
    (Template.parse source).slots = [] ∧ (Template.parse source).binding? = none := by
  have hs : source = "" := String.isEmpty_iff.1 h
  rw [hs]
  decide +kernel

namespace Page

variable {κ : Type}

/-! ## 1. The two properties -/

/-- The view `e`, whose compiler is now `x`, is mounted on the page. -/
structure Mounted (p : Page κ) (e : Engine κ) (x : Compiler) : Prop where
  found : p.compiler? e.compiler = some x
  data : x.data = e.data
  root : x.root = e.root
  object : (p.store.object? x.data).isSome
  element : (p.document.element? x.root).isSome
  table : p.HasTable x.table
  blank : x.template.isEmpty = true → x.template.slots = []
  endless : x.ids.Endless
  bound : x.Bound
  settled : x.Settled
  watches : p.store.Watches x.data (.render e.compiler) x.template.slots x.watchers
  first : x.watchers <+: p.store.registered (.ofObject x.data)

/-- The field of a placeholder is strictly equal to the baseline of its watcher. -/
def Unchanged (p : Page κ) (data : ObjectId) (key : String) (w : WatcherId) : Prop :=
  ∃ y, p.store.watcher? w = some y ∧ (p.store.field data key).strictEqual y.baseline = true

/-- What a template shows of the data as it is. -/
def rendering (p : Page κ) (x : Compiler) : String :=
  x.template.render (fun key => (p.store.field x.data key).display) x.lastId

/-- The markup of the compiler `x` is the one that another render would give, or every placeholder
    is as it was when the view was mounted. -/
def Fresh (p : Page κ) (x : Compiler) : Prop :=
  List.Forall₂ (p.Unchanged x.data) x.template.slots x.watchers ∨ x.lastMarkup = p.rendering x

/-- The view `e` has just been mounted: its markup is fresh, and the baselines of its watchers are
    the fields as they are. -/
structure New (p : Page κ) (e : Engine κ) (x : Compiler) : Prop extends p.Mounted e x where
  fresh : p.Fresh x
  since : p.store.WatchesSince p.store x.data (.render e.compiler) x.template.slots x.watchers

/-! ## 2. What keeps them -/

theorem Mounted.grows {p p' : Page κ} (h : p.Grows p') {e : Engine κ} {x : Compiler}
    (hm : p.Mounted e x) : ∃ x', p'.Mounted e x' ∧ x.Continues x' := by
  obtain ⟨x', hx', hc⟩ := h.compiler hm.found
  refine ⟨x', ⟨hx', hc.data.trans hm.data, hc.root.trans hm.root, ?_, ?_, ?_, fun ht => ?_,
    hc.endless hm.endless, hc.bound hm.bound, hc.settled hm.settled, ?_, ?_⟩, hc⟩
  · rw [hc.data]
    exact h.store.object?_isSome hm.object
  · rw [hc.root]
    exact h.element hm.element
  · rw [hc.table]
    exact h.hasTable hm.table
  · rw [hc.template] at ht ⊢
    exact hm.blank ht
  · rw [hc.data, hc.template, hc.watchers hm.settled]
    exact hm.watches.grows h.store
  · rw [hc.data, hc.watchers hm.settled]
    exact hm.first.trans (h.store.registered _)

-- A view is mounted with whatever its compiler has become.
theorem Mounted.grows_found {p p' : Page κ} (h : p.Grows p') {e : Engine κ} {x x' : Compiler}
    (hm : p.Mounted e x) (hx : p'.compiler? e.compiler = some x') : p'.Mounted e x' := by
  obtain ⟨y, hy, -⟩ := hm.grows h
  obtain rfl : y = x' := Option.some.inj (hy.found.symm.trans hx)
  exact hy

theorem Mounted.calm {p p' : Page κ} (h : p.Calm p') {e : Engine κ} {x : Compiler}
    (hm : p.Mounted e x) : p'.Mounted e x :=
  hm.grows_found h.grows (h.compiler hm.found)

theorem Mounted.write {p : Page κ} {e : Engine κ} {x : Compiler} (hm : p.Mounted e x)
    (o : ObjectId) (key : String) (v : Value) :
    Mounted { p with store := p.store.write o key v } e x :=
  hm.grows_found (grows_write p o key v) hm.found

-- Where the data reads alike a placeholder keeps its answer.
theorem unchanged_congr {p p' : Page κ} {data : ObjectId} (h : p.store.Alike p'.store data)
    {c : CompilerId} {keys : List String} {ws : List WatcherId}
    (hw : p.store.Watches data (.render c) keys ws)
    (hf : List.Forall₂ (p.Unchanged data) keys ws) :
    List.Forall₂ (p'.Unchanged data) keys ws := by
  induction hw with
  | nil => exact .nil
  | cons hkw _ ih =>
    cases hf with
    | cons hu hf =>
      refine .cons ?_ (ih hf)
      obtain ⟨number, baseline, hx, hb⟩ := hkw
      obtain ⟨y, hy, heq⟩ := hu
      rw [hx] at hy
      cases hy
      exact ⟨_, h.watcher hx, by rw [h.strictEqual _ hb]; exact heq⟩

-- Markup stays fresh until its data is written or its compiler renders.
theorem Fresh.alike {p p' : Page κ} {e : Engine κ} {x : Compiler} (hm : p.Mounted e x)
    (h : p.store.Alike p'.store x.data) (hf : p.Fresh x) : p'.Fresh x := by
  rcases hf with hf | hf
  · exact .inl (unchanged_congr h hm.watches hf)
  · exact .inr (hf.trans (h.render x.template x.lastId).symm)

theorem Fresh.sameData {p p' : Page κ} {e : Engine κ} {x : Compiler} (hm : p.Mounted e x)
    (h : p.store.SameData p'.store) (hf : p.Fresh x) : p'.Fresh x :=
  hf.alike hm (h.alike hm.object)

/-- **A render that the document takes leaves fresh markup.** -/
theorem Rendered.fresh {p p' : Page κ} {c : CompilerId} {x x' : Compiler} {id : Option String}
    {markup : String} (h : p.Rendered c x id markup (.ok ()) x' p')
    (ho : (p.store.object? x.data).isSome) (hid : x.template.binding? = none → x.lastId = none) :
    x'.lastMarkup = p'.rendering x' := by
  have hframe := h.frame
  have hdata : x'.data = x.data := by rw [hframe]
  have htemplate : x'.template = x.template := by rw [hframe]
  refine h.lastMarkup.trans ?_
  show markup = _
  rw [h.markup ho, rendering, (h.lastId hid).1, hdata, htemplate]
  exact ((h.store.alike ho).render x.template id).symm

-- A new view stays new until something is written or rendered.
theorem New.calm {p p' : Page κ} (h : p.Calm p') (hs : p.store.Sound) {e : Engine κ}
    {x : Compiler} (hn : p.New e x) : p'.New e x :=
  ⟨hn.toMounted.calm h, hn.fresh.sameData hn.toMounted h.store,
    hn.since.sameData h.store hs hn.object⟩

-- A compile of a view that is mounted comes as far as the document.
theorem Mounted.renders {p : Page κ} {e : Engine κ} {x : Compiler} (hm : p.Mounted e x)
    (ht : x.template.isEmpty = false) :
    x.initialized = true ∧ ∃ id markup result x' p',
      p.compile e.compiler = (Except.mapError .document result, p') ∧
        p.Rendered e.compiler x id markup result x' p' ∧ p'.Mounted e x' := by
  have hinit : x.initialized = true := by
    rcases hm.settled with he | hi
    · rw [ht] at he
      cases he
    · exact hi
  rcases compile_cases hm.found ht with ⟨error, x', p', -, -, hs⟩ |
    ⟨id, markup, result, x', p', hrun, hr⟩
  · -- the watchers are there and the source is endless
    rcases hs.cause with ⟨hi, -⟩ | ⟨-, error, hd⟩
    · rw [hinit] at hi
      cases hi
    · obtain ⟨i, ids, e', hok, -⟩ := hm.endless.draw p.entropy
      rw [hok] at hd
      cases hd
  · have hgrows := (recompiled p e.compiler).grows
    rw [hrun] at hgrows
    exact ⟨hinit, id, markup, result, x', p', hrun, hr, hm.grows_found hgrows hr.compiler⟩

-- Every compile of a mounted view leaves fresh markup, where the document takes all writes.
theorem Mounted.compile {p : Page κ} {e : Engine κ} {x : Compiler} (hm : p.Mounted e x)
    (ha : p.document.Accepts) :
    ∃ x' p', p.compile e.compiler = (.ok (), p') ∧ p'.Mounted e x' ∧ p'.Fresh x' := by
  cases ht : x.template.isEmpty with
  | true =>
    refine ⟨x, p, compile_of_isEmpty hm.found ht, hm, .inl ?_⟩
    -- without placeholders there are no watchers either
    have hwatches := hm.watches
    rw [Store.Watches, hm.blank ht] at hwatches
    rw [hm.blank ht, List.forall₂_nil_left_iff.1 hwatches]
    exact .nil
  | false =>
    obtain ⟨-, id, markup, result, x', p', hrun, hr, hm'⟩ := hm.renders ht
    have hid : x.template.binding? = none → x.lastId = none := by
      intro hnone
      have hb := hm.bound
      rw [Compiler.Bound, hnone] at hb
      exact Option.not_isSome_iff_eq_none.1 (by rw [hb]; exact Bool.false_ne_true)
    have hdoc := hr.document
    have hnext : p.document.refusedWrites.refusesNext = false := by
      rw [ha]
      rfl
    rw [Document.setMarkup_of_taken hnext hm.element] at hdoc
    obtain rfl : result = .ok () := (congrArg Prod.fst hdoc).symm
    exact ⟨x', p', hrun, hm', .inr (hr.fresh hm.object hid)⟩

/-! ## 3. Mounting -/

theorem element?_of_byId? {d : Document (Listener κ)} {id : String} {e : ElementId}
    (h : d.byId? id = some e) : (d.element? e).isSome := by
  unfold Document.byId? at h
  obtain ⟨i, hi, rfl⟩ := Option.map_eq_some_iff.1 h
  have hlt := (List.findIdx?_eq_some_iff_getElem.1 hi).1
  show (if i + 1 = 0 then none else d.elements.get? (i + 1 - 1)).isSome = true
  rw [if_neg (Nat.succ_ne_zero i), Nat.add_sub_cancel, Arena.get?_isSome_iff, Arena.size]
  simpa [Arena.toList] using hlt

-- A view with an empty template is mounted before its first compile.
theorem mounted_of_isEmpty {p : Page κ} {vm : ViewModel κ} {config : Config} {root : ElementId}
    (hroot : p.document.byId? config.rootId = some root)
    (ht : (p.stagedCompiler vm config root).template.isEmpty = true) (types : List String) :
    (p.staged vm config root).New (p.stagedEngine vm root types)
      (p.stagedCompiler vm config root) := by
  obtain ⟨hslots, hbinding⟩ := Template.of_isEmpty ht
  have hnil : (p.stagedCompiler vm config root).template.slots = [] := hslots
  have helement := (calm_staged p vm config root).element (element?_of_byId? hroot)
  have hobject := Option.isSome_of_eq_some (object?_staged p vm config root)
  refine ⟨⟨compiler?_staged p vm config root, rfl, rfl, hobject, helement,
    hasTable_staged p vm config root, fun _ => hslots, IdSource.endless_source _, ?_, .inl ht, ?_,
    List.nil_prefix⟩, .inl ?_, ?_⟩
  · exact congrArg Option.isSome hbinding.symm
  · rw [hnil]
    exact .nil
  · rw [hnil]
    exact .nil
  · rw [hnil]
    exact .nil

-- The compiler of a view after its first compile.
theorem mounted_compile {p q : Page κ} {vm : ViewModel κ} {config : Config} {root : ElementId}
    (hs : p.store.Sound) (hroot : p.document.byId? config.rootId = some root)
    (hrun : (p.staged vm config root).compile ⟨p.compilers.size⟩ = (.ok (), q))
    (types : List String) : ∃ x, q.New (p.stagedEngine vm root types) x := by
  have hx := compiler?_staged p vm config root
  have hcalm := calm_staged p vm config root
  have helement := hcalm.element (element?_of_byId? hroot)
  have hobject := Option.isSome_of_eq_some (object?_staged p vm config root)
  cases ht : (p.stagedCompiler vm config root).template.isEmpty with
  | true =>
    rw [compile_of_isEmpty hx ht] at hrun
    cases hrun
    exact ⟨_, mounted_of_isEmpty hroot ht types⟩
  | false =>
    obtain ⟨id, markup, x', hr⟩ := rendered_of_ok hx ht hrun
    have hc := hr.continues ht
    have hframe := hr.frame
    obtain ⟨ws, hws, hsince, hfirst⟩ := hr.made rfl (hcalm.sound hs) hobject
    have hfresh := hr.fresh hobject fun _ => rfl
    have hwatches : q.store.WatchesSince q.store x'.data (.render ⟨p.compilers.size⟩)
        x'.template.slots x'.watchers := by
      rw [hc.data, hc.template, hws]
      exact hsince
    refine ⟨x', ⟨hr.compiler, hc.data, hc.root, ?_, ?_, ?_, fun he => ?_,
      hc.endless (IdSource.endless_source _), (hr.lastId fun _ => rfl).2, .inr ?_,
      hwatches.watches (hr.sound (hcalm.sound hs)), ?_⟩, .inr hfresh, hwatches⟩
    · rw [hc.data]
      exact hr.store.object?_isSome hobject
    · rw [hc.root]
      have hkept := Document.element?_setMarkup_isSome helement root markup
      have hdocument := hr.document
      change (p.staged vm config root).document.setMarkup root markup = _ at hdocument
      rw [hdocument] at hkept
      exact hkept
    · rw [hc.table]
      exact hr.hasTable (hasTable_staged p vm config root)
    · rw [hc.template, ht] at he
      cases he
    · rw [hframe]
    · -- nobody has watched the new data before
      rw [hc.data, hws]
      rw [Store.registered_eq (object?_staged p vm config root)] at hfirst
      exact hfirst

-- A view on the page after a mount was there before, or is the new one.
theorem engine?_mount {p : Page κ} {vm : ViewModel κ} {config : Config} {e : EngineId}
    {engine : Engine κ} (hs : p.store.Sound)
    (he : (p.mount vm config).2.engine? e = some engine) :
    p.engine? e = some engine ∨
      (p.mount vm config).1 = .ok e ∧ ∃ x, (p.mount vm config).2.New engine x := by
  rcases (mounting p vm config).engine? he with he | ⟨hok, root, q, types, q', hroot, hcompile,
    hbind, rfl, hmounted⟩
  · exact .inl he
  · obtain ⟨x, hx⟩ := mounted_compile hs hroot hcompile types
    have hsound := (recompiled (p.staged vm config root) ⟨p.compilers.size⟩).sound
      ((calm_staged p vm config root).sound hs)
    rw [hcompile] at hsound
    have hcalm := (still_of_bind hbind).calm.trans
      (calm_engine q' (p.stagedEngine vm root types))
    rw [hmounted]
    exact .inr ⟨hok, x, hx.calm hcalm hsound⟩

-- A mount that succeeds leaves a new view.
theorem new_of_mount_ok {p q : Page κ} {vm : ViewModel κ} {config : Config} {e : EngineId}
    (hs : p.store.Sound) (h : p.mount vm config = (.ok e, q)) :
    ∃ engine x, q.engine? e = some engine ∧ q.New engine x := by
  have hmounting := mounting p vm config
  have hq : (p.mount vm config).2 = q := by rw [h]
  rw [h] at hmounting
  obtain ⟨hold, hthere⟩ := hmounting.new
  obtain ⟨engine, he⟩ := Option.isSome_iff_exists.1 hthere
  rcases engine?_mount hs (hq.symm ▸ he) with hbefore | ⟨-, x, hnew⟩
  · rw [hold] at hbefore
    cases hbefore
  · rw [hq] at hnew
    exact ⟨engine, x, he, hnew⟩

/-! ## 4. Pages that can be reached -/

/-- What holds of every page: the store is sound, and every view is mounted. -/
structure Orderly (p : Page κ) : Prop where
  sound : p.store.Sound
  mounted : ∀ {e engine}, p.engine? e = some engine → ∃ x, p.Mounted engine x

theorem orderly_of_document (document : Document (Listener κ)) (entropy : Entropy) :
    Orderly { document, entropy : Page κ } :=
  ⟨Store.Sound.empty, fun h => nomatch h⟩

theorem Orderly.grows {p p' : Page κ} (h : p.Orderly) (hg : p.Grows p')
    (he : p'.engines = p.engines) : p'.Orderly := by
  refine ⟨hg.sound h.sound, fun {e engine} hthere => ?_⟩
  rw [engine?, he] at hthere
  obtain ⟨x, hx⟩ := h.mounted hthere
  obtain ⟨x', hx', -⟩ := hx.grows hg
  exact ⟨x', hx'⟩

theorem Orderly.mount {p : Page κ} (h : p.Orderly) (vm : ViewModel κ) (config : Config) :
    (p.mount vm config).2.Orderly := by
  have hcalm := calm_mount p vm config
  refine ⟨hcalm.sound h.sound, fun {e engine} hthere => ?_⟩
  rcases engine?_mount h.sound hthere with hthere | ⟨-, x, hx⟩
  · obtain ⟨x, hx⟩ := h.mounted hthere
    exact ⟨x, hx.calm hcalm⟩
  · exact ⟨x, hx.toMounted⟩

theorem Orderly.move {permits : Request κ → Prop} {p p' : Page κ} (h : p.Orderly)
    (hp : p.Move permits p') : p'.Orderly := by
  rcases hp.engines_or_mount with he | ⟨vm, config, -, rfl⟩
  · exact h.grows hp.grows he
  · exact h.mount vm config

theorem Orderly.write {p : Page κ} (h : p.Orderly) (o : ObjectId) (key : String) (v : Value) :
    Orderly { p with store := p.store.write o key v } :=
  h.grows (grows_write p o key v) rfl

end Page

end ReactiveView
