import ReactiveView.Proofs.Client.Origins
import ReactiveView.Proofs.Observable.Snapshot
import ReactiveView.Proofs.Page.Repeating

/-!
# Compiling again

A view can be compiled any number of times.  As long as nothing fails and the ids are new, neither the
data nor what depends on it is touched: the table gets a row and the document a write each time, and
the markups are the same up to the id.  What stands around the id follows from the template and the
data, whether the view was just mounted, compiled again or brought up to date by one of its watchers.
-/

namespace ReactiveView

variable {κ σ : Type}

/-! ## 1. Ways to a render -/

/-- The template of `c` was rendered on the way from `w` to the other world: the view of `c` was
    mounted, `c` was compiled, or a watcher of `c` was updated and reacted. -/
inductive World.Renders (holds : σ → List Node) (serve : Cue κ → Run κ σ Unit) (w : World κ σ)
    (c : CompilerId) : World κ σ → Prop where
  | mounted {vm config e engine q} (h : w.page.mount vm config = (.ok e, q))
    (he : q.engine? e = some engine) (hc : engine.compiler = c) :
    Renders holds serve w c { w with page := q }
  | compiled {q} (h : w.page.compile c = (.ok (), q)) :
    Renders holds serve w c { w with page := q }
  | reacted {u x w'} (hx : w.page.store.watcher? u = some x) (hr : x.reaction = .render c)
    (h : u.update holds serve w = some (.ok (), w'))
    (hc : w'.page.compiler? c ≠ w.page.compiler? c) : Renders holds serve w c w'

/-- The element of `x` shows the template filled with the data as it is, and an id if the template
    binds something. -/
def Page.Displays (p : Page κ) (x : Compiler) : Prop :=
  ∃ id el, p.document.element? x.root = some el ∧ (id = none ↔ x.template.binding? = none) ∧
    el.markup = x.template.marked (x.template.textsOf (p.store.snapshot x.data)) id

namespace Page

variable {p q : Page κ} {c : CompilerId} {x y : Compiler}

theorem Displays.still (h : p.Displays x) (hs : p.Still q) (hstore : q.store = p.store) :
    q.Displays x := by
  obtain ⟨id, el, hel, hid, hmarkup⟩ := h
  obtain ⟨el', hel', hsame, -⟩ := hs.element hel
  exact ⟨id, el', hel', hid, by rw [hsame, hmarkup, hstore]⟩

theorem Displays.continues (h : p.Displays x) (hc : x.Continues y) : p.Displays y := by
  rw [Displays, hc.template, hc.root, hc.data]
  exact h

theorem forest_compile (hf : p.store.Forest) (c : CompilerId) :
    (p.compile c).2.store.Forest :=
  (p.compile_permitted c fun _ => True).keeps Store.Forest (fun _ hs => hs.change _) hf

/-- **What a compile displays.** -/
theorem displays_compile (hf : p.store.Forest) (hx : p.compiler? c = some x)
    (hfull : x.template.isEmpty = false) (hparsed : ∃ source, x.template = Template.parse source)
    (ho : (p.store.object? x.data).isSome) (hrun : p.compile c = (.ok (), q)) :
    q.Displays x := by
  have hforest := forest_compile hf c
  rw [hrun] at hforest
  obtain ⟨id, markup, x', hr⟩ := rendered_of_ok hx hfull hrun
  obtain ⟨el, hel, hmarkup⟩ := Document.element?_of_setMarkup_ok hr.document
  have hid : id = none ↔ x.template.binding? = none := by
    have hdrawn := hr.drawn
    cases hb : x.template.binding? with
    | none =>
      simp only [hb] at hdrawn
      simp [hdrawn.1]
    | some b =>
      simp only [hb] at hdrawn
      obtain ⟨i, rfl, -⟩ := hdrawn
      simp
  have hshown := hr.markup ho
  rw [← (hr.store.alike ho).render x.template id] at hshown
  refine ⟨id, el, hel, hid, ?_⟩
  obtain ⟨source, hsource⟩ := hparsed
  rw [hmarkup, hshown, Template.render, ← texts_of_forest hforest, texts]
  rw [hsource] at hid ⊢
  exact Template.fill_eq_marked hid.2 _

-- The same for the compiler as it is behind the compile.
theorem displays_compiled (hf : p.store.Forest) (hparsed : p.Parsed)
    (ho : ∀ y, p.compiler? c = some y → (p.store.object? y.data).isSome)
    (hrun : p.compile c = (.ok (), q)) (hx : q.compiler? c = some x)
    (hfull : x.template.isEmpty = false) : q.Displays x := by
  have hthere : (p.compile c).2.compiler? c = some x := by
    rw [hrun]
    exact hx
  obtain ⟨y, hy, hcont⟩ := compiler?_compile hthere
  rw [hcont.template] at hfull
  exact (displays_compile hf hy hfull (hparsed c y hy) (ho y hy) hrun).continues hcont

-- A view that has been mounted displays what its first compile wrote.
theorem displays_mount {vm : ViewModel κ} {config : Config} {e : EngineId} {engine : Engine κ}
    (hf : p.store.Forest) (h : p.mount vm config = (.ok e, q)) (he : q.engine? e = some engine)
    (hx : q.compiler? engine.compiler = some x) (hfull : x.template.isEmpty = false) :
    q.Displays x := by
  have hmounting := mounting p vm config
  rw [h] at hmounting
  have hnew := hmounting.new.1
  obtain rfl : (p.mount vm config).2 = q := congrArg Prod.snd h
  obtain ⟨root, q, q', hcompile, -, hcont, hstill, hstore, hmounted⟩ :=
    compiled_mount hnew he hx
  rw [hcont.template] at hfull
  have hforest : (p.staged vm config root).store.Forest := hf.change (.observe vm.data none)
  have hdisplays := displays_compile hforest (compiler?_staged p vm config root) hfull
    ⟨vm.template, rfl⟩ (Option.isSome_of_eq_some (object?_staged p vm config root)) hcompile
  have hdone : q'.Displays x := (hdisplays.continues hcont).still hstill hstore
  rw [hmounted]
  exact hdone

end Page

-- A failure under another name is still one.
@[simp]
theorem mapError_eq_ok {ε ε' α : Type} {r : Except ε α} {f : ε → ε'} {a : α} :
    r.mapError f = .ok a ↔ r = .ok a := by
  cases r <;> simp [Except.mapError]

-- An update of a watcher that renders is a read, and a compile if anything.
theorem WatcherId.update_of_render {holds : σ → List Node} {serve : Cue κ → Run κ σ Unit}
    {u : WatcherId} {x : Watcher (Reaction κ)} {c : CompilerId} {w w' : World κ σ}
    (hx : w.page.store.watcher? u = some x) (hr : x.reaction = .render c)
    (h : u.update holds serve w = some (.ok (), w')) :
    w'.page.compiler? c = w.page.compiler? c ∨
      (w.read x.source x.property).page.compile c = (.ok (), w'.page) := by
  rw [update_of_some holds serve hx] at h
  split at h
  · split at h
    · cases h
      exact .inl rfl
    · obtain ⟨w₁, h₁, rfl⟩ := Run.pinning_eq_some h
      obtain ⟨r, h₂, hok⟩ := Run.mapFailure_eq_some h₁
      rw [hr] at h₂
      change (Run.isAlive holds (.compiler c) >>= _) _ = _ at h₂
      rw [Run.bind_of_ok (Run.isAlive_apply holds _ _)] at h₂
      split at h₂
      · obtain rfl := mapError_eq_ok.1 hok.symm
        obtain ⟨hresult, rfl⟩ := Prod.mk.inj (Option.some.inj h₂)
        exact .inr (Prod.ext (mapError_eq_ok.1 hresult) rfl)
      · cases h₂
        exact .inl rfl
  · cases h
    exact .inl rfl

/-- **Every way to a render ends with the same display.** -/
theorem World.Renders.displays {holds : σ → List Node} {serve : Cue κ → Run κ σ Unit}
    {w w' : World κ σ} {c : CompilerId} {x : Compiler} (h : w.Renders holds serve c w')
    (hf : w.page.store.Forest) (hparsed : w.page.Parsed)
    (ho : ∀ y, w.page.compiler? c = some y → (w.page.store.object? y.data).isSome)
    (hx : w'.page.compiler? c = some x) (hfull : x.template.isEmpty = false) :
    w'.page.Displays x := by
  cases h with
  | mounted h he hc =>
    rw [← hc] at hx
    exact Page.displays_mount hf h he hx hfull
  | compiled h => exact Page.displays_compiled hf hparsed ho h hx hfull
  | @reacted u y _ hy hr h hc =>
    have hrun := (WatcherId.update_of_render hy hr h).resolve_left hc
    have hread : (w.read y.source y.property).page.store.Forest :=
      hf.change (.read y.source y.property)
    exact Page.displays_compiled hread (hparsed.of_compilers rfl)
      (fun z hz => (Store.sameData_get _ _ _).object?_isSome (ho z hz)) hrun hx hfull

/-! ## 2. Any number of compiles -/

/-- **Compiles in a row differ in their ids.**  Whatever an empty page has been led to, each view has a
    compiler that can go on, with a source that never runs dry.  Where nobody is collecting in the
    tree of its data, a compiler that can go on may compile any number of times: an empty template is
    left alone; and for every other one, if the document takes the writes and the ids that are asked
    for come and are new, all compiles succeed, and snapshots, nested observables, registries,
    watchers and collections are as before.  The table has a row more for each id, the element a
    write more for each compile, and the markups are the texts before and behind the id, which follow
    from template and data.  Whether the view was mounted, compiled or updated by a watcher, these
    two texts are what its element shows. -/
theorem compiles_differ_in_ids {document : Document (Listener κ)} {entropy : Entropy}
    {edits : TableId → Prop} {p : Page κ}
    (hleads : Page.Leads Request.WellFormed edits { document, entropy } p) :
    (∀ {e engine}, p.engine? e = some engine → ∃ x, p.Equipped engine.compiler x ∧
      x.data = engine.data ∧ x.root = engine.root ∧
      ∀ n, (p.nextIds x n).length = if x.template.binding?.isSome then n else 0) ∧
    (∀ {c x}, p.Equipped c x → p.store.active x.data.tree = none →
      (x.template.isEmpty = true → ∀ n, p.compiles c n = p ∧ (p.compile c).1 = .ok ()) ∧
      (x.template.isEmpty = false → ∀ n, p.Unfailing x n → p.Repeats c x n)) ∧
    ∀ {σ : Type} {holds : σ → List Node} {serve : Cue κ → Run κ σ Unit} {client : σ}
      {pins : List Node} {w : World κ σ} {c x},
      World.Renders holds serve ⟨p, client, pins⟩ c w →
      (∀ y, p.compiler? c = some y → (p.store.object? y.data).isSome) →
      w.page.compiler? c = some x → x.template.isEmpty = false → w.page.Displays x := by
  obtain ⟨hforest, hmapped⟩ := hleads.course course_mapped
  have horderly := hleads.orderly
  have hparsed := hleads.parsed
  refine ⟨fun {e engine} he => ?_, fun {c x} hx ha => ⟨fun ht n => ?_, fun hfull n hw => ?_⟩,
    fun hrender ho hx hfull => hrender.displays hforest hparsed ho hx hfull⟩
  · obtain ⟨x, hx⟩ := horderly.mounted he
    exact ⟨x, hx.equipped, hx.data, hx.root, Page.length_nextIds hx.endless p⟩
  · exact ⟨Page.compiles_of_isEmpty hx.found ht n,
      congrArg Prod.fst (Page.compile_of_isEmpty hx.found ht)⟩
  · exact hx.repeats ⟨hforest, hmapped⟩ hfull (hparsed c x hx.found) ha hw

/-- A view with a text and a button. -/
def blinkView : ViewModel Unit :=
  { template := "<b @click=\"blink\">\x7b\x7ba\x7d\x7d</b>", data := [("a", .text "on")] }

/-- The page on which the view has been mounted, and its text written. -/
def blinkWritten : Page Unit :=
  let p := (Page.mount { document := .ofIds ["root"] } blinkView { ids := .sequential "k" }).2
  { p with store := p.store.write ⟨⟨0⟩, 0⟩ "a" (.text "off") }

theorem blinkWritten_leads :
    Page.Leads Request.WellFormed (fun _ => False) { document := .ofIds ["root"] }
      blinkWritten := by
  refine .write (.move .refl (.mount blinkView _ ⟨fun fields hf => ?_, (fun h => nomatch h)⟩))
    ⟨(fun _ h => nomatch h), fun h => ?_⟩
  · cases hf
    exact ⟨by simp [Fields.Ordered, blinkView], trivial, trivial⟩
  · cases h
    trivial

-- A write updates the watchers of the object next.
theorem compiles_differ_in_ids_blink :
    ∃ x, blinkWritten.compiler? ⟨0⟩ = some x ∧ blinkWritten.Repeats ⟨0⟩ x 2 ∧
      blinkWritten.nextIds x 2 = ["k2", "k3"] ∧
      x.template.front ["off"] = "<b @click=\"blink\"" ∧
      x.template.back ["off"] = ">off</b>" ∧
      ∃ w y, WatcherId.update (fun _ => [.engine ⟨0⟩]) (fun _ => Run.exhausted) ⟨⟨0⟩, 0⟩
          ⟨blinkWritten, (), []⟩ = some (.ok (), w) ∧
        w.page.compiler? ⟨0⟩ = some y ∧ w.page.Displays y := by
  have hthere : (blinkWritten.engine? ⟨0⟩).isSome = true := by decide +kernel
  have hfacts : ∀ engine ∈ blinkWritten.engine? ⟨0⟩, engine.compiler = ⟨0⟩ ∧
      ∀ x ∈ blinkWritten.compiler? ⟨0⟩, blinkWritten.store.active x.data.tree = none ∧
        x.template.isEmpty = false ∧
        (∀ i < 2, blinkWritten.document.refusedWrites.refuses i = false) ∧
        blinkWritten.nextIds x 2 = ["k2", "k3"] ∧ (blinkWritten.table x.table).ids = ["k1"] ∧
        x.renders = 1 ∧
        x.template.front ["off"] = "<b @click=\"blink\"" ∧
        x.template.back ["off"] = ">off</b>" := by decide +kernel
  have hwatcher : ∃ u, blinkWritten.store.watcher? ⟨⟨0⟩, 0⟩ = some u ∧
      u.reaction = .render ⟨0⟩ := ⟨_, rfl, rfl⟩
  have hupdated : ∃ w y, WatcherId.update (fun _ => [.engine ⟨0⟩]) (fun _ => Run.exhausted)
      ⟨⟨0⟩, 0⟩ (⟨blinkWritten, (), []⟩ : World Unit Unit) = some (.ok (), w) ∧
        w.page.compiler? ⟨0⟩ = some y ∧ y.renders = 2 ∧ y.template.isEmpty = false :=
    ⟨_, _, rfl, rfl, by decide +kernel, by decide +kernel⟩
  obtain ⟨u, hu, hreaction⟩ := hwatcher
  obtain ⟨w, y, hupdate, hy, hsecond, hstill⟩ := hupdated
  obtain ⟨engine, he⟩ := Option.isSome_iff_exists.1 hthere
  obtain ⟨hcompiler, hfacts⟩ := hfacts engine he
  obtain ⟨hviews, hcompiles, hrenders⟩ := compiles_differ_in_ids blinkWritten_leads
  obtain ⟨x, hx, -, -, hgives⟩ := hviews he
  rw [hcompiler] at hx
  obtain ⟨hactive, hfull, htakes, hids, htable, hfirst, hfront, hback⟩ := hfacts x hx.found
  have hunfailing : blinkWritten.Unfailing x 2 := by
    refine ⟨htakes, hgives 2, ?_⟩
    rw [hids, htable]
    decide
  have hrendered : w.page.compiler? ⟨0⟩ ≠ blinkWritten.compiler? ⟨0⟩ := by
    rw [hy, hx.found]
    rintro heq
    cases heq
    rw [hfirst] at hsecond
    cases hsecond
  refine ⟨x, hx.found, (hcompiles hx hactive).2 hfull 2 hunfailing, hids, hfront, hback, w, y,
    hupdate, hy, hrenders (.reacted hu hreaction hupdate hrendered) (fun z hz => ?_) hy hstill⟩
  obtain rfl : x = z := Option.some.inj (hx.found.symm.trans hz)
  exact hx.object

/-- A view with an empty template. -/
def blankView : ViewModel Unit := { template := "" }

/-- The page on which that view has just been mounted. -/
def blankMounted : Page Unit :=
  (Page.mount { document := .ofIds ["root"] } blankView {}).2

-- Nothing is ever written for an empty template.
theorem blank_unwritten :
    ∃ engine x, blankMounted.engine? ⟨0⟩ = some engine ∧
      blankMounted.Equipped engine.compiler x ∧
      blankMounted.store.active x.data.tree = none ∧ blankMounted.Unfailing x 1 ∧
      (blankMounted.compile engine.compiler).1 = .ok () ∧
      ((blankMounted.compiles engine.compiler 1).document.element? x.root).map Element.writes ≠
        (blankMounted.document.element? x.root).map fun el => el.writes + 1 := by
  have hthere : ((blankMounted.engine? ⟨0⟩).bind fun engine =>
      blankMounted.compiler? engine.compiler).isSome = true := by decide +kernel
  have hfacts : ∀ engine ∈ blankMounted.engine? ⟨0⟩,
      ∀ x ∈ blankMounted.compiler? engine.compiler, x.template.isEmpty = true ∧
        (blankMounted.store.object? x.data).isSome = true ∧
        (blankMounted.document.element? x.root).isSome = true ∧ blankMounted.HasTable x.table ∧
        blankMounted.store.active x.data.tree = none ∧ blankMounted.nextIds x 1 = [] ∧
        x.template.binding? = none ∧
        blankMounted.document.refusedWrites.refuses 0 = false := by decide +kernel
  obtain ⟨x, hx⟩ := Option.isSome_iff_exists.1 hthere
  obtain ⟨engine, he, hx⟩ := Option.bind_eq_some_iff.1 hx
  obtain ⟨ht, ho, hroot, htable, hactive, hids, hb, htakes⟩ := hfacts engine he x hx
  refine ⟨engine, x, he, ⟨hx, .inl ht, ho, hroot, htable⟩, hactive, ⟨fun i hi => ?_, ?_, ?_⟩,
    congrArg Prod.fst (Page.compile_of_isEmpty hx ht), ?_⟩
  · rw [Nat.lt_one_iff.1 hi]
    exact htakes
  · rw [hids, hb]
    rfl
  · rw [hids]
    exact ⟨List.nodup_nil, fun _ hid => nomatch hid⟩
  · obtain ⟨el, hel⟩ := Option.isSome_iff_exists.1 hroot
    rw [Page.compiles_of_isEmpty hx ht, hel]
    simp

end ReactiveView
