import ReactiveView.Proofs.Document.Reading
import ReactiveView.Proofs.Page.Showing
import ReactiveView.Proofs.View.Dispatch

/-!
# What has just been rendered can be clicked

A render writes the id that it drew right behind the binding attribute, whatever stands there, and
the document finds the ids again by reading the markup.  The two agree where the attribute is legible:
what follows the id must not go on with it, and nothing before it may be read as a value that reaches
across it.
-/

namespace ReactiveView

variable {κ : Type}

/-! ## 1. Renders -/

/-- The view `e` has just rendered on the way from `p` to the other page: it was mounted, or its
    compiler compiled, and nothing failed. -/
inductive Page.Renders (p : Page κ) (e : EngineId) : Page κ → Prop where
  | mounted {vm config p'} (h : p.mount vm config = (.ok e, p')) : Renders p e p'
  | compiled {engine p'} (he : p.engine? e = some engine)
    (h : p.compile engine.compiler = (.ok (), p')) : Renders p e p'

theorem Page.Renders.move {p p' : Page κ} {e : EngineId} (h : p.Renders e p') :
    p.Move (fun _ => True) p' := by
  cases h with
  | @mounted vm config _ h =>
    have hmove : p.Move (fun _ => True) (p.mount vm config).2 := .mount vm config trivial
    rwa [h] at hmove
  | @compiled engine _ _ h =>
    have hmove : p.Move (fun _ => True) (p.compile engine.compiler).2 :=
      .compile engine.compiler (.inl trivial)
    rwa [h] at hmove

variable {p p' : Page κ} {e : EngineId} {engine : Engine κ} {x : Compiler} {stem : String}
  {next : Nat}

-- A view that has been mounted shows what its first compile wrote.
theorem Page.shows_mount {vm : ViewModel κ} {config : Config} (hnew : p.engine? e = none)
    (he : (p.mount vm config).2.engine? e = some engine)
    (hx : (p.mount vm config).2.compiler? engine.compiler = some x)
    (hids : x.ids = .sequential stem next) (hbinding : x.template.binding? ≠ none) :
    ∃ n el, next = n + 1 ∧ (p.mount vm config).2.Shows x (stem ++ Text.Base36.encode n)
      ((p.mount vm config).2.texts x) el := by
  obtain ⟨root, q, q', hcompile, hx', hcont, hstill, hstore, hmounted⟩ :=
    Page.compiled_mount hnew he hx
  rw [hcont.template] at hbinding
  have hempty : (p.staged vm config root).table ⟨p.tables.size⟩ = .empty := by
    show ((p.tables.push BindingTable.empty).get? p.tables.size).getD .empty = .empty
    rw [Arena.get?_push, if_pos rfl]
    rfl
  obtain ⟨n, el, hn, hshows⟩ := Page.shows_compile (Page.compiler?_staged p vm config root) hcompile
    hx' hids hbinding ⟨vm.template, rfl⟩
    (Option.isSome_of_eq_some (Page.object?_staged p vm config root))
    (Page.hasTable_staged p vm config root) fun id hid => by
      rw [show (p.stagedCompiler vm config root).table = ⟨p.tables.size⟩ from rfl, hempty] at hid
      cases hid
  obtain ⟨el', hshows'⟩ := hshows.still hstill
  have htexts : q'.texts x = q.texts x := by rw [Page.texts, Page.texts, hstore]
  rw [← htexts] at hshows'
  rw [hmounted]
  exact ⟨n, el', hn, hshows'.element, hshows'.markup, hshows'.latest⟩

-- A view whose compiler has compiled shows what that wrote.
theorem Page.Regular.shows_compile (hp : p.Regular) (he : p.engine? e = some engine)
    (hrun : p.compile engine.compiler = (.ok (), p')) (hx : p'.compiler? engine.compiler = some x)
    (hown : p'.OwnsTable engine.compiler x) (hids : x.ids = .sequential stem next)
    (hbinding : x.template.binding? ≠ none) :
    ∃ n el, next = n + 1 ∧ p'.Shows x (stem ++ Text.Base36.encode n) (p'.texts x) el := by
  obtain ⟨y, hy⟩ := hp.mounted he
  have hgrows := (Page.recompiled p engine.compiler).grows
  rw [hrun] at hgrows
  obtain ⟨x', hx', hcont⟩ := hgrows.compiler hy.found
  obtain rfl : x' = x := Option.some.inj (hx'.symm.trans hx)
  rw [hcont.template] at hbinding
  refine Page.shows_compile hy.found hrun hx hids hbinding (hp.parsed _ _ hy.found) hy.object
    hy.table fun id hid => ?_
  -- the ids of the table were given by compilers that fill it, and there is no other
  obtain ⟨d, z, hz, htable, hgiven⟩ := hp.traced hid
  obtain ⟨z', hz', hzcont⟩ := hgrows.compiler hz
  obtain rfl := hown hz' (by rw [hzcont.table, htable, hcont.table])
  obtain rfl : z = y := Option.some.inj (hz.symm.trans hy.found)
  exact hgiven

theorem Page.Renders.shows (hrender : p.Renders e p') (hp : p.Regular)
    (he : p'.engine? e = some engine) (hx : p'.compiler? engine.compiler = some x)
    (hown : p'.OwnsTable engine.compiler x) (hids : x.ids = .sequential stem next)
    (hbinding : x.template.binding? ≠ none) :
    ∃ n el, next = n + 1 ∧ p'.Shows x (stem ++ Text.Base36.encode n) (p'.texts x) el := by
  cases hrender with
  | @mounted vm config _ h =>
    have hmounting := Page.mounting p vm config
    rw [h] at hmounting
    have hnew := hmounting.new.1
    obtain rfl : (p.mount vm config).2 = p' := congrArg Prod.snd h
    exact Page.shows_mount hnew he hx hids hbinding
  | @compiled engine' _ he' h =>
    have hengines := (Page.recompiled p engine'.compiler).engines
    rw [h] at hengines
    rw [Page.engine?, hengines] at he
    obtain rfl : engine' = engine := Option.some.inj (he'.symm.trans he)
    exact hp.shows_compile he h hx hown hids hbinding

/-! ## 2. The latest id -/

/-- The ids of the source can be written without quotes. -/
def IdSource.Bare : IdSource → Prop
  | .random => True
  | .sequential stem _ => ∀ c ∈ stem.toList, IdAttribute.isBareChar c = true
  | .listed _ => False

theorem IdSource.Bare.draw {s : IdSource} (h : s.Bare) (e : Entropy) :
    ∃ id s' e', s.draw e = (.ok id, s', e') ∧ s'.Bare ∧ id.toList ≠ [] ∧
      ∀ c ∈ id.toList, IdAttribute.isBareChar c = true := by
  cases s with
  | random =>
    exact ⟨_, _, _, rfl, trivial, Text.Base36.encode_ne_nil _,
      fun c hc => IdAttribute.isBareChar_of_mem_encode hc⟩
  | sequential stem next =>
    refine ⟨_, _, _, rfl, h, ?_, fun c hc => ?_⟩
    · rw [String.toList_append]
      exact fun h => Text.Base36.encode_ne_nil next (List.append_eq_nil_iff.1 h).2
    · rw [String.toList_append] at hc
      rcases List.mem_append.1 hc with hc | hc
      · exact h c hc
      · exact IdAttribute.isBareChar_of_mem_encode hc
  | listed ids => exact h.elim

theorem IdSource.Bare.endless {s : IdSource} (h : s.Bare) : s.Endless := by
  cases s with
  | listed ids => exact h
  | _ => trivial

theorem IdSource.Bare.firstIds {s : IdSource} (h : s.Bare) (e : Entropy) (n : Nat) :
    ∀ id ∈ s.firstIds n e, id.toList ≠ [] ∧ ∀ c ∈ id.toList, IdAttribute.isBareChar c = true := by
  induction n generalizing s e with
  | zero => exact fun _ hid => nomatch hid
  | succ n ih =>
    obtain ⟨id, s', e', hd, hs', hid⟩ := h.draw e
    rw [IdSource.firstIds, hd]
    intro q hq
    rcases List.mem_cons.1 hq with rfl | hq
    · exact hid
    · exact ih hs' e' q hq

-- An id that is written into a template is found again, wherever it is legible.
theorem Template.mem_values_fill {source : String} {b : Binding}
    (hb : (Template.parse source).binding? = some b) (texts : List String) {id : String}
    (hne : id.toList ≠ []) (hbare : ∀ c ∈ id.toList, IdAttribute.isBareChar c = true)
    (hlegible : IdAttribute.LegibleAt ((Template.parse source).fill texts (some id))
        ((Template.parse source).idOffset texts) id ∨
      IdAttribute.nameCount ((Template.parse source).fill texts none).toList = 0 ∧
        ∀ c ∈ ((Template.parse source).fill texts none).toList[
            (Template.parse source).idOffset texts]?, IdAttribute.isBareChar c = false) :
    id ∈ IdAttribute.values ((Template.parse source).fill texts (some id)) := by
  obtain ⟨before, after, hlength, hplain, hfilled⟩ := Template.fill_insert hb texts id
  rw [← hlength, hplain] at hlegible
  refine IdAttribute.mem_values_of_legible hfilled hne hbare ?_
  rcases hlegible with hlegible | ⟨hcount, hends⟩
  · exact hlegible
  · refine IdAttribute.legibleAt_of_plain hfilled hcount fun c hc => hends c ?_
    rw [List.getElem?_append_right (Nat.le_refl _), Nat.sub_self, ← List.head?_eq_getElem?]
    exact hc

/-- **The id just rendered can be clicked**, wherever it is legible.  Whatever a page without views
    has been led to, when a view with sequential ids has been mounted or has rendered again, its
    element shows the template with the latest id of the table behind the binding attribute.  If that
    id is legible there, the document finds it, and an event of the template's type that is sent to it
    reaches the listener of the view; and it is legible if the markup without it has no text `id=` and
    goes on behind the binding attribute with a character that ends a value. -/
theorem latest_clickable {document : Document (Listener κ)} {entropy : Entropy}
    (hleads : Page.Leads (fun _ => True) (fun _ => False) { document, entropy } p)
    (hrender : p.Renders e p') (he : p'.engine? e = some engine)
    (hx : p'.compiler? engine.compiler = some x) (hown : p'.OwnsTable engine.compiler x)
    (hids : x.ids = .sequential stem next)
    (hstem : ∀ c ∈ stem.toList, IdAttribute.isBareChar c = true) {b : Binding}
    (hb : x.template.binding? = some b) :
    ∃ id el, (p'.table x.table).latest? = some id ∧
      p'.document.element? engine.root = some el ∧
      el.markup = x.template.fill (p'.texts x) (some id) ∧
      (IdAttribute.LegibleAt el.markup (x.template.idOffset (p'.texts x)) id ∨
          IdAttribute.nameCount (x.template.fill (p'.texts x) none).toList = 0 ∧
            (∀ c ∈ (x.template.fill (p'.texts x) none).toList[x.template.idOffset (p'.texts x)]?,
              IdAttribute.isBareChar c = false) →
        (∃ shown, p'.document.renderedIds engine.root = .ok shown ∧ id ∈ shown) ∧
        ∃ listeners, p'.document.reached engine.root b.eventType id = .ok listeners ∧
          .delegate x.table engine.receiver.methods engine.receiver ∈ listeners) := by
  have hmove := hrender.move
  have hregular := hleads.regular
  have hregular' := hmove.regular hregular
  obtain ⟨n, el, -, hshows⟩ := hrender.shows hregular he hx hown hids (by rw [hb]; simp)
  obtain ⟨y, hy⟩ := hregular'.mounted he
  obtain rfl : y = x := Option.some.inj (hy.found.symm.trans hx)
  have hel := hshows.element
  rw [hy.root] at hel
  refine ⟨_, el, hshows.latest, hel, hshows.markup, fun hlegible => ?_⟩
  -- the id is a number behind the stem, and so it holds no character that would end it
  have hin : stem ++ Text.Base36.encode n ∈ IdAttribute.values el.markup := by
    obtain ⟨source, hsource⟩ := hregular'.parsed _ _ hx
    obtain ⟨id, s', e', hdraw, -, hne, hbare⟩ :=
      IdSource.Bare.draw (s := .sequential stem n) hstem entropy
    cases hdraw
    rw [hshows.markup] at hlegible ⊢
    rw [hsource] at hb hlegible ⊢
    exact Template.mem_values_fill hb _ hne hbare hlegible
  obtain ⟨-, hattentive⟩ := (hleads.move hmove).heard
  obtain ⟨z, hz⟩ := hattentive he
  obtain rfl : z = y := Option.some.inj (hz.found.symm.trans hx)
  obtain ⟨-, el', hel', hlistens⟩ := hz.listens hb
  obtain rfl : el' = el := Option.some.inj (hel'.symm.trans hel)
  exact ⟨⟨_, Document.renderedIds_of_element hel, hin⟩, el'.listenersFor b.eventType,
    Document.reached_of_mem hel hin _, Element.mem_listenersFor hlistens⟩

/-- The page on which the button has just been mounted. -/
def padMounted : Page Unit :=
  (Page.mount { document := .ofIds ["pad"] } padView { rootId := "pad", ids := .sequential "p" }).2

theorem latest_clickable_pad :
    ∃ engine, ∃ x : Compiler, padMounted.engine? ⟨0⟩ = some engine ∧
      (padMounted.table x.table).latest? = some "p1" ∧
      ∃ listeners, padMounted.document.reached engine.root "click" "p1" = .ok listeners ∧
        .delegate x.table engine.receiver.methods engine.receiver ∈ listeners := by
  have hthere : ((padMounted.engine? ⟨0⟩).bind fun engine =>
      padMounted.compiler? engine.compiler).isSome = true := by decide +kernel
  have hfacts : ∀ engine ∈ padMounted.engine? ⟨0⟩, ∀ x ∈ padMounted.compiler? engine.compiler,
      padMounted.compilers.size = 1 ∧ x.ids = .sequential "p" 2 ∧
      x.template.binding? = some ⟨"click", "press"⟩ ∧
      (padMounted.table x.table).latest? = some "p1" ∧
      ∀ el ∈ padMounted.document.element? engine.root,
        IdAttribute.LegibleAt el.markup (x.template.idOffset (padMounted.texts x)) "p1" := by
    decide +kernel
  have hmount : Page.mount { document := .ofIds ["pad"] } padView
      { rootId := "pad", ids := .sequential "p" } = (.ok ⟨0⟩, padMounted) :=
    Prod.ext (by decide +kernel) rfl
  obtain ⟨x, hx⟩ := Option.isSome_iff_exists.1 hthere
  obtain ⟨engine, he, hx⟩ := Option.bind_eq_some_iff.1 hx
  obtain ⟨hsize, hids, hb, hlatest, hlegible⟩ := hfacts engine he x hx
  have hstem : ∀ c ∈ "p".toList, IdAttribute.isBareChar c = true :=
    List.all_eq_true.1 (by decide)
  obtain ⟨id, el, hid, hel, -, hreached⟩ := latest_clickable .refl (.mounted hmount) he hx
    (fun hy _ => Page.compiler_of_single hsize hx hy) hids hstem hb
  rw [hlatest] at hid
  cases hid
  exact ⟨engine, x, he, hlatest, (hreached (.inl (hlegible el hel))).2⟩

/-- A button whose template goes on right behind the binding attribute. -/
def gluedView : ViewModel Unit :=
  { template := "<b @click=\"go\"x>ok</b>", methods := [("go", ())] }

/-- The page on which that button has just been mounted. -/
def gluedMounted : Page Unit :=
  (Page.mount { document := .ofIds ["root"] } gluedView { ids := .sequential "e" }).2

-- What follows the id is read as a part of it, and so the id itself is not found.
theorem latest_refused_glued :
    Page.mount { document := .ofIds ["root"] } gluedView { ids := .sequential "e" } =
      (.ok ⟨0⟩, gluedMounted) ∧
    (Template.parse gluedView.template).binding? = some ⟨"click", "go"⟩ ∧
    (gluedMounted.table ⟨0⟩).latest? = some "e1" ∧
    gluedMounted.document.renderedIds ⟨1⟩ = .ok ["e1x"] ∧
    ∀ (serve : Cue Unit → Run Unit Unit Unit) (pins : List Node),
      ElementId.dispatch serve ⟨1⟩ "click" "e1" ⟨gluedMounted, (), pins⟩ =
        some (.error (.document (.notRendered ⟨1⟩ "e1")), ⟨gluedMounted, (), pins⟩) := by
  have hshown : ∀ el ∈ gluedMounted.document.element? ⟨1⟩,
      "e1" ∉ IdAttribute.values el.markup := by decide +kernel
  have hel : (gluedMounted.document.element? ⟨1⟩).isSome = true := by decide +kernel
  obtain ⟨el, hel⟩ := Option.isSome_iff_exists.1 hel
  refine ⟨Prod.ext (by decide +kernel) rfl, by decide +kernel, by decide +kernel,
    by decide +kernel, fun serve pins => ?_⟩
  exact ElementId.dispatch_of_error (Document.reached_of_not_mem hel (hshown el hel) "click")

end ReactiveView
