import ReactiveView.Proofs.View.Clickable

/-!
# Earlier ids cannot be clicked

A table keeps every id that was drawn for it, and all of them still stand for the method.  What keeps
events away from the earlier ones is the markup: a view that has its element to itself shows one id,
the latest, and no other id of the table can be read where that one was written.  An earlier id is
read only if the template or the data bring an id attribute of their own.
-/

namespace ReactiveView

variable {κ σ τ : Type}

/-- A request that neither writes to the element `root` nor lets the document refuse writes. -/
def Request.LeavesElement (root : ElementId) : Request κ → Prop
  | .perform (.setMarkup e _) => e ≠ root
  | request => request.LeavesWrites

theorem Request.LeavesElement.writes {root : ElementId} {request : Request κ}
    (h : request.LeavesElement root) : request.LeavesWrites := by
  unfold LeavesElement at h
  split at h
  · trivial
  · exact h

namespace Page

variable {p p' : Page κ} {root : ElementId} {engine : Engine κ} {y : Compiler}

/-! ## 1. Showing the latest id -/

/-- If the view has its element and its table to itself, and binds with sequential ids, it shows the
    latest one. -/
def Current (p : Page κ) (engine : Engine κ) : Prop :=
  ∀ x stem next, p.compiler? engine.compiler = some x → p.Alone engine.compiler x →
    x.ids = .sequential stem next → x.template.binding? ≠ none →
    ∃ n texts el, next = n + 1 ∧ p.Shows x (stem ++ Text.Base36.encode n) texts el

-- A view whose compiler has not changed shows what it showed, if nobody wrote over it.
theorem Current.of_found (h : p.Current engine) (hg : p.Grows p')
    (hold : p.compiler? engine.compiler = some y) (hfound : p'.compiler? engine.compiler = some y)
    (hshows : p'.Alone engine.compiler y → ∀ id texts el, p.Shows y id texts el →
      ∃ el', p'.Shows y id texts el') : p'.Current engine := by
  intro x stem next hx halone hids hb
  obtain rfl : y = x := Option.some.inj (hfound.symm.trans hx)
  obtain ⟨n, texts, el, hn, hel⟩ := h y stem next hold (halone.of_grows hg (.refl y)) hids hb
  obtain ⟨el', hel'⟩ := hshows halone _ _ _ hel
  exact ⟨n, texts, el', hn, hel'⟩

theorem Current.compile (h : p.Current engine) (hp : p.Regular) (ha : p.document.Accepts)
    {e : EngineId} (he : p.engine? e = some engine) (c : CompilerId) :
    (p.compile c).2.Current engine := by
  obtain ⟨y, hy⟩ := hp.mounted he
  have hre := recompiled p c
  by_cases hc : engine.compiler = c
  · -- its own compile is taken by the document, and shows what it drew
    subst hc
    intro x stem next hx halone hids hb
    obtain ⟨x', p', hrun, -⟩ := hy.compile ha
    rw [hrun] at hx halone ⊢
    obtain ⟨n, el, hn, hshows⟩ := hp.shows_compile he hrun hx (fun hz ht => halone hz (.inr ht))
      hids hb
    exact ⟨n, _, el, hn, hshows⟩
  · refine h.of_found hre.grows hy.found ((hre.others _ hc).trans hy.found)
      fun halone id texts el hshows => ⟨el, hshows.compile fun {z} hz => ?_⟩
    have hother : p.Alone engine.compiler y := halone.of_grows hre.grows (.refl y)
    exact ⟨fun hroot => hc (hother hz (.inl hroot)).symm,
      fun htable => hc (hother hz (.inr htable)).symm⟩

-- A view that is being mounted elsewhere leaves alone what another one shows.
theorem Shows.mount {c : CompilerId} {id : String} {texts : List String}
    {el : Element (Listener κ)} (h : p.Shows y id texts el) (hc : p.compiler? c = some y)
    (vm : ViewModel κ) (config : Config) (halone : (p.mount vm config).2.Alone c y) :
    ∃ el', (p.mount vm config).2.Shows y id texts el' := by
  rcases mount_cases p vm config with hp | ⟨root, q, q', -, hq, hstill, hp⟩
  · rw [hp]
    exact ⟨el, h⟩
  -- the new view has a compiler of its own, which is on the page in the end
  have hcompilers : (p.mount vm config).2.compilers = q.compilers := by
    rcases hp with hp | ⟨-, types, hp⟩
    · rw [hp, hstill.compilers]
    · rw [hp]
      exact hstill.compilers
  have hstaged := compiler?_staged p vm config root
  obtain ⟨z, hz, hcont⟩ :=
    (recompiled (p.staged vm config root) ⟨p.compilers.size⟩).continues hstaged
  have hne : ¬ (z.root = y.root ∨ z.table = y.table) := by
    intro hsame
    rw [hq, compiler?, ← hcompilers] at hz
    have heq := halone hz hsame
    rw [← heq, compiler?_size] at hc
    cases hc
  rw [hcont.root, hcont.table] at hne
  obtain ⟨el₁, h₁⟩ := h.still ((still_wrap p vm.data).trans (still_newTable _))
  have h₂ : (p.staged vm config root).Shows y id texts el₁ := ⟨h₁.element, h₁.markup, h₁.latest⟩
  have h₃ : q.Shows y id texts el₁ := by
    rw [← hq]
    refine h₂.compile fun {w} hw => ?_
    obtain rfl : w = p.stagedCompiler vm config root := Option.some.inj (hw.symm.trans hstaged)
    exact ⟨fun hroot => hne (.inl hroot), fun htable => hne (.inr htable)⟩
  obtain ⟨el₄, h₄⟩ := h₃.still hstill
  rcases hp with hp | ⟨-, types, hp⟩
  · rw [hp]
    exact ⟨el₄, h₄⟩
  · rw [hp]
    exact ⟨el₄, h₄.element, h₄.markup, h₄.latest⟩

/-- Every view on `root` is current. -/
def AllCurrent (root : ElementId) (p : Page κ) : Prop :=
  ∀ {e engine}, p.engine? e = some engine → engine.root = root → p.Current engine

/-- **Views stay current** while nobody writes to their element by hand. -/
theorem Move.allCurrent (h : p.Move (Request.LeavesElement root) p') (hp : p.Regular)
    (ha : p.document.Accepts) (hcurrent : p.AllCurrent root) : p'.AllCurrent root := by
  intro e engine he hroot
  -- a view that was there before
  have hold : p.engine? e = some engine → p'.Current engine := by
    intro hthere
    obtain ⟨y, hy⟩ := hp.mounted hthere
    have hnow := hcurrent hthere hroot
    have hcalm : p.Calm p' → (p'.Alone engine.compiler y → ∀ id texts el,
        p.Shows y id texts el → ∃ el', p'.Shows y id texts el') → p'.Current engine :=
      fun hc hshows => hnow.of_found hc.grows hy.found (hc.compiler hy.found) hshows
    rcases h.cases with h | ⟨c, -, rfl⟩ | ⟨w, markup, hr, rfl⟩ | ⟨writes, listens, -, rfl⟩ |
      ⟨template, data, root, ids, table, t, -, rfl⟩ | ⟨vm, config, -, rfl⟩
    · exact hcalm h.calm fun _ _ _ _ hshows => hshows.still h
    · exact hnow.compile hp ha hthere c
    · refine hcalm (calm_document p fun he => Document.element?_setMarkup_isSome he w markup)
        fun _ _ _ el hshows => ⟨el, hshows.setMarkup ?_ markup⟩
      rw [hy.root, hroot]
      exact hr
    · exact hcalm (calm_document p id)
        fun _ _ _ el hshows => ⟨el, hshows.element, hshows.markup, hshows.latest⟩
    · exact hcalm (calm_newCompiler p _ _ _ _ _)
        fun _ _ _ el hshows => ⟨el, hshows.element, hshows.markup, hshows.latest⟩
    · exact hcalm (calm_mount p vm config)
        fun halone _ _ _ hshows => hshows.mount hy.found vm config halone
  rcases h.engines_or_mount with hengines | ⟨vm, config, -, rfl⟩
  · rw [engine?, hengines] at he
    exact hold he
  · rcases hthere : p.engine? e with _ | engine'
    · -- the new view shows what it has just drawn
      intro x stem next hx _ hids hb
      obtain ⟨n, el, hn, hshows⟩ := shows_mount hthere he hx hids hb
      exact ⟨n, _, el, hn, hshows⟩
    · have hkept := (calm_mount p vm config).engine hthere
      rw [he] at hkept
      cases hkept
      exact hold hthere

theorem Leads.allCurrent {document : Document (Listener κ)} {entropy : Entropy}
    (h : Leads (Request.LeavesElement root) (fun _ => False) { document, entropy } p)
    (ha : document.Accepts) : p.AllCurrent root := by
  refine (h.all (fun q => q.Regular ∧ q.document.Accepts ∧ q.AllCurrent root)
    (fun ⟨hq, ha, hcurrent⟩ hmove => ⟨hmove.regular hq,
      hmove.accepts Request.LeavesElement.writes ha, hmove.allCurrent hq ha hcurrent⟩)
    (fun {q} o key v ⟨hq, ha, hcurrent⟩ => ⟨hq.write o key v, ha,
      fun he hroot x stem next hx halone hids hb => ?_⟩)
    ⟨regular_of_document document entropy, ha, fun h => nomatch h⟩).2.2
  -- a write of data touches neither the document nor a table
  obtain ⟨n, texts, el, hn, hshows⟩ := hcurrent he hroot x stem next hx halone hids hb
  exact ⟨n, texts, el, hn, hshows.element, hshows.markup, hshows.latest⟩

/-! ## 2. Reading an earlier id -/

-- The ids of a table that a compiler fills alone are those that it drew for its binding.
theorem Regular.drawn (hp : p.Regular) (hs : p.Supplied) {c : CompilerId} {x : Compiler}
    (hx : p.compiler? c = some x) (halone : p.Alone c x) {stem : String} {next : Nat}
    (hids : x.ids = .sequential stem next) {id : String} (hid : id ∈ (p.table x.table).ids) :
    x.template.binding? ≠ none ∧ ∃ i < next, id = stem ++ Text.Base36.encode i := by
  constructor
  · obtain ⟨row, hrow, -⟩ := List.mem_map.1 hid
    obtain ⟨d, y, hy, htable, hbinding⟩ := hs hrow
    obtain rfl := halone hy (.inr htable)
    obtain rfl : y = x := Option.some.inj (hy.symm.trans hx)
    rw [hbinding]
    exact Option.some_ne_none _
  · obtain ⟨d, y, hy, htable, hgiven⟩ := hp.traced hid
    obtain rfl := halone hy (.inr htable)
    obtain rfl : y = x := Option.some.inj (hy.symm.trans hx)
    rwa [hids] at hgiven

-- An earlier id is read where it was not written, and so the markup has a second id attribute.
theorem Shows.elsewhere {x : Compiler} {stem : String} {i n : Nat} {texts : List String}
    {el : Element (Listener κ)} (h : p.Shows x (stem ++ Text.Base36.encode n) texts el)
    (hparsed : ∃ source, x.template = Template.parse source) (hbinding : x.template.binding? ≠ none)
    (hlt : i < n) (hin : stem ++ Text.Base36.encode i ∈ IdAttribute.values el.markup) :
    (∃ r ∈ IdAttribute.readings el.markup, r.value = stem ++ Text.Base36.encode i ∧
      r.position ≠ x.template.idOffset texts) ∧ 2 ≤ IdAttribute.nameCount el.markup.toList := by
  obtain ⟨source, hsource⟩ := hparsed
  obtain ⟨b, hb⟩ := Option.ne_none_iff_exists'.1 hbinding
  rw [hsource] at hb
  obtain ⟨before, after, hlength, -, hfilled⟩ :=
    Template.fill_insert hb texts (stem ++ Text.Base36.encode n)
  rw [← hsource, ← h.markup] at hfilled
  rw [← hsource] at hlength
  rw [IdAttribute.values_eq] at hin
  obtain ⟨r, hr, hvalue⟩ := List.mem_map.1 hin
  have hposition : r.position ≠ before.length := by
    intro hposition
    rw [String.toList_append] at hfilled
    refine IdAttribute.value_ne_earlier hlt hfilled hr hposition (hvalue.trans ?_)
    rw [← String.toList_append, String.ofList_toList]
  refine ⟨⟨r, hr, hvalue, hlength ▸ hposition⟩, ?_⟩
  by_contra hcount
  exact hposition (IdAttribute.position_eq_of_nameCount hfilled (by omega) hr)

end Page

/-! ## 3. Earlier ids -/

/-- **Earlier ids cannot be clicked.**  Whatever a page without views has been led to, if the document
    refuses no writes and a view with sequential ids has its element and its table to itself, then its
    element shows the template with the latest id of the table behind the binding attribute.  And if
    an earlier id is not read from another place of the markup, or the text `id=` occurs only once in
    it, an event that is sent to the earlier id is refused, and no listener runs. -/
theorem earlier_refused {document : Document (Listener κ)} {entropy : Entropy} {p : Page κ}
    {root : ElementId}
    (hleads : Page.Leads (Request.LeavesElement root) (fun _ => False) { document, entropy } p)
    (haccepts : document.Accepts) {e : EngineId} {engine : Engine κ}
    (he : p.engine? e = some engine) (hroot : engine.root = root) {x : Compiler}
    (hx : p.compiler? engine.compiler = some x) (halone : p.Alone engine.compiler x) {stem : String}
    {next : Nat} (hids : x.ids = .sequential stem next) {old : String}
    (hold : old ∈ (p.table x.table).ids) (hlatest : (p.table x.table).latest? ≠ some old) :
    ∃ latest el, (p.table x.table).latest? = some latest ∧ p.document.element? root = some el ∧
      (∃ texts, el.markup = x.template.fill texts (some latest)) ∧
      ((∃ texts, el.markup = x.template.fill texts (some latest) ∧
          ∀ r ∈ IdAttribute.readings el.markup, r.value = old →
            r.position = x.template.idOffset texts) ∨
        IdAttribute.nameCount el.markup.toList ≤ 1 →
        ∀ (serve : Cue κ → Run κ σ Unit) (type : String) (w : World κ σ), w.page = p →
          root.dispatch serve type old w = some (.error (.document (.notRendered root old)), w)) := by
  have hregular := hleads.regular
  obtain ⟨hb, i, hi, rfl⟩ := hregular.drawn hleads.heard.1 hx halone hids hold
  obtain ⟨n, texts, el, rfl, hshows⟩ :=
    hleads.allCurrent haccepts he hroot x stem next hx halone hids hb
  have hlt : i < n := by
    rcases Nat.lt_succ_iff_lt_or_eq.1 hi with hlt | rfl
    · exact hlt
    · exact (hlatest hshows.latest).elim
  obtain ⟨y, hy⟩ := hregular.mounted he
  obtain rfl : y = x := Option.some.inj (hy.found.symm.trans hx)
  have hel := hshows.element
  rw [hy.root, hroot] at hel
  refine ⟨_, el, hshows.latest, hel, ⟨texts, hshows.markup⟩, fun honly serve type w hw => ?_⟩
  have hnot : stem ++ Text.Base36.encode i ∉ IdAttribute.values el.markup := by
    intro hin
    have hparsed := hregular.parsed _ _ hx
    rcases honly with ⟨texts', hmarkup, honly⟩ | honly
    · obtain ⟨⟨r, hr, hvalue, hposition⟩, -⟩ :=
        Page.Shows.elsewhere ⟨hshows.element, hmarkup, hshows.latest⟩ hparsed hb hlt hin
      exact hposition (honly r hr hvalue)
    · obtain ⟨-, hcount⟩ := hshows.elsewhere hparsed hb hlt hin
      omega
  rw [← hw] at hel
  exact ElementId.dispatch_of_error (Document.reached_of_not_mem hel hnot type)

theorem earlier_refused_pad :
    ∃ m engine, ∃ x : Compiler, padHistory.getLast? = some m ∧
      m.page.engine? ⟨0⟩ = some engine ∧ (m.page.table x.table).ids = ["p1", "p2"] ∧
      ∀ (serve : Cue Unit → Run Unit Unit Unit) (type : String) (w : World Unit Unit),
        w.page = m.page → ElementId.dispatch serve ⟨1⟩ type "p1" w =
          some (.error (.document (.notRendered ⟨1⟩ "p1")), w) := by
  have hrun : (padClient.run 1 padProgram
      ⟨{ document := .ofIds ["pad"] }, (), []⟩).isSome = true := by decide +kernel
  have hlast : (padHistory.getLast?.bind fun m => (m.page.engine? ⟨0⟩).bind fun engine =>
      m.page.compiler? engine.compiler).isSome = true := by decide +kernel
  have hfacts : ∀ m ∈ padHistory.getLast?, ∀ engine ∈ m.page.engine? ⟨0⟩,
      ∀ x ∈ m.page.compiler? engine.compiler, engine.root = ⟨1⟩ ∧ m.page.compilers.size = 1 ∧
        x.ids = .sequential "p" 3 ∧ (m.page.table x.table).ids = ["p1", "p2"] ∧
        ∀ el ∈ m.page.document.element? ⟨1⟩,
          IdAttribute.nameCount el.markup.toList ≤ 1 := by decide +kernel
  obtain ⟨m, engine, x, hm, he, hx⟩ := History.exists_last_view hlast
  obtain ⟨hroot, hsize, hids, hall, hcount⟩ := hfacts m hm engine he x hx
  have hlives : padClient.Lives { document := .ofIds ["pad"] } () padProgram padHistory :=
    Client.lives_history hrun
  have hleads : Page.Leads (Request.LeavesElement ⟨1⟩) (fun _ => False)
      { document := .ofIds ["pad"] } m.page :=
    hlives.leads (fun _ => trivial) ⟨trivial, fun _ => ⟨trivial, fun _ => trivial⟩⟩
      (List.mem_of_getLast? hm)
  have hlatest : (m.page.table x.table).latest? ≠ some "p1" := by
    rw [BindingTable.latest?, hall]
    decide
  obtain ⟨_, el, -, hel, -, hrefused⟩ := earlier_refused hleads (Document.accepts_ofIds _) he
    hroot hx (fun hy _ => Page.compiler_of_single hsize hx hy) hids
    (hall ▸ List.mem_cons_self) hlatest
  exact ⟨m, engine, x, hm, he, hall, hrefused (.inr (hcount el hel))⟩

/-- A view with a button that shows a text. -/
def echoView : ViewModel Unit :=
  { data := [("a", .text "x")], template := "<b @click=\"go\">\x7b\x7ba\x7d\x7d</b>"
    methods := [("go", ())] }

/-- Mounts the button and changes its text to one that reads as an id attribute. -/
def echoProgram : Program Unit Unit :=
  .perform (.mount echoView { ids := .sequential "e" }) fun _ =>
    .perform (.set ⟨⟨0⟩, 0⟩ "a" (.text " id=e1 ")) fun _ => .done

def echoHistory : History Unit Unit :=
  padClient.history 1 { document := .ofIds ["root"] } () echoProgram

-- The text brings the earlier id back into the markup, and so it can be clicked.
theorem earlier_reached_echo :
    padClient.Lives { document := .ofIds ["root"] } () echoProgram echoHistory ∧
    echoProgram.Within (Request.LeavesElement ⟨1⟩) ∧
    IdAttribute.nameCount echoView.template.toList = 0 ∧
    ∃ m engine x, echoHistory.getLast? = some m ∧ m.page.engine? ⟨0⟩ = some engine ∧
      engine.root = ⟨1⟩ ∧ m.page.compiler? engine.compiler = some x ∧
      m.page.Alone engine.compiler x ∧ x.ids = .sequential "e" 3 ∧
      "e1" ∈ (m.page.table x.table).ids ∧ (m.page.table x.table).latest? = some "e2" ∧
      m.page.document.renderedIds ⟨1⟩ = .ok ["e2", "e1"] ∧
      ∀ (serve : Cue Unit → Run Unit Unit Unit) (pins : List Node) (w' : World Unit Unit),
        ElementId.dispatch serve ⟨1⟩ "click" "e1" ⟨m.page, (), pins⟩ ≠
          some (.error (.document (.notRendered ⟨1⟩ "e1")), w') := by
  have hrun : (padClient.run 1 echoProgram
      ⟨{ document := .ofIds ["root"] }, (), []⟩).isSome = true := by decide +kernel
  have hlast : (echoHistory.getLast?.bind fun m => (m.page.engine? ⟨0⟩).bind fun engine =>
      m.page.compiler? engine.compiler).isSome = true := by decide +kernel
  have hfacts : ∀ m ∈ echoHistory.getLast?, ∀ engine ∈ m.page.engine? ⟨0⟩,
      ∀ x ∈ m.page.compiler? engine.compiler, engine.root = ⟨1⟩ ∧ m.page.compilers.size = 1 ∧
        x.ids = .sequential "e" 3 ∧ "e1" ∈ (m.page.table x.table).ids ∧
        (m.page.table x.table).latest? = some "e2" ∧
        m.page.document.renderedIds ⟨1⟩ = .ok ["e2", "e1"] ∧
        (m.page.document.element? ⟨1⟩).any (fun el => "e1" ∈ IdAttribute.values el.markup) := by
    decide +kernel
  obtain ⟨m, engine, x, hm, he, hx⟩ := History.exists_last_view hlast
  obtain ⟨hroot, hsize, hids, hin, hlatest, hshown, hread⟩ := hfacts m hm engine he x hx
  refine ⟨Client.lives_history hrun, ⟨trivial, fun _ => ⟨trivial, fun _ => trivial⟩⟩,
    by decide +kernel, m, engine, x, hm, he, hroot, hx,
    fun hy _ => Page.compiler_of_single hsize hx hy, hids, hin, hlatest, hshown, ?_⟩
  intro serve pins w' hrefused
  obtain ⟨el, hel, hread⟩ := Option.any_eq_true _ _ |>.1 hread
  -- the event reaches the listeners, whose errors are others
  rw [ElementId.dispatch_of_ok (Document.reached_of_mem hel (of_decide_eq_true hread) "click")]
    at hrefused
  obtain ⟨⟨result, v⟩, -, hresult⟩ := Option.map_eq_some_iff.1 hrefused
  cases result <;> cases hresult

end ReactiveView
