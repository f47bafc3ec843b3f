import ReactiveView.Proofs.Page.Changes
import ReactiveView.Proofs.Page.Delegation
import ReactiveView.Proofs.Template.Insertion

/-!
# The markup of a view and its latest id

A compile that succeeds leaves the markup of its template in the document, with the id that it drew,
and that id is the latest one of its table if the table is its own.  For a view with an element and a
table to itself this stays so: whatever else happens on the page, it happens to other elements and
other tables.
-/

namespace ReactiveView

variable {κ : Type}

-- A sequential source gives the id of its number, and goes on to the next one.
theorem IdSource.draw_sequential {s : IdSource} {e e' : Entropy} {r : Except EngineError String}
    {stem : String} {next : Nat} (h : s.draw e = (r, .sequential stem next, e')) :
    ∃ n, next = n + 1 ∧ s = .sequential stem n ∧ r = .ok (stem ++ Text.Base36.encode n) := by
  unfold IdSource.draw at h
  split at h <;> cases h
  exact ⟨_, rfl, rfl, rfl⟩

-- A write that is not refused.
theorem Document.element?_of_setMarkup_ok {ℓ : Type} {d d' : Document ℓ} {e : ElementId}
    {markup : String} (h : d.setMarkup e markup = (.ok (), d')) :
    ∃ el, d'.element? e = some el ∧ el.markup = markup := by
  cases hn : d.refusedWrites.refusesNext with
  | true =>
    rw [setMarkup_of_refused hn] at h
    cases h
  | false =>
    cases he : d.element? e with
    | none =>
      rw [setMarkup, if_neg (by rw [hn]; exact Bool.false_ne_true), he] at h
      cases h
    | some el =>
      have htaken := element?_setMarkup_of_taken hn he markup
      rw [h] at htaken
      exact ⟨_, htaken, rfl⟩

namespace Page

/-! ## 1. Parsed templates -/

/-- The template of every compiler was parsed. -/
def Parsed (p : Page κ) : Prop :=
  ∀ c x, p.compiler? c = some x → ∃ source, x.template = Template.parse source

theorem Parsed.of_compilers {p p' : Page κ} (h : p.Parsed) (hc : p'.compilers = p.compilers) :
    p'.Parsed := by
  intro c x hx
  rw [compiler?, hc] at hx
  exact h _ _ hx

theorem Parsed.compile {p : Page κ} (h : p.Parsed) (c : CompilerId) : (p.compile c).2.Parsed := by
  intro d y hy
  obtain ⟨x, hx, hcont⟩ := compiler?_compile hy
  rw [hcont.template]
  exact h _ _ hx

theorem Parsed.newCompiler {p : Page κ} (h : p.Parsed) (source : String) (data : ObjectId)
    (root : ElementId) (t : TableId) (ids : IdSource) :
    (p.newCompiler (Template.parse source) data root t ids).2.Parsed := by
  intro c x hx
  change (p.compilers.push _).get? c.index = some x at hx
  rw [Arena.get?_push] at hx
  split at hx
  · cases hx
    exact ⟨source, rfl⟩
  · exact h _ _ hx

theorem Move.parsed {permits : Request κ → Prop} {p p' : Page κ} (h : p.Move permits p')
    (hp : p.Parsed) : p'.Parsed := by
  rcases h.cases with h | ⟨c, -, rfl⟩ | ⟨e, markup, -, rfl⟩ | ⟨writes, listens, -, rfl⟩ |
    ⟨template, data, root, ids, table, t, -, rfl⟩ | ⟨vm, config, -, rfl⟩
  · exact hp.of_compilers h.compilers
  · exact hp.compile c
  · exact hp.of_compilers rfl
  · exact hp.of_compilers rfl
  · exact hp.newCompiler _ _ _ _ _
  · rcases mount_parts p vm config with h | ⟨root, -, hcompilers⟩
    · rw [h]
      exact hp
    · have hobserved : Parsed ({ p with store := (p.store.wrap vm.data).2 } : Page κ).newTable.2 := hp
      have hstaged : (p.staged vm config root).Parsed :=
        hobserved.newCompiler vm.template _ root _ _
      exact (hstaged.compile _).of_compilers hcompilers

/-- What holds of every page that a page without views leads to. -/
structure Regular (p : Page κ) : Prop extends p.Orderly where
  traced : p.Traced
  parsed : p.Parsed

theorem Move.regular {permits : Request κ → Prop} {p p' : Page κ} (h : p.Move permits p')
    (hp : p.Regular) : p'.Regular :=
  ⟨hp.toOrderly.move h, h.traced hp.traced, h.parsed hp.parsed⟩

theorem Regular.write {p : Page κ} (hp : p.Regular) (o : ObjectId) (key : String) (v : Value) :
    Regular { p with store := p.store.write o key v } :=
  ⟨hp.toOrderly.write o key v, hp.traced, hp.parsed⟩

theorem regular_of_document (document : Document (Listener κ)) (entropy : Entropy) :
    Regular { document, entropy : Page κ } :=
  ⟨orderly_of_document document entropy, (fun h => nomatch h), fun _ _ h => nomatch h⟩

theorem Leads.regular {permits : Request κ → Prop} {document : Document (Listener κ)}
    {entropy : Entropy} {q : Page κ}
    (h : Leads permits (fun _ => False) { document, entropy } q) : q.Regular :=
  h.all Regular (fun hq hmove => hmove.regular hq) (fun o key v hq => hq.write o key v)
    (regular_of_document document entropy)

-- Records in tables leave templates alone.
theorem Leads.parsed {permits : Request κ → Prop} {edits : TableId → Prop}
    {document : Document (Listener κ)} {entropy : Entropy} {q : Page κ}
    (h : Leads permits edits { document, entropy } q) : q.Parsed :=
  h.keeps Parsed (fun hq hmove => hmove.parsed hq) (fun _ _ _ hq => hq) (fun _ _ _ hq => hq)
    fun _ _ hx => nomatch hx

/-! ## 2. What a compile shows -/

/-- The element of `x` shows what the template gives with `texts` and the id `id`, and that is the
    latest id of the table. -/
structure Shows (p : Page κ) (x : Compiler) (id : String) (texts : List String)
    (el : Element (Listener κ)) : Prop where
  element : p.document.element? x.root = some el
  markup : el.markup = x.template.fill texts (some id)
  latest : (p.table x.table).latest? = some id

/-- What the placeholders of `x` show of the data as it is. -/
def texts (p : Page κ) (x : Compiler) : List String :=
  x.template.slots.map fun key => (p.store.field x.data key).display

/-- **What a compile shows.**  With a sequential source it draws an id that is new to the table. -/
theorem shows_compile {p q : Page κ} {c : CompilerId} {x x' : Compiler} {stem : String}
    {next : Nat} (hx : p.compiler? c = some x) (hrun : p.compile c = (.ok (), q))
    (hx' : q.compiler? c = some x') (hids : x'.ids = .sequential stem next)
    (hbinding : x.template.binding? ≠ none) (hparsed : ∃ source, x.template = Template.parse source)
    (ho : (p.store.object? x.data).isSome) (ht : p.HasTable x.table)
    (hgiven : ∀ id ∈ (p.table x.table).ids, x.ids.Given id) :
    ∃ n el, next = n + 1 ∧ q.Shows x' (stem ++ Text.Base36.encode n) (q.texts x') el := by
  obtain ⟨b, hb⟩ := Option.ne_none_iff_exists'.1 hbinding
  have hfull : x.template.isEmpty = false := by
    obtain ⟨source, hsource⟩ := hparsed
    rw [hsource] at hb ⊢
    cases he : (Template.parse source).isEmpty with
    | false => rfl
    | true =>
      rw [(Template.of_isEmpty he).2] at hb
      cases hb
  obtain ⟨id, markup, y, hr⟩ := rendered_of_ok hx hfull hrun
  obtain rfl : y = x' := Option.some.inj (hr.compiler.symm.trans hx')
  have hdrawn := hr.drawn
  rw [hb] at hdrawn
  obtain ⟨i, rfl, hd, htables⟩ := hdrawn
  rw [hids] at hd
  obtain ⟨n, rfl, hsource, hi⟩ := IdSource.draw_sequential hd
  cases hi
  have hcont := hr.continues hfull
  obtain ⟨el, hel, hmarkup⟩ := Document.element?_of_setMarkup_ok hr.document
  have hnone : x.template.binding? = none → x.lastId = none := fun h => (hbinding h).elim
  have hlast := (hr.lastId hnone).1
  have hfresh := hr.fresh ho hnone
  refine ⟨n, el, rfl, ?_, ?_, ?_⟩
  · rw [hcont.root]
    exact hel
  · rw [hmarkup, ← show y.lastMarkup = markup from hr.lastMarkup, hfresh, rendering, hlast]
    rfl
  · -- the id is new: its number comes after those of the ids in the table
    have hnew : stem ++ Text.Base36.encode n ∉ (p.table x.table).ids := by
      intro hin
      have hgiven := hgiven _ hin
      rw [hsource] at hgiven
      obtain ⟨j, hj, heq⟩ := hgiven
      exact absurd (IdSource.sequential_inj heq) (by omega)
    rw [hcont.table, table_of_modify htables, if_pos ⟨rfl, ht⟩]
    exact BindingTable.latest?_insert hnew b

-- A view that has been mounted has compiled once, and what came behind that was still.
theorem compiled_mount {p : Page κ} {vm : ViewModel κ} {config : Config} {e : EngineId}
    {engine : Engine κ} {x : Compiler} (hnew : p.engine? e = none)
    (he : (p.mount vm config).2.engine? e = some engine)
    (hx : (p.mount vm config).2.compiler? engine.compiler = some x) :
    ∃ root q q', (p.staged vm config root).compile ⟨p.compilers.size⟩ = (.ok (), q) ∧
      q.compiler? ⟨p.compilers.size⟩ = some x ∧
      (p.stagedCompiler vm config root).Continues x ∧ q.Still q' ∧ q'.store = q.store ∧
      (p.mount vm config).2 = { q' with engines := q'.engines.push engine } := by
  rcases (mounting p vm config).engine? he with hold | ⟨-, root, q, types, q', -, hcompile,
    hbind, rfl, hmounted⟩
  · rw [hnew] at hold
    cases hold
  · have hstill := still_of_bind hbind
    have hstore := store_bindTypes q root ⟨p.tables.size⟩ vm.methods (p.stagedReceiver vm)
      (q.table ⟨p.tables.size⟩).eventTypes
    rw [← bind_snd, hbind] at hstore
    rw [hmounted] at hx
    have hx' : q.compiler? ⟨p.compilers.size⟩ = some x := by
      rw [compiler?, ← hstill.compilers]
      exact hx
    obtain ⟨y, hy, hcont⟩ := (recompiled (p.staged vm config root) ⟨p.compilers.size⟩).continues
      (compiler?_staged p vm config root)
    rw [hcompile] at hy
    obtain rfl : y = x := Option.some.inj (hy.symm.trans hx')
    exact ⟨root, q, q', hcompile, hx', hcont, hstill, hstore, hmounted⟩

/-! ## 3. What leaves it alone -/

section Kept

variable {p p' : Page κ} {x : Compiler} {id : String} {texts : List String}
  {el : Element (Listener κ)}

theorem Shows.still (h : p.Shows x id texts el) (hs : p.Still p') :
    ∃ el', p'.Shows x id texts el' := by
  obtain ⟨el', hel', hmarkup, -⟩ := hs.element h.element
  exact ⟨el', hel', hmarkup.trans h.markup, by rw [hs.table]; exact h.latest⟩

-- A compile that writes to another element and fills another table.
theorem Shows.compile (h : p.Shows x id texts el) {c : CompilerId}
    (hc : ∀ {y}, p.compiler? c = some y → y.root ≠ x.root ∧ y.table ≠ x.table) :
    (p.compile c).2.Shows x id texts el := by
  refine ⟨?_, h.markup, ?_⟩
  · rcases document_compile p c with hd | ⟨y, markup, hy, hd⟩
    · rw [hd]
      exact h.element
    · rw [hd, Document.element?_setMarkup_of_ne fun e => (hc hy).1 e.symm]
      exact h.element
  · rcases tables_compile p c with ht | ⟨y, b, i, hy, -, ht⟩
    · rw [table, ht]
      exact h.latest
    · rw [table_of_modify ht, if_neg fun e => (hc hy).2 e.1]
      exact h.latest

theorem Shows.setMarkup (h : p.Shows x id texts el) {e : ElementId} (he : e ≠ x.root)
    (markup : String) :
    Shows { p with document := (p.document.setMarkup e markup).2 } x id texts el :=
  ⟨(Document.element?_setMarkup_of_ne (fun h => he h.symm) markup).trans h.element, h.markup,
    h.latest⟩

end Kept

/-! ## 4. A view that has its element and its table to itself -/

/-- No other compiler writes to the element of `x` or fills its table. -/
def Alone (p : Page κ) (c : CompilerId) (x : Compiler) : Prop :=
  ∀ {d y}, p.compiler? d = some y → y.root = x.root ∨ y.table = x.table → d = c

-- Who is alone was so before.
theorem Alone.of_grows {p p' : Page κ} {c : CompilerId} {x x' : Compiler} (h : p'.Alone c x')
    (hg : p.Grows p') (hx : x.Continues x') : p.Alone c x := by
  intro d y hy hsame
  obtain ⟨y', hy', hcont⟩ := hg.compiler hy
  refine h hy' ?_
  rw [hcont.root, hcont.table, hx.root, hx.table]
  exact hsame

end Page

end ReactiveView
