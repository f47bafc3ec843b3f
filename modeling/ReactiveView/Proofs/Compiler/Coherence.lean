import ReactiveView.Proofs.Client.Forgetting
import ReactiveView.Proofs.Page.Tables

/-!
# Counters, table and markup of a compiler

A compiler that is the only one to write its element, and to fill its table, keeps count of its
renders through every failure: a watcher that cannot collect, an id that cannot be drawn, a document
that refuses the markup.
-/

namespace ReactiveView

variable {κ σ : Type}

/-- A request that leads to no markup but that of the compiler `c`. -/
def Request.Confined (c : CompilerId) : Request κ → Prop
  | .perform (.setMarkup _ _) => False
  | .perform (.refuse _ _) => False
  | .perform (.newCompiler _ _ _ _ _) => False
  | .perform (.mount _ _) => False
  | .perform (.compile d) => d = c
  | _ => True

namespace Page

/-! ## 1. The invariant -/

/-- On the way from `p` to `p'` the compiler `c`, then `x` and now `x'`, was the only one to write
    its element and to fill its table. -/
structure Coherent (p : Page κ) (c : CompilerId) (x : Compiler) (p' : Page κ) (x' : Compiler)
    (el : Element (Listener κ)) (drawn : List String) : Prop where
  compiler : p'.compiler? c = some x'
  template : x'.template = x.template
  root : x'.root = x.root
  table : x'.table = x.table
  hasTable : p'.HasTable x.table
  own : ∀ {w y}, p'.store.watcher? w = some y →
    (∃ code, y.reaction = .client code) ∨ y.reaction = .render c
  element : p'.document.element? x.root = some el
  -- Each render has been one call of the document.
  calls : p'.document.refusedWrites = p.document.refusedWrites.skip x'.renders
  markup : x'.lastMarkup = el.markup
  renders : x'.renders = el.writes + p.document.refusedWrites.refusedAmong x'.renders
  draws : IdSource.Draws x.ids p.entropy drawn x'.ids p'.entropy
  rows : (p'.table x.table).rows =
    match x.template.binding? with
    | none => []
    | some b => drawn.map fun id => (id, b)
  count : x.template.binding? ≠ none → drawn.length = x'.renders
  initialized : x'.initialized = true ↔ 0 < x'.renders

variable {p q : Page κ} {c : CompilerId} {x y : Compiler} {el : Element (Listener κ)}
  {drawn : List String}

/-! ## 2. What keeps it -/

theorem Coherent.still (h : p.Coherent c x q y el drawn) {q' : Page κ} (hs : q.Still q') :
    ∃ el', p.Coherent c x q' y el' drawn := by
  obtain ⟨el', hel, hmarkup, hwrites⟩ := hs.element h.element
  refine ⟨el', (congrArg (·.get? c.index) hs.compilers).trans h.compiler, h.template, h.root,
    h.table, hs.hasTable h.hasTable, fun hw => ?_, hel, hs.refusedWrites.trans h.calls,
    h.markup.trans hmarkup.symm, ?_, ?_, ?_, h.count, h.initialized⟩
  · rcases hs.only hw with hw | hcode
    · exact h.own hw
    · exact .inl hcode
  · rw [hwrites]
    exact h.renders
  · rw [hs.entropy]
    exact h.draws
  · rw [hs.table]
    exact h.rows

-- A compile that ends early has at most used up an id.
theorem Coherent.stopped (h : p.Coherent c x q y el drawn) {q' : Page κ} {y' : Compiler}
    (hs : q.Stopped c y y' q') : p.Coherent c x q' y' el drawn := by
  have hframe := hs.frame
  have hrenders : y'.renders = y.renders := by rw [hframe]
  have htable : q'.table x.table = q.table x.table := by rw [Page.table, hs.tables]; rfl
  refine ⟨hs.compiler, ?_, ?_, ?_, ?_, fun hw => ?_, ?_, ?_, ?_, ?_, ?_, ?_, ?_, ?_⟩
  · rw [hframe]
    exact h.template
  · rw [hframe]
    exact h.root
  · rw [hframe]
    exact h.table
  · rw [HasTable, hs.tables]
    exact h.hasTable
  · rcases hs.only hw with hw | hrender
    · exact h.own hw
    · exact .inr hrender
  · rw [hs.document]
    exact h.element
  · rw [hs.document, hrenders]
    exact h.calls
  · rw [hframe]
    exact h.markup
  · rw [hrenders]
    exact h.renders
  · rcases hs.cause with ⟨-, -, hids, hentropy⟩ | ⟨-, error, hd⟩
    · rw [hids, hentropy]
      exact h.draws
    · exact .failed h.draws hd
  · rw [htable]
    exact h.rows
  · rw [hrenders]
    exact h.count
  · rw [hframe]
    exact h.initialized

-- What a render draws and records.
theorem Coherent.recorded (h : p.Coherent c x q y el drawn) (hids : x.ids.NeverRepeats p.entropy)
    {id : Option String} {markup : String} {result : Except DocumentError Unit} {q' : Page κ}
    {y' : Compiler} (hr : q.Rendered c y id markup result y' q') :
    IdSource.Draws x.ids p.entropy (drawn ++ id.toList) y'.ids q'.entropy ∧
      (q'.table x.table).rows =
        (match x.template.binding? with
        | none => []
        | some b => (drawn ++ id.toList).map fun id => (id, b)) ∧
      (x.template.binding? ≠ none → (drawn ++ id.toList).length = drawn.length + 1) := by
  have hdrawn := hr.drawn
  have hrows := h.rows
  rw [h.template] at hdrawn
  cases hb : x.template.binding? with
  | none =>
    simp only [hb] at hdrawn hrows
    obtain ⟨rfl, hsame, hentropy, htables⟩ := hdrawn
    refine ⟨?_, ?_, fun hne => (hne rfl).elim⟩
    · rw [Option.toList_none, List.append_nil, hsame, hentropy]
      exact h.draws
    · rw [Page.table, htables]
      exact hrows
  | some b =>
    simp only [hb] at hdrawn hrows
    obtain ⟨i, rfl, hd, htables⟩ := hdrawn
    have hdraws := IdSource.Draws.ok h.draws hd
    -- the rows are those of the ids drawn so far, none of which comes again
    have hnew : i ∉ (q.table x.table).ids := by
      rw [BindingTable.ids, hrows, List.map_map]
      intro hi
      obtain ⟨j, hj, rfl⟩ := List.mem_map.1 hi
      exact (List.nodup_append.1 (hids hdraws)).2.2 j hj j (List.mem_singleton.2 rfl) rfl
    refine ⟨hdraws, ?_, fun _ => by simp⟩
    rw [h.table] at htables
    rw [table_of_modify htables, if_pos ⟨rfl, h.hasTable⟩, BindingTable.rows_insert hnew, hrows]
    show _ = (drawn ++ [i]).map _
    rw [List.map_append]
    rfl

-- The part of a render that does not depend on whether the document takes it.
theorem Coherent.after (h : p.Coherent c x q y el drawn) (hids : x.ids.NeverRepeats p.entropy)
    {id : Option String} {markup : String} {result : Except DocumentError Unit} {q' : Page κ}
    {y' : Compiler} (hr : q.Rendered c y id markup result y' q') {el' : Element (Listener κ)}
    (hel : q'.document.element? x.root = some el') (hmarkup : y'.lastMarkup = el'.markup)
    (hcount : y'.renders = el'.writes + p.document.refusedWrites.refusedAmong y'.renders) :
    p.Coherent c x q' y' el' (drawn ++ id.toList) := by
  have hframe := hr.frame
  have hrenders : y'.renders = y.renders + 1 := by rw [hframe]
  obtain ⟨hdraws, hrows, hlength⟩ := h.recorded hids hr
  have hcalls := Document.refusedWrites_setMarkup q.document y.root markup
  rw [hr.document, h.calls] at hcalls
  refine ⟨hr.compiler, ?_, ?_, ?_, hr.hasTable h.hasTable, fun hw => ?_, hel, ?_, hmarkup, hcount,
    hdraws, hrows, fun hb => ?_, ?_⟩
  · rw [hframe]
    exact h.template
  · rw [hframe]
    exact h.root
  · rw [hframe]
    exact h.table
  · rcases hr.only hw with hw | hrender
    · exact h.own hw
    · exact .inr hrender
  · rw [hrenders]
    exact hcalls
  · rw [hlength hb, h.count hb, hrenders]
  · rw [hrenders, hframe]
    exact ⟨fun _ => Nat.succ_pos _, fun _ => rfl⟩

-- A render counts whether the document takes it or not.
theorem Coherent.rendered (h : p.Coherent c x q y el drawn) (hids : x.ids.NeverRepeats p.entropy)
    {id : Option String} {markup : String} {result : Except DocumentError Unit} {q' : Page κ}
    {y' : Compiler} (hr : q.Rendered c y id markup result y' q') :
    ∃ el', p.Coherent c x q' y' el' (drawn ++ id.toList) := by
  have hrenders : y'.renders = y.renders + 1 := by rw [hr.frame]
  have hnext : q.document.refusedWrites.refusesNext =
      p.document.refusedWrites.refuses y.renders := by
    rw [h.calls]
    rfl
  have hold := h.renders
  have hdoc := hr.document
  rw [h.root] at hdoc
  cases hn : q.document.refusedWrites.refusesNext with
  | true =>
    -- refused: one render more, and one refusal more
    rw [Document.setMarkup_of_refused hn] at hdoc
    obtain rfl : result = .error (.unknownElement x.root) := (congrArg Prod.fst hdoc).symm
    refine ⟨el, h.after hids hr ?_ (hr.lastMarkup.trans h.markup) ?_⟩
    · rw [← show _ = q'.document from congrArg Prod.snd hdoc]
      exact h.element
    · rw [hrenders, Refusals.refusedAmong_succ, ← hnext, hn, if_pos rfl]
      omega
  | false =>
    -- taken: one render more, and one write more
    have htaken := Document.element?_setMarkup_of_taken hn h.element markup
    rw [hdoc] at htaken
    rw [Document.setMarkup_of_taken hn (by rw [h.element]; rfl)] at hdoc
    obtain rfl : result = .ok () := (congrArg Prod.fst hdoc).symm
    refine ⟨_, h.after hids hr htaken hr.lastMarkup ?_⟩
    rw [hrenders, Refusals.refusedAmong_succ, ← hnext, hn]
    show y.renders + 1 = el.writes + 1 + (p.document.refusedWrites.refusedAmong y.renders + 0)
    omega

theorem Coherent.compile (h : p.Coherent c x q y el drawn) (hids : x.ids.NeverRepeats p.entropy) :
    ∃ y' el' drawn', p.Coherent c x (q.compile c).2 y' el' drawn' := by
  rcases compile_found h.compiler with hidle | ⟨-, y', hs | ⟨id, markup, result, hr⟩⟩
  · rw [hidle]
    exact ⟨y, el, drawn, h⟩
  · exact ⟨y', el, drawn, h.stopped hs⟩
  · obtain ⟨el', h'⟩ := h.rendered hids hr
    exact ⟨y', el', _, h'⟩

theorem Coherent.move (h : p.Coherent c x q y el drawn) (hids : x.ids.NeverRepeats p.entropy)
    {q' : Page κ} (hq : q.Move (Request.Confined c) q') :
    ∃ y' el' drawn', p.Coherent c x q' y' el' drawn' := by
  rcases hq.cases with hs | ⟨d, hd, rfl⟩ | ⟨e, markup, hr, -⟩ | ⟨writes, listens, hr, -⟩ |
    ⟨template, data, root, ids, table, t, hr, -⟩ | ⟨vm, config, hr, -⟩
  · obtain ⟨el', h'⟩ := h.still hs
    exact ⟨y, el', drawn, h'⟩
  -- whoever asks for the compile, it is one of `c`
  · have hdc : d = c := by
      rcases hd with hd | ⟨w, z, hw, hz⟩
      · exact hd
      · rcases h.own hw with ⟨code, hcode⟩ | hrender
        · rw [hz] at hcode
          cases hcode
        · rw [hz] at hrender
          cases hrender
          rfl
    rw [hdc]
    exact h.compile hids
  · exact hr.elim
  · exact hr.elim
  · exact hr.elim
  · exact hr.elim

theorem Coherent.write (h : p.Coherent c x q y el drawn) (o : ObjectId) (key : String)
    (v : Value) :
    p.Coherent c x { q with store := q.store.write o key v } y el drawn := by
  refine ⟨h.compiler, h.template, h.root, h.table, h.hasTable, fun {w z} hw => ?_, h.element,
    h.calls, h.markup, h.renders, h.draws, h.rows, h.count, h.initialized⟩
  exact h.own ((Store.watcher?_write _ _ _ _ w).symm.trans hw)

/-! ## 3. The beginning -/

/-- A new compiler, with a table of its own. -/
def withCompiler (p : Page κ) (template : Template) (data : ObjectId) (root : ElementId)
    (ids : IdSource) : CompilerId × Page κ :=
  p.newTable.2.newCompiler template data root p.newTable.1 ids

-- A new compiler is coherent with an element that nobody has written to.
theorem coherent_withCompiler {p : Page κ}
    (hclient : ∀ {w z}, p.store.watcher? w = some z → ∃ code, z.reaction = .client code)
    {root : ElementId} (hel : p.document.element? root = some el) (hmarkup : el.markup = "")
    (hwrites : el.writes = 0) (template : Template) (data : ObjectId) (ids : IdSource) :
    let made := p.withCompiler template data root ids
    let x : Compiler := { template, data, root, table := p.newTable.1, ids }
    made.2.Coherent made.1 x made.2 x el [] := by
  intro made x
  have htable : made.2.tables.get? p.newTable.1.index = some .empty := by
    show (p.tables.push _).get? p.tables.size = _
    rw [Arena.get?_push, if_pos rfl]
  refine ⟨?_, rfl, rfl, rfl, ?_, fun hw => .inl (hclient hw), hel, rfl, hmarkup.symm, ?_, .none,
    ?_, fun _ => rfl, ?_⟩
  · show (p.compilers.push _).get? p.compilers.size = _
    rw [Arena.get?_push, if_pos rfl]
  · rw [HasTable, htable]
    rfl
  · rw [hwrites]
    rfl
  · rw [Page.table, htable]
    split <;> rfl
  · exact ⟨fun hi => (Bool.false_ne_true hi).elim, fun hn => (Nat.lt_irrefl 0 hn).elim⟩

end Page

/-! ## 4. Every history -/

/-- **A compiler stays coherent** with its element and its table, at every moment of every history
    in which nobody else writes markup; and a compile that comes to no render leaves both of them
    alone, and the counters too. -/
theorem Client.compiler_coherent {c : Client κ σ} {start : Page κ}
    (hclient : ∀ {w z}, start.store.watcher? w = some z → ∃ code, z.reaction = .client code)
    {root : ElementId} {el₀ : Element (Listener κ)}
    (hel : start.document.element? root = some el₀) (hmarkup : el₀.markup = "")
    (hwrites : el₀.writes = 0) {ids : IdSource} (hids : ids.NeverRepeats start.entropy)
    (template : Template) (data : ObjectId) {p : Program κ σ} {s : σ} {h : History κ σ}
    {m : Moment κ σ} :
    let made := start.withCompiler template data root ids
    let x₀ : Compiler := { template, data, root, table := start.newTable.1, ids }
    c.Within (Request.Confined made.1) → p.Within (Request.Confined made.1) →
    c.Lives made.2 s p (h ++ [m]) →
    ∃ x el drawn, made.2.Coherent made.1 x₀ m.page x el drawn ∧
      ∀ {error p'}, m.page.compile made.1 = (.error error, p') → (∀ d, error ≠ .document d) →
        p'.document = m.page.document ∧ p'.tables = m.page.tables ∧
          ∃ x', p'.compiler? made.1 = some x' ∧ x'.renders = x.renders ∧
            x'.initialized = x.initialized ∧ x'.lastMarkup = x.lastMarkup := by
  intro made x₀ hc hp hl
  have hall := hl.all (fun q => ∃ x el drawn, made.2.Coherent made.1 x₀ q x el drawn) hc hp
    (fun ⟨x, el, drawn, hq⟩ hmove => hq.move hids hmove)
    (fun _ ⟨x, el, drawn, hq⟩ => ⟨x, el, drawn, hq.write _ _ _⟩)
    ⟨x₀, el₀, [], Page.coherent_withCompiler hclient hel hmarkup hwrites template data ids⟩
  obtain ⟨x, el, drawn, hm⟩ := hall m (List.mem_append_right _ (List.mem_singleton.2 rfl))
  refine ⟨x, el, drawn, hm, fun {error p'} hrun hdocument => ?_⟩
  cases ht : x.template.isEmpty with
  | true =>
    rw [Page.compile_of_isEmpty hm.compiler ht] at hrun
    cases hrun
  | false =>
    rcases Page.compile_cases hm.compiler ht with ⟨error', x', q, hrun', -, hs⟩ |
      ⟨id, markup, result, x', q, hrun', -⟩
    · rw [hrun] at hrun'
      cases hrun'
      have hframe := hs.frame
      exact ⟨hs.document, hs.tables, x', hs.compiler, by rw [hframe], by rw [hframe],
        by rw [hframe]⟩
    · rw [hrun] at hrun'
      cases result with
      | ok => cases hrun'
      | error d =>
        cases hrun'
        exact (hdocument d rfl).elim

/-- A flag to be shown in something that can be clicked, and a document that refuses its second
    write. -/
def boxPage : Page Unit :=
  { store := (({} : Store (Reaction Unit)).wrap [("on", .bool true)]).2
    document := { (Document.ofIds ["box"] : Document (Listener Unit)) with
      refusedWrites := ⟨0, [false, true]⟩ } }

def boxMade : CompilerId × Page Unit :=
  boxPage.withCompiler (Template.parse "<b @click=\"f\">\x7b\x7bon\x7d\x7d</b>") ⟨⟨0⟩, 0⟩ ⟨1⟩
    (.listed [some "a", none, some "b"])

/-- A client that holds the compiler and does nothing when it is called. -/
def boxClient : Client Unit Unit := { respond := fun _ => .done, holds := fun _ => [.compiler ⟨0⟩] }

/-- Compiles twice, where the second id cannot be drawn, and turns the flag off. -/
def boxProgram : Program Unit Unit :=
  .perform (.compile ⟨0⟩) fun _ => .perform (.compile ⟨0⟩) fun _ =>
    .perform (.set ⟨⟨0⟩, 0⟩ "on" (.bool false)) fun _ => .done

def boxHistory : History Unit Unit := boxClient.history 1 boxMade.2 () boxProgram

theorem compiler_coherent_box :
    ∃ m x₀ x el drawn, boxHistory.getLast? = some m ∧
      boxMade.2.Coherent boxMade.1 x₀ m.page x el drawn ∧ x.renders = 2 := by
  have hrun : (boxClient.run 1 boxProgram ⟨boxMade.2, (), []⟩).isSome = true := by decide +kernel
  have hlast : boxHistory.getLast?.isSome = true := by decide +kernel
  have hrenders : ∀ m ∈ boxHistory.getLast?, ∀ x ∈ m.page.compiler? ⟨0⟩, x.renders = 2 := by
    decide +kernel
  obtain ⟨m, hm⟩ := Option.isSome_iff_exists.1 hlast
  obtain ⟨h, hsplit⟩ := List.getLast?_eq_some_iff.1 hm
  have hlives : boxClient.Lives boxMade.2 () boxProgram boxHistory := Client.lives_history hrun
  rw [hsplit] at hlives
  have hclient : ∀ {w z}, boxPage.store.watcher? w = some z →
      ∃ code, z.reaction = .client code := by
    intro w z hz
    have hnone : boxPage.store.watcher? w = ({} : Store (Reaction Unit)).watcher? w :=
      Store.watcher?_wrap _ _ w
    rw [hnone] at hz
    cases hz
  have hids : (IdSource.listed [some "a", none, some "b"]).NeverRepeats boxPage.entropy :=
    IdSource.neverRepeats_listed (by decide) _
  have hel : boxPage.document.element? ⟨1⟩ = some { id := "box" } := rfl
  have hc : boxClient.Within (Request.Confined boxMade.1) := fun _ => trivial
  have hp : boxProgram.Within (Request.Confined boxMade.1) :=
    ⟨rfl, fun _ => ⟨rfl, fun _ => ⟨trivial, fun _ => trivial⟩⟩⟩
  obtain ⟨x, el, drawn, hcoherent, -⟩ := Client.compiler_coherent hclient hel rfl rfl hids
    (Template.parse "<b @click=\"f\">\x7b\x7bon\x7d\x7d</b>") ⟨⟨0⟩, 0⟩ hc hp hlives
  exact ⟨m, _, x, el, drawn, hm, hcoherent, hrenders m hm x hcoherent.compiler⟩

end ReactiveView
