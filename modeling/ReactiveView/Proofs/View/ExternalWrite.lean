import ReactiveView.Proofs.Page.Rerendering
import ReactiveView.Proofs.View.Freshness

/-!
# Writes to the data of a view

What one write does whose watchers are all watchers of the placeholders: a render for each
placeholder that differs from what it was when the view was mounted, until the document refuses one
of them.
-/

namespace ReactiveView

variable {κ σ : Type}

/-! ## 1. Updating the watchers of the placeholders -/

/-- What an update of watchers comes to that begins `n` renders after the page `p`, where the
    watchers `ds` are due. -/
inductive Page.Swept (p : Page κ) (e : Engine κ) (x : Compiler) (n : Nat) (ds : List WatcherId) :
    Except Failure Unit → Page κ → Prop where
  | done {ids : List String} {q : Page κ} {y : Compiler}
    (htaken : ∀ i < ds.length, p.document.refusedWrites.refuses (n + i) = false)
    (h : p.Rerendered e x (n + ds.length) (n + ds.length) ids q y) : Swept p e x n ds (.ok ()) q
  | refused {i : Nat} {u : WatcherId} {z : Watcher (Reaction κ)} {ids : List String} {q : Page κ}
    {y : Compiler} (hu : ds[i]? = some u) (hz : p.store.watcher? u = some z)
    (htaken : ∀ j < i, p.document.refusedWrites.refuses (n + j) = false)
    (hrefused : p.document.refusedWrites.refuses (n + i) = true)
    (h : p.Rerendered e x (n + i + 1) (n + i) ids q y) :
    Swept p e x n ds
      (.error (.reactive (.callback z.number z.property
        (.engine (.document (.unknownElement x.root)))))) q

-- The first of the due watchers rendered.
theorem Page.Swept.cons {p q : Page κ} {e : Engine κ} {x : Compiler} {n : Nat} {u : WatcherId}
    {ds : List WatcherId} {r : Except Failure Unit}
    (hn : p.document.refusedWrites.refuses n = false) (h : p.Swept e x (n + 1) ds r q) :
    p.Swept e x n (u :: ds) r q := by
  -- render `n` is that of `u`, and those of `ds` are counted from there
  have hfirst : ∀ {k}, (∀ i < k, p.document.refusedWrites.refuses (n + 1 + i) = false) →
      ∀ i < k + 1, p.document.refusedWrites.refuses (n + i) = false := by
    intro k hk i hi
    cases i with
    | zero => exact hn
    | succ i =>
      have hlater := hk i (by omega)
      rwa [Nat.add_assoc, Nat.add_comm 1 i] at hlater
  cases h with
  | done htaken h =>
    rw [Nat.add_assoc, Nat.add_comm 1] at h
    exact .done (hfirst htaken) h
  | @refused i _ z _ _ _ hu hz htaken hrefused h =>
    rw [Nat.add_assoc n 1 i, Nat.add_comm 1 i] at hrefused h
    exact .refused (i := i + 1) hu hz (hfirst htaken) hrefused h

section Sweep

variable (holds : σ → List Node) (serve : Cue κ → Run κ σ Unit) {p q : Page κ} {engine : Engine κ}
  {x y : Compiler} {n : Nat} {ids : List String} {e : EngineId} {s : σ}

theorem Page.Rerendered.engine? (h : p.Rerendered engine x n n ids q y)
    (he : p.engine? e = some engine) : q.engine? e = some engine := by
  rw [Page.engine?, h.engines]
  exact he

-- The data of a view that is held is alive.
theorem Page.Rerendered.alive_data (h : p.Rerendered engine x n n ids q y)
    (he : p.engine? e = some engine) (hheld : Node.engine e ∈ holds s) (pins : List Node) :
    World.alive holds ⟨q, s, pins⟩ (.object x.data) = true := by
  have hdata : y.data = engine.data := h.view.data
  refine Page.alive_of_held (List.mem_append_left _ hheld) (h.engine? he) ?_
  rw [← hdata, h.continues.data]
  simp

variable {u : WatcherId} {number : Nat} {key : String} {baseline : Field}

-- An update of a watcher that is not due is a read.
theorem Page.Rerendered.update_of_idle (h : p.Rerendered engine x n n ids q y)
    (he : p.engine? e = some engine) (hheld : Node.engine e ∈ holds s)
    (hu : p.store.watcher? u = some ⟨number, x.data, key, .render engine.compiler, baseline⟩)
    (hb : p.store.Known baseline) (ho : (p.store.object? x.data).isSome)
    (hdue : p.store.due u = false) (pins : List Node) :
    u.update holds serve ⟨q, s, pins⟩ =
      some (.ok (), ⟨{ q with store := (q.store.get x.data key).2 }, s, pins⟩) := by
  have hq := h.store.watcher hu
  rw [← h.store.due hu ho hb, Store.due_eq hq] at hdue
  rw [WatcherId.update_of_some (w := ⟨q, s, pins⟩) holds serve hq,
    if_pos (h.alive_data holds he hheld pins),
    if_pos (by simpa using hdue)]
  rfl

-- An update of a watcher that is due renders.
theorem Page.Rerendered.update_of_due (h : p.Rerendered engine x n n ids q y)
    (he : p.engine? e = some engine) (hheld : Node.engine e ∈ holds s)
    (hu : p.store.watcher? u = some ⟨number, x.data, key, .render engine.compiler, baseline⟩)
    (hb : p.store.Known baseline) (ho : (p.store.object? x.data).isSome)
    (hdue : p.store.due u = true) {result : Except EngineError Unit} {q' : Page κ}
    (hrun : ({ q with store := (q.store.get x.data key).2 } : Page κ).compile engine.compiler =
      (result, q')) (pins : List Node) :
    u.update holds serve ⟨q, s, pins⟩ =
      some ((result.mapError .engine).mapError fun cause =>
        .reactive (.callback number key cause), ⟨q', s, pins⟩) := by
  have hq := h.store.watcher hu
  rw [← h.store.due hu ho hb, Store.due_eq hq] at hdue
  have hcompiler : ∀ ns, World.alive holds
      { World.read ⟨q, s, pins⟩ x.data key with pins := ns ++ pins }
        (.compiler engine.compiler) = true :=
    fun ns => Page.alive_of_held (List.mem_append_left _ hheld) ((h.read key).engine? he) (by simp)
  have hreact := Watcher.react_render (w := World.read ⟨q, s, pins⟩ x.data key)
    (x := ⟨number, x.data, key, .render engine.compiler, baseline⟩) holds serve rfl hcompiler
    (q.store.field x.data key)
  have hpage : (World.read ⟨q, s, pins⟩ x.data key).page.compile engine.compiler =
    (result, q') := hrun
  rw [hpage] at hreact
  rw [WatcherId.update_of_some (w := ⟨q, s, pins⟩) holds serve hq,
    if_pos (h.alive_data holds he hheld pins),
    if_neg (by simpa using hdue)]
  exact hreact

/-- **One render for each placeholder that is due, up to the first that is refused.** -/
theorem Page.Rerendered.updateAll (h : p.Rerendered engine x n n ids q y)
    (he : p.engine? e = some engine) (hheld : Node.engine e ∈ holds s)
    (ho : (p.store.object? x.data).isSome) {keys : List String} {us : List WatcherId}
    (ht : keys ≠ [] → x.template.isEmpty = false)
    (hus : p.store.Watches x.data (.render engine.compiler) keys us) (pins : List Node) :
    ∃ r q', ReactiveView.updateAll holds serve us ⟨q, s, pins⟩ = some (r, ⟨q', s, pins⟩) ∧
      p.Swept engine x n (us.filter p.store.due) r q' := by
  -- on the watchers: the document counts the renders, and so `n` says which one is next
  induction hus generalizing n ids q y with
  | nil => exact ⟨_, q, rfl, .done (fun i hi => nomatch hi) h⟩
  | @cons key u keys us hu _ ih =>
    obtain ⟨number, baseline, hu, hb⟩ := hu
    have hread := h.read key
    have hblank := ht (List.cons_ne_nil key keys)
    rw [List.filter_cons]
    cases hdue : p.store.due u with
    | false =>
      have hupdate := h.update_of_idle holds serve he hheld hu hb ho hdue pins
      obtain ⟨r, q', hrun, hswept⟩ := ih hread fun _ => hblank
      exact ⟨r, q', (Run.bind_of_ok hupdate).trans hrun, hswept⟩
    | true =>
      cases hn : p.document.refusedWrites.refuses n with
      | false =>
        obtain ⟨ids', q₁, y₁, hcompile, h₁⟩ := hread.taken hblank hn
        have hupdate := h.update_of_due holds serve he hheld hu hb ho hdue hcompile pins
        obtain ⟨r, q', hrun, hswept⟩ := ih h₁ fun _ => hblank
        exact ⟨r, q', (Run.bind_of_ok hupdate).trans hrun, hswept.cons hn⟩
      | true =>
        obtain ⟨ids', q₁, y₁, hcompile, h₁⟩ := hread.refused hblank hn
        have hupdate := h.update_of_due holds serve he hheld hu hb ho hdue hcompile pins
        exact ⟨_, q₁, Run.bind_of_error hupdate,
          .refused (i := 0) rfl hu (fun j hj => nomatch hj) hn h₁⟩

end Sweep

/-! ## 2. The effect of one write -/

/-- The compiler `x` has rendered `n` times since the page `p`, and the document took the first `k`
    of these renders. -/
structure Page.Effect (p : Page κ) (x : Compiler) (n k : Nat) (p' : Page κ) (x' : Compiler) :
    Prop where
  renders : x'.renders = x.renders + n
  bindings : (p'.table x.table).size =
    (p.table x.table).size + if x.template.binding?.isSome then n else 0
  element : ∃ el el', p.document.element? x.root = some el ∧
    p'.document.element? x.root = some el' ∧ el'.writes = el.writes + k ∧
      el'.markup = if k = 0 then el.markup else x'.lastMarkup
  markup : x'.lastMarkup =
    if k = 0 then x.lastMarkup
    else x.template.render (fun key => (p'.store.field x.data key).display)
      (x.template.binding?.bind fun _ => (x.ids.firstIds n p.entropy)[k - 1]?)

/-- The placeholders whose fields in `o` are not those that the store `s₀` had, in the order of the
    template and with repeats, each with its watcher. -/
def Compiler.changed (x : Compiler) (o : ObjectId) (s₀ s : Store (Reaction κ)) :
    List (String × WatcherId) :=
  (x.template.slots.zip x.watchers).filter fun slot =>
    !(s.field o slot.1).strictEqual (s₀.field o slot.1)

section Changes

variable {s₀ s : Store (Reaction κ)} {o : ObjectId} {reaction : Reaction κ}

-- Watchers are due where their placeholders have changed.
theorem Store.WatchesSince.filter_due {keys : List String} {ws : List WatcherId}
    (h : s₀.WatchesSince s o reaction keys ws) :
    ws.filter s.due = ((keys.zip ws).filter fun slot =>
      !(s.field o slot.1).strictEqual (s₀.field o slot.1)).map Prod.snd := by
  induction h with
  | nil => rfl
  | @cons key w keys ws hw _ ih =>
    obtain ⟨number, hw⟩ := hw
    rw [List.zip_cons_cons, List.filter_cons, List.filter_cons, due_eq hw, ih]
    split <;> rfl

variable {x : Compiler} (h : s₀.WatchesSince s o reaction x.template.slots x.watchers)

include h

theorem Compiler.length_changed : (x.watchers.filter s.due).length = (x.changed o s₀ s).length := by
  rw [h.filter_due, List.length_map]
  rfl

theorem Compiler.due_of_changed {i : Nat} {slot : String} {u : WatcherId}
    (hslot : (x.changed o s₀ s)[i]? = some (slot, u)) :
    (x.watchers.filter s.due)[i]? = some u ∧
      s.watcher? u = some ⟨s.number u, o, slot, reaction, s₀.field o slot⟩ := by
  refine ⟨?_, ?_⟩
  · rw [h.filter_due, List.getElem?_map]
    exact congrArg (Option.map Prod.snd) hslot
  · have hzip : (slot, u) ∈ x.template.slots.zip x.watchers :=
      (List.mem_filter.1 (List.mem_of_getElem? hslot)).1
    obtain ⟨number, hu⟩ := (List.forall₂_iff_zip.1 h).2 hzip
    rw [Store.number, hu]

end Changes

/-- No other compiler records its ids in the table of `x`.  A mounted view has its table to
    itself. -/
def Page.OwnsTable (p : Page κ) (c : CompilerId) (x : Compiler) : Prop :=
  ∀ {d y}, p.compiler? d = some y → y.table = x.table → d = c

section Effects

variable {p q : Page κ} {engine : Engine κ} {x y : Compiler} {n k : Nat} {ids : List String}

-- The ids of the renders are new to the table of a view.  Random ones are only as far as the
-- random words differ.
theorem Page.Rerendered.newIds (h : p.Rerendered engine x n k ids q y) (hm : p.Mounted engine x)
    (ht : p.Traced) (hown : p.OwnsTable engine.compiler x) {bound : Nat} (hbound : n ≤ bound)
    (hrandom : x.ids = .random → x.ids.NewAmong p.entropy bound (p.table x.table).ids) :
    ids.Nodup ∧ ∀ id ∈ ids, id ∉ (p.table x.table).ids := by
  have hends := hm.endless
  have hdrawn := h.drawn
  -- one id for each render, or none without a binding
  have hlength : ids.length ≤ bound := by
    have hcount := h.count
    split at hcount <;> omega
  cases hids : x.ids with
  | random =>
    obtain ⟨hnodup, hnew⟩ := hrandom hids
    -- random ids are new only by assumption
    have hfirst : ids <+: IdSource.firstIds bound x.ids p.entropy := by
      rw [hdrawn.firstIds hends]
      exact IdSource.firstIds_prefix hlength _ _
    exact ⟨hfirst.sublist.nodup hnodup, fun id hid => hnew id (hfirst.subset hid)⟩
  | sequential stem next =>
    rw [hids] at hdrawn
    obtain ⟨hnodup, hnew, -⟩ := hdrawn.sequential
    refine ⟨hnodup, fun id hid hold => ?_⟩
    -- the id would have been given by another compiler
    obtain ⟨d, z, hz, htable, hgiven⟩ := ht hold
    obtain rfl := hown hz htable
    rw [hm.found] at hz
    cases hz
    rw [hids] at hgiven
    exact hnew id hid hgiven
  | listed _ =>
    rw [hids] at hends
    exact hends.elim

theorem Page.Rerendered.effect (h : p.Rerendered engine x n k ids q y) (hm : p.Mounted engine x)
    (hnew : ids.Nodup ∧ ∀ id ∈ ids, id ∉ (p.table x.table).ids) : p.Effect x n k q y := by
  have htable := h.table
  have hcount := h.count
  have hfirst := h.drawn.firstIds hm.endless
  obtain ⟨el, hel⟩ := Option.isSome_iff_exists.1 hm.element
  refine ⟨h.renders, ?_, ⟨el, _, hel, h.element hel, rfl, rfl⟩, ?_⟩
  · cases hb : x.template.binding? with
    | none =>
      rw [hb] at htable
      exact congrArg BindingTable.size htable
    | some b =>
      simp only [hb] at htable hcount
      rw [htable, BindingTable.size_insertAll hnew.1 hnew.2, hcount]
  · rw [h.lastMarkup]
    refine if_congr Iff.rfl rfl (congrArg (x.template.render _) ?_)
    cases hb : x.template.binding? with
    | none =>
      have hnil : ids = [] := List.length_eq_zero_iff.1 (by simpa [hb] using hcount)
      rw [hnil]
      rfl
    | some b =>
      have hlength : ids.length = n := by simpa [hb] using hcount
      rw [hlength] at hfirst
      rw [hfirst]
      rfl

-- Which renders the document takes decides on the outcome.
theorem Page.Swept.effect {ds : List WatcherId} {r : Except Failure Unit}
    (h : p.Swept engine x 0 ds r q) (hm : p.Mounted engine x) (ht : p.Traced)
    (hown : p.OwnsTable engine.compiler x)
    (hrandom : x.ids = .random → x.ids.NewAmong p.entropy ds.length (p.table x.table).ids) :
    ∃ y, q.compiler? engine.compiler = some y ∧
      (∀ {key v}, p.store.Holds x.data key v → q.store.Holds x.data key v) ∧
      ((∀ i < ds.length, p.document.refusedWrites.refuses i = false) →
        r = .ok () ∧ p.Effect x ds.length ds.length q y) ∧
      ∀ {i u z}, ds[i]? = some u → p.store.watcher? u = some z →
        (∀ j < i, p.document.refusedWrites.refuses j = false) →
          p.document.refusedWrites.refuses i = true →
            r = .error (.reactive (.callback z.number z.property
              (.engine (.document (.unknownElement x.root))))) ∧ p.Effect x (i + 1) i q y := by
  cases h with
  | @done _ _ y htaken h =>
    simp only [Nat.zero_add] at htaken h
    refine ⟨y, h.view.found, h.holds, fun _ => ⟨rfl, ?_⟩, fun {i u z} hu _ _ hrefused => ?_⟩
    · exact h.effect hm (h.newIds hm ht hown (Nat.le_refl _) hrandom)
    · obtain ⟨hi, -⟩ := List.getElem?_eq_some_iff.1 hu
      rw [htaken i hi] at hrefused
      cases hrefused
  | @refused i u z _ _ y hu hz htaken hrefused h =>
    simp only [Nat.zero_add] at htaken hrefused h
    obtain ⟨hi, -⟩ := List.getElem?_eq_some_iff.1 hu
    refine ⟨y, h.view.found, h.holds, fun hall => ?_, fun {j v z'} hv hz' htaken' hrefused' => ?_⟩
    · rw [hall i hi] at hrefused
      cases hrefused
    · -- the first refusal is the same in both accounts
      obtain hlt | rfl | hlt := Nat.lt_trichotomy i j
      · rw [htaken' i hlt] at hrefused
        cases hrefused
      · rw [hu] at hv
        cases hv
        rw [hz] at hz'
        cases hz'
        exact ⟨rfl, h.effect hm (h.newIds hm ht hown hi hrandom)⟩
      · rw [htaken j hlt] at hrefused'
        cases hrefused'

end Effects

/-- **The effect of one write** to the data of a view that has no other watchers.  The view renders
    once for each placeholder whose field differs from the one read when the view was mounted, until
    the document refuses a render; whatever else the client did before makes no difference. -/
theorem Client.set_effect {c : Client κ σ} {program : Program κ σ}
    {document : Document (Listener κ)} {entropy : Entropy} {s : σ} {h : History κ σ}
    {m : Moment κ σ} (hl : c.Lives { document, entropy } s program (h ++ [m])) {e : EngineId}
    {m₀ : Moment κ σ} (hm₀ : m₀ ∈ h) {p₀ : Page κ} (hmounted : m₀.mounted? = some (e, p₀))
    {engine : Engine κ} (he : m.page.engine? e = some engine)
    (hheld : .engine e ∈ c.holds m.client) {x : Compiler}
    (hx : m.page.compiler? engine.compiler = some x)
    (hwatchers : m.page.store.registered (.ofObject engine.data) = x.watchers)
    (htable : m.page.OwnsTable engine.compiler x) (key : String) (v : Value)
    (hrandom : x.ids = .random → x.ids.NewAmong m.page.entropy
      (x.changed engine.data p₀.store (m.page.store.write engine.data key v)).length
      (m.page.table x.table).ids)
    (serve : Cue κ → Run κ σ Unit) (pins : List Node) :
    let written := m.page.store.write engine.data key v
    let changed := x.changed engine.data p₀.store written
    let refuses := m.page.document.refusedWrites.refuses
    p₀.store.WatchesSince written engine.data (.render engine.compiler) x.template.slots
      x.watchers ∧
    ∃ r p' x',
      engine.data.set c.holds serve key v ⟨m.page, m.client, pins⟩ =
        some (r, ⟨p', m.client, pins⟩) ∧
      p'.compiler? engine.compiler = some x' ∧
      p'.store.Holds engine.data key v ∧
      ((∀ i < changed.length, refuses i = false) →
        r = .ok () ∧ m.page.Effect x changed.length changed.length p' x') ∧
      ∀ {i slot u}, changed[i]? = some (slot, u) →
        (∀ j < i, refuses j = false) → refuses i = true →
          r = .error (.reactive (.callback (m.page.store.number u) slot
            (.engine (.document (.unknownElement engine.root))))) ∧
          m.page.Effect x (i + 1) i p' x' := by
  intro written changed refuses
  have hall := hl.all (fun p => p.Orderly ∧ p.Traced) (fun cue => (c.respond cue).within_all)
    program.within_all
    (fun hp hq => ⟨hp.1.move hq, hq.traced hp.2⟩)
    (fun _ hp => ⟨hp.1.write _ _ _, fun hid => hp.2 hid⟩)
    ⟨Page.orderly_of_document document entropy, fun hid => nomatch hid⟩
  obtain ⟨horderly, htraced⟩ := hall m (List.mem_append_right _ (List.mem_singleton.2 rfl))
  obtain ⟨y, hbefore⟩ := horderly.mounted he
  obtain rfl : y = x := Option.some.inj (hbefore.found.symm.trans hx)
  have hobject : (m.page.store.object? engine.data).isSome := by
    rw [← hbefore.data]
    exact hbefore.object
  -- the write changes nothing of the view but what its placeholders read
  have hm := hbefore.write engine.data key v
  have hsound := (horderly.write engine.data key v).sound
  have hsince : p₀.store.WatchesSince written engine.data (.render engine.compiler)
      y.template.slots y.watchers :=
    (hl.watchesSince hm₀ hmounted he hx).grows (Store.grows_write _ engine.data key v)
  have hblank : y.template.slots ≠ [] → y.template.isEmpty = false := by
    intro hslots
    cases ht : y.template.isEmpty with
    | true => exact (hslots (hm.blank ht)).elim
    | false => rfl
  obtain ⟨r, q, hrun, hswept⟩ := (Page.Rerendered.refl hm hsound).updateAll c.holds serve he hheld
    hm.object hblank hm.watches (y.watchers.map .watcher ++ .object engine.data :: pins)
  have hlength : (y.watchers.filter written.due).length = changed.length :=
    Compiler.length_changed hsince
  rw [← hlength] at hrandom
  obtain ⟨x', hx', hholds, hok, herror⟩ := hswept.effect hm (fun hid => htraced hid) htable hrandom
  rw [hm.data] at hholds
  rw [hlength] at hok
  refine ⟨hsince, r, q, x', ?_, hx', hholds (Store.holds_write hobject key v),
    fun hall => ?_, fun {i slot u} hslot htaken hrefused => ?_⟩
  · rw [ObjectId.set_apply, hwatchers]
    exact congrArg (Option.map _) hrun
  · obtain ⟨hr, heffect⟩ := hok hall
    exact ⟨hr, heffect.renders, heffect.bindings, heffect.element, heffect.markup⟩
  · -- the watcher that failed is the one of this placeholder
    obtain ⟨hdue, hu⟩ := Compiler.due_of_changed hsince hslot
    have hnumber : written.number u = m.page.store.number u := by
      rw [Store.number, Store.number, Store.watcher?_write]
    rw [hnumber] at hu
    obtain ⟨hr, heffect⟩ := herror hdue hu htaken hrefused
    rw [hm.root] at hr
    exact ⟨hr, heffect.renders, heffect.bindings, heffect.element, heffect.markup⟩

/-- A view that shows a switch once and its opposite twice, in something that can be clicked. -/
def pairView : ViewModel Unit :=
  { data := [("on", .bool true), ("off", .bool false)]
    template := "<b @click=\"f\">\x7b\x7bon\x7d\x7d\x7b\x7boff\x7d\x7d\x7b\x7boff\x7d\x7d</b>" }

/-- Mounts the pair, holds it and switches it, in two writes that come to four renders. -/
def pairProgram : Program Unit (List Node) :=
  .perform (.mount pairView { rootId := "pair", ids := .sequential "f" }) fun
    | .error error => .fail error
    | .ok e => .remember (fun _ => [.engine e]) <| .look fun p =>
      match p.engine? e with
      | none => .done
      | some engine =>
        .perform (.set engine.data "on" (.bool false)) fun _ =>
          .perform (.set engine.data "off" (.bool true)) fun _ => .done

/-- A document that is going to refuse its seventh write. -/
def pairDocument : Document (Listener Unit) :=
  { (Document.ofIds ["pair"] : Document (Listener Unit)) with
    refusedWrites := ⟨0, [false, false, false, false, false, false, true]⟩ }

def pairHistory : History Unit (List Node) :=
  flagClient.history 1 { document := pairDocument } [] pairProgram

-- The first placeholder is switched back and has no part in the renders, so that the refused one is
-- that of the last watcher.
theorem set_effect_pair :
    ∃ m₀ p₀ m engine x p' x', m₀ ∈ pairHistory ∧ m₀.mounted? = some (⟨0⟩, p₀) ∧
      pairHistory.getLast? = some m ∧ m.page.engine? ⟨0⟩ = some engine ∧
      m.page.compiler? engine.compiler = some x ∧ x.template.slots = ["on", "off", "off"] ∧
      x.changed engine.data p₀.store m.page.store = x.template.slots.zip x.watchers ∧
      (x.changed engine.data p₀.store (m.page.store.write engine.data "on" (.bool true))).map
        (fun slot => (slot.1, m.page.store.number slot.2)) = [("off", 2), ("off", 3)] ∧
      engine.data.set flagClient.holds (fun _ => Run.exhausted) "on" (.bool true)
        ⟨m.page, m.client, []⟩ =
          some (.error (.reactive (.callback 3 "off"
            (.engine (.document (.unknownElement engine.root))))), ⟨p', m.client, []⟩) ∧
      m.page.Effect x 2 1 p' x' := by
  have hrun : (flagClient.run 1 pairProgram
      ⟨{ document := pairDocument }, [], []⟩).isSome = true := by decide +kernel
  have hfirst : (pairHistory.dropLast.head?.bind Moment.mounted?).isSome = true := by
    decide +kernel
  have hlast : (pairHistory.getLast?.bind fun m => (m.page.engine? ⟨0⟩).bind fun engine =>
      m.page.compiler? engine.compiler).isSome = true := by decide +kernel
  have hfacts : ∀ m ∈ pairHistory.getLast?, ∀ engine ∈ m.page.engine? ⟨0⟩,
      ∀ x ∈ m.page.compiler? engine.compiler,
        .engine ⟨0⟩ ∈ flagClient.holds m.client ∧
        m.page.store.registered (.ofObject engine.data) = x.watchers ∧
        m.page.compilers.size = 1 ∧ engine.compiler.index = 0 ∧ x.ids ≠ .random ∧
        m.page.document.refusedWrites.refuses 0 = false ∧
        m.page.document.refusedWrites.refuses 1 = true ∧
        x.template.slots = ["on", "off", "off"] := by
    decide +kernel
  have hchanges : ∀ m₀ ∈ pairHistory.dropLast.head?, ∀ mounted ∈ m₀.mounted?, mounted.1 = ⟨0⟩ ∧
      ∀ m ∈ pairHistory.getLast?, ∀ engine ∈ m.page.engine? ⟨0⟩,
        ∀ x ∈ m.page.compiler? engine.compiler,
          x.changed engine.data mounted.2.store m.page.store = x.template.slots.zip x.watchers ∧
          (x.changed engine.data mounted.2.store
            (m.page.store.write engine.data "on" (.bool true))).map
              (fun slot => (slot.1, m.page.store.number slot.2)) = [("off", 2), ("off", 3)] := by
    decide +kernel
  obtain ⟨⟨e, p₀⟩, hmounted⟩ := Option.isSome_iff_exists.1 hfirst
  obtain ⟨m₀, hhead, hmounted⟩ := Option.bind_eq_some_iff.1 hmounted
  obtain ⟨x, hx⟩ := Option.isSome_iff_exists.1 hlast
  obtain ⟨m, hm, hx⟩ := Option.bind_eq_some_iff.1 hx
  obtain ⟨engine, he, hx⟩ := Option.bind_eq_some_iff.1 hx
  obtain ⟨hheld, hwatchers, hsize, hcompiler, hids, htaken, hrefused, hslots⟩ :=
    hfacts m hm engine he x hx
  obtain ⟨rfl, hchanges⟩ := hchanges m₀ hhead _ hmounted
  obtain ⟨hbefore, hafter⟩ := hchanges m hm engine he x hx
  have hm₀ : m₀ ∈ pairHistory.dropLast := List.mem_of_head? hhead
  obtain ⟨h, hsplit⟩ := List.getLast?_eq_some_iff.1 hm
  have hlives : flagClient.Lives { document := pairDocument } [] pairProgram pairHistory :=
    Client.lives_history hrun
  rw [hsplit] at hlives
  have hearlier : m₀ ∈ h := by
    rwa [hsplit, List.dropLast_concat] at hm₀
  have htable : m.page.OwnsTable engine.compiler x := by
    intro d y hy _
    have hlt : d.index < m.page.compilers.size := by
      rw [← Arena.get?_isSome_iff, show m.page.compilers.get? d.index = some y from hy]
      rfl
    obtain ⟨i⟩ := d
    rw [hsize] at hlt
    exact congrArg CompilerId.mk ((Nat.lt_one_iff.1 hlt).trans hcompiler.symm)
  have hthird : ((x.changed engine.data p₀.store
      (m.page.store.write engine.data "on" (.bool true)))[1]?).map (fun slot =>
        (slot.1, m.page.store.number slot.2)) = some ("off", 3) := by
    rw [← List.getElem?_map]
    exact congrArg (fun slots => slots[1]?) hafter
  obtain ⟨⟨slot, u⟩, hsecond, hthird⟩ := Option.map_eq_some_iff.1 hthird
  obtain ⟨rfl, hnumber⟩ := Prod.mk.inj hthird
  obtain ⟨-, r, p', x', hset, -, -, -, herror⟩ := Client.set_effect hlives hearlier hmounted he
    hheld hx hwatchers htable "on" (.bool true) (fun h => absurd h hids)
    (fun _ => Run.exhausted) []
  obtain ⟨rfl, heffect⟩ := herror hsecond (fun j hj => Nat.lt_one_iff.1 hj ▸ htaken) hrefused
  rw [hnumber] at hset
  exact ⟨m₀, p₀, m, engine, x, p', x', List.dropLast_subset _ hm₀, hmounted, hm, he, hx,
    hslots, hbefore, hafter, hset, heffect⟩

end ReactiveView
