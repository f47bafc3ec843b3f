import ReactiveView.Proofs.Client.Scopes
import ReactiveView.Proofs.Store.Enrolment
import ReactiveView.Proofs.Store.Numbering

/-!
# Collections

Collections are bracketed, however they nest and whatever becomes of their bodies: somebody is
collecting in a tree just while a collection is open on it.  An attempt to collect there in between,
or to create a watcher, is refused and leaves everything as it was but for the number that the new
watcher would have got.
-/

namespace ReactiveView

variable {κ σ : Type}

/-! ## 1. Numbers -/

theorem Operation.issued_effect (op : Operation κ) (p : Page κ) (t : TreeId) :
    p.store.issued t ≤ (op.effect p).store.issued t :=
  op.effect_keeps p (fun s => p.store.issued t ≤ s.issued t)
    (fun o key v hs => Nat.le_trans hs (Nat.le_of_eq (Store.issued_write _ o key v t).symm))
    (fun _ hs => Nat.le_trans hs (Store.Change.issued_le _ _ t)) (Nat.le_refl _)

theorem Moment.issued_store (m : Moment κ σ) (t : TreeId) :
    m.page.store.issued t ≤ m.store.issued t := by
  rw [Moment.store]
  cases m.request with
  | perform op => exact op.issued_effect m.page t
  | collect u w => exact (Store.Change.begin u w).issued_le m.page.store t
  | finish => exact Nat.le_refl _

-- No number is given out twice, and none is taken back.
theorem course_numbered : Course (fun _ : Request κ => True) Store.Numbered
    fun _ s s' => ∀ t, s.issued t ≤ s'.issued t := by
  refine ⟨trivial, .empty, fun {s o key v} _ h => h.write o key v,
    fun {s change} _ h => h.change change, fun s t => Nat.le_refl _,
    fun {W r s} o key v _ h t => ?_, fun {W r s change} _ _ h t => ?_⟩
  · rw [Store.issued_write]
    exact h t
  · exact Nat.le_trans (h t) (change.issued_le s t)

/-! ## 2. Refusals -/

namespace Store

variable {ρ : Type}

theorem steady_issue (s : Store ρ) (t : TreeId) : s.Steady (s.issue t).2 := by
  refine ⟨fun r => ?_, watcher?_issue s t, active_issue s t⟩
  cases r with
  | ofObject o => exact registered_congr (object?_issue s t o)
  | free i => exact registered_free_congr rfl i

-- Where somebody is collecting, a new watcher is refused, and has used up its number.
theorem watch_refused {s : Store ρ} {o : ObjectId} {a : WatcherId} {x : Watcher ρ}
    (ha : s.active o.tree = some a) (hx : s.watcher? a = some x) (key : String) (reaction : ρ) :
    ∃ s', s.watch o key reaction =
        (.error (.collecting x.number (s.issued o.tree + 1)), s') ∧
      s.Steady s' ∧ ∀ q, s'.object? q = s.object? q := by
  refine ⟨_, ?_, s.steady_issue o.tree, s.object?_issue o.tree⟩
  have hnumber : s.number a = x.number := by rw [number, hx]
  rw [← hnumber]
  exact watch_of_active ha key reaction

end Store

-- Where somebody is collecting, nobody else begins to.
theorem TreeId.collect_of_active {p : Page κ} {t : TreeId} {a : WatcherId}
    {x : Watcher (Reaction κ)} (ha : p.store.active t = some a) (hx : p.store.watcher? a = some x)
    {w : WatcherId} {y : Watcher (Reaction κ)} (hy : p.store.watcher? w = some y)
    (body : Run κ σ Unit) (state : σ) (pins : List Node) :
    t.collect w body ⟨p, state, pins⟩ =
      some (.error (.reactive (.collecting x.number y.number)), ⟨p, state, pins⟩) := by
  have hbegin : p.store.begin t w = .error (.collecting x.number y.number) := by
    rw [Store.begin, ha]
    dsimp only
    rw [Store.number, Store.number, hx, hy]
  rw [collect, hbegin]

/-! ## 3. Every history -/

/-- **Collections are bracketed** at every moment of every history, in which they may nest across
    trees and calls.  The open scopes are on different trees, and on each of these trees the watcher
    of its scope is collecting; nobody is collecting anywhere else.  Where somebody is collecting,
    another collection and a new watcher are refused with the numbers of the two watchers; elsewhere
    neither is.  Every run of a program leaves each tree as it found it, whatever its outcome.  The
    numbers of a tree start at one and rise with every attempt to create a watcher. -/
theorem Client.collections_bracketed {c : Client κ σ} {p : Program κ σ}
    {document : Document (Listener κ)} {entropy : Entropy} {s : σ}
    {g : History κ (σ × List Scope)} {m : Moment κ (σ × List Scope)}
    (hl : c.scoping.Lives { document, entropy } (s, []) p.scoping (g ++ [m]))
    (hg : ∀ m' ∈ g, m'.Placed) :
    let store := m.page.store
    (∀ {t w}, store.active t = some w ↔ ⟨t, w⟩ ∈ m.client.2) ∧
    (m.client.2.map Scope.tree).Nodup ∧
    (∀ {t a}, store.active t = some a → ∃ x, store.watcher? a = some x ∧
      (∀ {w y}, store.watcher? w = some y → ∀ (body : Run κ σ Unit) state pins,
        t.collect w body ⟨m.page, state, pins⟩ =
          some (.error (.reactive (.collecting x.number y.number)), ⟨m.page, state, pins⟩)) ∧
      ∀ o key reaction, o.tree = t → ∃ store',
        store.watch o key reaction =
          (.error (.collecting x.number (store.issued t + 1)), store') ∧
        (∀ u, store'.active u = store.active u) ∧
        (∀ r, store'.registered r = store.registered r) ∧
        (∀ q, store'.object? q = store.object? q) ∧
        ∀ w, store'.watcher? w = store.watcher? w) ∧
    (∀ {t}, store.active t = none →
      (∀ w, store.begin t w = .ok (store.occupy t w)) ∧
      ∀ o key reaction, o.tree = t → ∃ w store',
        store.watch o key reaction = (.ok w, store') ∧ store.Watched o key reaction w store') ∧
    (∀ {depth q world result world'}, c.run depth q world = some (result, world') →
      ∀ t, world'.page.store.active t = world.page.store.active t) ∧
    (∀ {w x}, store.watcher? w = some x → 0 < x.number ∧ x.number ≤ store.issued w.tree) ∧
    (∀ {w w' x x'}, store.watcher? w = some x → store.watcher? w' = some x' → w.tree = w'.tree →
      (w.index < w'.index → x.number < x'.number) ∧ (x.number = x'.number → w = w')) ∧
    (∀ fields, (store.wrap fields).2.issued (store.wrap fields).1.tree = 0) ∧
    (∀ {o}, (store.object? o).isSome → ∀ key reaction t,
      (store.watch o key reaction).2.issued t =
        if o.tree = t then store.issued t + 1 else store.issued t) ∧
    ∀ {g₀ m₀ g₁}, g = g₀ ++ m₀ :: g₁ →
      (∀ t, m₀.page.store.issued t ≤ store.issued t) ∧
      ∀ {o key code}, m₀.request = .perform (.watch o key code) →
        (m₀.page.store.object? o).isSome → m₀.page.store.issued o.tree < store.issued o.tree := by
  intro store
  have hb := hl.bracketed .empty hg
  obtain ⟨hn, hpast⟩ := hl.course (fun cue => (c.scoping.respond cue).within_all)
    p.scoping.within_all course_numbered
  have hattempt : ∀ {s : Store (Reaction κ)} {o}, (s.object? o).isSome → ∀ key reaction t,
      (s.watch o key reaction).2.issued t = if o.tree = t then s.issued t + 1 else s.issued t :=
    fun ho key reaction t => by
      rw [Store.issued_watch, Store.issued_issue (Store.hasTree_of_object? ho)]
  refine ⟨hb.active, hb.single, fun {t a} ha => ?_, fun {t} ha => ⟨fun w => ?_, ?_⟩,
    fun {depth q world result world'} hrun t => ?_, hn.given,
    fun {w w' x x'} hx hx' ht => ?_, store.issued_wrap_fst, hattempt,
    fun {g₀ m₀ g₁} hh => ⟨fun t => ?_, fun {o key code} hr ho => ?_⟩⟩
  · obtain ⟨x, hx⟩ := Option.isSome_iff_exists.1 (hb.watcher (hb.active.1 ha))
    refine ⟨x, hx, TreeId.collect_of_active ha hx, ?_⟩
    rintro o key reaction rfl
    obtain ⟨store', hrun, hsteady, hobject⟩ := Store.watch_refused ha hx key reaction
    exact ⟨store', hrun, hsteady.active, hsteady.registered, hobject, hsteady.watcher⟩
  · rw [Store.begin, ha]
  · rintro o key reaction rfl
    exact Store.watch_of_active_eq_none ha key reaction
  · exact c.run_collecting depth q _ _ (fun _ => rfl) _ _ hrun t
  · refine ⟨fun hij => ?_, hn.eq_of_number hx hx' ht⟩
    obtain ⟨t, i⟩ := w
    cases (ht : t = w'.tree)
    exact hn.rising hx hx' hij
  · exact Nat.le_trans (m₀.issued_store t) (hpast hh t)
  · have hone := hattempt ho key (.client code) o.tree
    rw [if_pos rfl] at hone
    have hstore : m₀.store = (m₀.page.store.watch o key (.client code)).2 := by
      rw [Moment.store, hr]
      rfl
    have hle := hpast hh o.tree
    rw [hstore, hone] at hle
    exact hle

/-- A client whose callbacks try to collect. -/
def collectingClient : Client Unit Unit where
  respond _ := .collect ⟨0⟩ ⟨⟨0⟩, 1⟩ .done fun _ => .done
  holds _ := []

/-- Writes to an observable while one of its two watchers is collecting. -/
def collectingProgram : Program Unit Unit :=
  .perform (.observe (.object [("x", .bool false)]) none) fun _ =>
    .perform (.watch ⟨⟨0⟩, 0⟩ "x" ()) fun _ => .perform (.watch ⟨⟨0⟩, 0⟩ "x" ()) fun _ =>
      .collect ⟨0⟩ ⟨⟨0⟩, 0⟩
        (.perform (.set ⟨⟨0⟩, 0⟩ "x" (.bool true)) fun _ => .done) fun _ => .done

def collectingHistory : History Unit (Unit × List Scope) :=
  collectingClient.scoping.history 2 { document := {} } ((), []) collectingProgram.scoping

theorem collections_bracketed_nested :
    ∃ m x y, collectingHistory[5]? = some m ∧ m.request.scope? = some ⟨⟨0⟩, ⟨⟨0⟩, 1⟩⟩ ∧
      m.page.store.active ⟨0⟩ = some ⟨⟨0⟩, 0⟩ ∧
      m.page.store.watcher? ⟨⟨0⟩, 0⟩ = some x ∧ m.page.store.watcher? ⟨⟨0⟩, 1⟩ = some y ∧
      x.number < y.number ∧
      TreeId.collect ⟨0⟩ ⟨⟨0⟩, 1⟩ (Run.fail (.client "mood" "not now")) ⟨m.page, (), []⟩ =
        some (.error (.reactive (.collecting x.number y.number)), ⟨m.page, (), []⟩) := by
  have hrun : (collectingClient.run 2 collectingProgram
      ⟨{ document := {} }, (), []⟩).isSome = true := by decide +kernel
  have hsome : (collectingHistory[5]?).isSome = true := by decide +kernel
  have hplaced : ∀ m ∈ collectingHistory.take 5, ∀ x ∈ m.request.scope?,
      (m.page.store.trees.get? x.tree.index).isSome = true ∧
        (m.page.store.watcher? x.watcher).isSome = true := by decide +kernel
  have hnow : ∀ m ∈ collectingHistory[5]?, m.request.scope? = some ⟨⟨0⟩, ⟨⟨0⟩, 1⟩⟩ ∧
      m.client.2 = [⟨⟨0⟩, ⟨⟨0⟩, 0⟩⟩] ∧ (m.page.store.watcher? ⟨⟨0⟩, 1⟩).isSome = true := by
    decide +kernel
  obtain ⟨m, hm⟩ := Option.isSome_iff_exists.1 hsome
  obtain ⟨hrequest, hscopes, hsecond⟩ := hnow m hm
  obtain ⟨y, hy⟩ := Option.isSome_iff_exists.1 hsecond
  obtain ⟨hactive, -, hrefuse, -, -, -, hnumbers, -⟩ :=
    Client.collections_bracketed (Client.lives_take (Client.isSome_scoping_run hrun) hm) hplaced
  have ha : m.page.store.active ⟨0⟩ = some ⟨⟨0⟩, 0⟩ := by
    rw [hactive, hscopes]
    exact List.mem_singleton.2 rfl
  obtain ⟨x, hx, hcollect, -⟩ := hrefuse ha
  exact ⟨m, x, y, hm, hrequest, ha, hx, hy, (hnumbers hx hy rfl).1 Nat.zero_lt_one,
    hcollect hy _ _ _⟩

end ReactiveView
