import ReactiveView.Proofs.Observable.Shape
import ReactiveView.Proofs.Page.Lifetimes
import ReactiveView.Proofs.Watcher.Registration

/-!
# Releasing observables

An observable that nothing held leads to is released, unless a watcher keeps itself alive that leads
to it.  A watcher does so once it is registered with its own baseline or with something below that,
which takes a registration by hand or a collection: a new watcher is registered with its source, and
the source stands above the baseline.
-/

namespace ReactiveView

/-! ## 1. Baselines -/

namespace Store

variable {ρ : Type} {s : Store ρ}

/-- Observables are nested below their parents, and watchers keep observables from below their
    sources. -/
structure Layered (s : Store ρ) : Prop where
  forest : s.Forest
  baseline : ∀ {w x n}, s.watcher? w = some x → x.baseline = .proxy n → x.source.index < n.index

theorem Layered.empty : ({} : Store ρ).Layered := ⟨.empty, fun h => nomatch h⟩

-- What a read gives stands below the observable that is read.
theorem Forest.lt_of_field (h : s.Forest) {o n : ObjectId} {key : String}
    (hn : s.field o key = .proxy n) : o.index < n.index := by
  rcases field_eq_proxy hn with hs | ⟨fields, hs, rfl⟩
  · exact h.below (nests_of_slot? hs)
  · exact (Arena.get?_isSome_iff _ _).1 (object?_isSome_of_slot? hs)

-- A watcher behind a change was there before it, or is new.
theorem Change.watcher_cases (change : Change ρ) {w : WatcherId} {x : Watcher ρ}
    (h : (change.apply s).watcher? w = some x) :
    s.watcher? w = some x ∨ x.baseline = s.field x.source x.property := by
  cases change with
  | read o key => exact .inl ((watcher?_get s o key w).symm.trans h)
  | observe fields tree =>
    cases tree with
    | none => exact .inl ((watcher?_wrap s fields w).symm.trans h)
    | some t => exact .inl ((watcher?_wrapIn s t fields w).symm.trans h)
  | watch o key reaction =>
    cases ha : s.active o.tree with
    | some a =>
      rw [apply, watch_of_active ha, watcher?_issue] at h
      exact .inl h
    | none =>
      obtain ⟨u, s', hrun, hw⟩ := watch_of_active_eq_none ha key reaction
      rw [apply, hrun] at h
      rcases hw.only h with h | ⟨-, rfl⟩
      · exact .inl h
      · exact .inr rfl
  | newRegistry => exact .inl h
  | register r u => exact .inl ((watcher?_register s r u w).symm.trans h)
  | begin t u =>
    rcases begin_cases s t u with he | ⟨-, he⟩
    · rw [he] at h
      exact .inl h
    · rw [he, watcher?_occupy] at h
      exact .inl h
  | vacate t => exact .inl ((watcher?_vacate s t w).symm.trans h)

theorem Layered.change (h : s.Layered) (change : Change ρ) : (change.apply s).Layered := by
  refine ⟨h.forest.change change, fun {w x n} hx hn => ?_⟩
  rcases change.watcher_cases hx with hx | hb
  · exact h.baseline hx hn
  · exact h.forest.lt_of_field (hb.symm.trans hn)

theorem Layered.write (h : s.Layered) (o : ObjectId) (key : String) (v : Value) :
    (s.write o key v).Layered := by
  refine ⟨h.forest.write o key v, fun {w x n} hx hn => ?_⟩
  rw [watcher?_write] at hx
  exact h.baseline hx hn

/-- The change neither registers a watcher by hand nor has to do with a collection. -/
def Change.Ordinary : Change ρ → Prop
  | read _ _ | observe _ _ | watch _ _ _ | newRegistry => True
  | _ => False

theorem Tended.change (h : s.Tended) {change : Change ρ} (hc : change.Ordinary) :
    (change.apply s).Tended := by
  cases change with
  | read o key => exact h.get o key
  | observe fields tree =>
    cases tree with
    | none => exact h.wrap fields
    | some t => exact h.wrapIn t fields
  | watch o key reaction =>
    obtain ⟨w, s', hrun, hw⟩ := watch_of_active_eq_none (h.idle o.tree) key reaction
    have hs := h.sound.watch o key reaction
    rw [hrun] at hs
    rw [Change.apply, hrun]
    exact h.watched hw hs
  | newRegistry => exact h.newRegistry
  | _ => exact hc.elim

end Store

variable {κ σ : Type}

/-! ## 2. Orderly clients -/

-- What the requests of orderly clients can lead to is ordinary.
theorem Store.Change.Permitted.ordinary {change : Store.Change (Reaction κ)}
    (h : change.Permitted Request.Orderly) : change.Ordinary := by
  cases change with
  | register r w => exact h.elim
  | begin t w => exact h.elim
  | vacate t => exact h.elim fun _ hno => hno.elim
  | _ => trivial

/-- Where clients neither register watchers by hand nor collect, the registries of observables hold
    their own watchers, and baselines stand below sources. -/
theorem Client.Lives.layered {c : Client κ σ} (hc : c.Within Request.Orderly) {p : Program κ σ}
    (hp : p.Within Request.Orderly) {document : Document (Listener κ)} {entropy : Entropy} {s : σ}
    {g : History κ σ} {m : Moment κ σ} (hl : c.Lives { document, entropy } s p (g ++ [m])) :
    m.page.store.Tended ∧ m.page.store.Layered := by
  refine hl.all (fun p => p.store.Tended ∧ p.store.Layered) hc hp (fun h hmove => ?_)
    (fun _ h => ⟨h.1.write _ _ _, h.2.write _ _ _⟩) ⟨.empty, .empty⟩ m (by simp)
  exact hmove.reaches.keeps (fun s => s.Tended ∧ s.Layered)
    (fun hc hs => ⟨hs.1.change hc.ordinary, hs.2.change _⟩) h

namespace Page

variable {p : Page κ}

/-- How far down a node stands where watchers are registered with their sources only. -/
def depth (p : Page κ) : Node → ℕ
  | .engine _ => 0
  | .compiler _ => 1
  | .registry (.free _) => 1
  | .object o => 3 * o.index + 2
  | .registry (.ofObject o) => 3 * o.index + 3
  | .watcher w => ((p.store.watcher? w).map fun x => 3 * x.source.index).getD 0 + 4

theorem depth_lt_of_refers (ht : p.store.Tended) (hl : p.store.Layered) {n m : Node}
    (h : p.Refers n m) : p.depth n < p.depth m := by
  cases mem_references_iff.1 h with
  | registry ho => exact Nat.lt_succ_self _
  | @nested o n key hn =>
    have hbelow := hl.forest.below hn
    show 3 * o.index + 2 < 3 * n.index + 2
    omega
  | @registered r w hw =>
    cases r with
    | ofObject o =>
      obtain ⟨x, hx, rfl⟩ := ht.source hw
      show 3 * x.source.index + 3 < _
      simp [depth, hx]
    | free i =>
      show 1 < _ + 4
      omega
  | baseline hw hb =>
    have hbelow := hl.baseline hw hb
    simp only [depth, hw, Option.map_some, Option.getD_some]
    omega
  | rendered hx | rendering hx =>
    show 1 < _ + _
    omega
  | compiler he => exact Nat.one_pos
  | data he => exact Nat.succ_pos _

theorem depth_le_of_reaches (ht : p.store.Tended) (hl : p.store.Layered) {n m : Node}
    (h : p.Reaches n m) : p.depth n ≤ p.depth m := by
  induction h with
  | refl => exact Nat.le_refl _
  | tail _ hstep ih => exact Nat.le_trans ih (Nat.le_of_lt (depth_lt_of_refers ht hl hstep))

/-- **No watcher keeps itself alive** whose like are registered with their sources only. -/
theorem not_keepsItself (ht : p.store.Tended) (hl : p.store.Layered) (w : WatcherId) :
    ¬ p.KeepsItself w := by
  rintro ⟨x, n, hw, hb, hreach⟩
  have hstep : p.Refers (.watcher w) (.object n) := mem_references_iff.2 (.baseline hw hb)
  have hlt := depth_lt_of_refers ht hl hstep
  have hle := depth_le_of_reaches ht hl hreach
  omega

end Page

/-! ## 3. Every history -/

/-- **Unreferenced observables are released**, at every moment of every history and whatever else is
    held then.  An upgrade is answered.  It succeeds only if strong references lead to the observable
    from something that is held, or else from a watcher that keeps itself alive because its own
    baseline leads back to it; and in both cases it does succeed, if the observable is there.
    Without registrations by hand and collections no watcher keeps itself alive, and an upgrade
    succeeds only if the observable is reached from something that is held. -/
theorem Client.upgrade_reached {c : Client κ σ} {p : Program κ σ}
    {document : Document (Listener κ)} {entropy : Entropy} {s : σ} {g : History κ σ}
    {m : Moment κ σ} (hl : c.Lives { document, entropy } s p (g ++ [m]))
    (serve : Cue κ → Run κ σ Unit) (pins : List Node) (o : ObjectId) :
    ∃ alive : Bool,
      (Operation.isAlive (.object o)).run c.holds serve ⟨m.page, m.client, pins⟩ =
        some (.ok alive, ⟨m.page, m.client, pins⟩) ∧
      (alive = true → m.page.Reachable (c.holds m.client ++ pins) (.object o) ∨
        ∃ w, m.page.KeepsItself w ∧ m.page.Reaches (.watcher w) (.object o)) ∧
      ((m.page.store.object? o).isSome →
        (m.page.Reachable (c.holds m.client ++ pins) (.object o) ∨
          ∃ w, m.page.KeepsItself w ∧ m.page.Reaches (.watcher w) (.object o)) → alive = true) ∧
      (c.Within Request.Orderly → p.Within Request.Orderly →
        (∀ w, ¬ m.page.KeepsItself w) ∧
          (alive = true → m.page.Reachable (c.holds m.client ++ pins) (.object o))) := by
  obtain ⟨hforest, -⟩ := hl.course (fun cue => (c.respond cue).within_all)
    p.within_all course_forest
  have hreached : ∀ {held}, m.page.alive held (.object o) = true →
      m.page.Reachable held (.object o) ∨
        ∃ w, m.page.KeepsItself w ∧ m.page.Reaches (.watcher w) (.object o) :=
    fun h => Page.reachable_of_alive hforest h
  refine ⟨_, Run.isAlive_apply c.holds _ _, hreached, fun ho => Page.alive_of_reachable ho,
    fun hc hp => ?_⟩
  obtain ⟨htended, hlayered⟩ := hl.layered hc hp
  have hnone := Page.not_keepsItself htended hlayered
  refine ⟨hnone, fun h => (hreached h).resolve_right ?_⟩
  rintro ⟨w, hw, -⟩
  exact hnone w hw

/-- A client without callbacks that holds what it remembers. -/
def holdingClient : Client Unit (List Node) := { respond := fun _ => .done, holds := id }

/-- Watches a nested object from above, registers the watcher with that object by hand, drops all
    handles and asks whether the object is still there. -/
def ringProgram : Program Unit (List Node) :=
  .perform (.observe (.object [("o", .object [("x", .bool true)])]) none) fun _ =>
    .remember (fun _ => [.object ⟨⟨0⟩, 0⟩]) <|
      .perform (.get ⟨⟨0⟩, 0⟩ "o") fun _ =>
        .remember (fun _ => [.object ⟨⟨0⟩, 0⟩, .object ⟨⟨0⟩, 1⟩]) <|
          .perform (.watch ⟨⟨0⟩, 0⟩ "o" ()) fun _ =>
            .remember (fun _ => [.object ⟨⟨0⟩, 0⟩, .object ⟨⟨0⟩, 1⟩, .watcher ⟨⟨0⟩, 0⟩]) <|
              .perform (.register (.ofObject ⟨⟨0⟩, 1⟩) ⟨⟨0⟩, 0⟩) fun _ =>
                .remember (fun _ => []) <|
                  .perform (.isAlive (.object ⟨⟨0⟩, 1⟩)) fun _ => .done

def ringHistory : History Unit (List Node) :=
  holdingClient.history 1 { document := {} } [] ringProgram

/-- **A watcher that is registered by hand with its own baseline** keeps that observable alive when
    nothing is held any more. -/
theorem alive_unreachable_ring :
    ∃ m, ringHistory[4]? = some m ∧
      (Operation.isAlive (.object ⟨⟨0⟩, 1⟩)).run holdingClient.holds (fun _ => Run.exhausted)
        ⟨m.page, m.client, []⟩ = some (.ok true, ⟨m.page, m.client, []⟩) ∧
      ¬ m.page.Reachable (holdingClient.holds m.client ++ []) (.object ⟨⟨0⟩, 1⟩) := by
  have hsome : (ringHistory[4]?).isSome = true := by decide +kernel
  have halive : ∀ m ∈ ringHistory[4]?,
      m.page.alive (m.client ++ []) (.object ⟨⟨0⟩, 1⟩) = true := by decide +kernel
  have hheld : ∀ m ∈ ringHistory[4]?, m.client ++ [] ++ m.page.anchors = [] := by decide +kernel
  obtain ⟨m, hm⟩ := Option.isSome_iff_exists.1 hsome
  refine ⟨m, hm, ?_, ?_⟩
  · rw [Operation.run, Run.isAlive_apply]
    show some (Except.ok (m.page.alive (m.client ++ []) (.object ⟨⟨0⟩, 1⟩)), _) = _
    rw [halive m hm]
  · rintro ⟨r, hr, -⟩
    change r ∈ m.client ++ [] ++ m.page.anchors at hr
    rw [hheld m hm] at hr
    cases hr

/-- Observes an object, reads a nested one, and drops the handle of the outer one. -/
def dropProgram : Program Unit (List Node) :=
  .perform (.observe (.object [("o", .object [])]) none) fun _ =>
    .remember (fun _ => [.object ⟨⟨0⟩, 0⟩]) <|
      .perform (.get ⟨⟨0⟩, 0⟩ "o") fun _ =>
        .remember (fun _ => [.object ⟨⟨0⟩, 1⟩]) <|
          .perform (.isAlive (.object ⟨⟨0⟩, 0⟩)) fun _ => .done

def dropHistory : History Unit (List Node) :=
  holdingClient.history 1 { document := {} } [] dropProgram

theorem upgrade_reached_drop :
    (∃ m w, ringHistory[4]? = some m ∧ m.page.KeepsItself w) ∧
      ∃ m, dropHistory[2]? = some m ∧
        m.page.Reachable (holdingClient.holds m.client ++ []) (.object ⟨⟨0⟩, 1⟩) ∧
        (∀ w, ¬ m.page.KeepsItself w) := by
  have hsome : (ringHistory[4]?).isSome = true ∧ (dropHistory[2]?).isSome = true := by
    decide +kernel
  have hrun : (holdingClient.run 1 ringProgram ⟨{ document := {} }, [], []⟩).isSome = true := by
    decide +kernel
  have hrun' : (holdingClient.run 1 dropProgram ⟨{ document := {} }, [], []⟩).isSome = true := by
    decide +kernel
  have hheld : ∀ m ∈ ringHistory[4]?, m.client ++ [] ++ m.page.anchors = [] := by decide +kernel
  have halive : ∀ m ∈ ringHistory[4]?,
      m.page.alive (m.client ++ []) (.object ⟨⟨0⟩, 1⟩) = true := by decide +kernel
  have halive' : ∀ m ∈ dropHistory[2]?,
      m.page.alive (m.client ++ []) (.object ⟨⟨0⟩, 1⟩) = true := by decide +kernel
  have hclient : holdingClient.Within Request.Orderly := fun _ => trivial
  have hprogram : dropProgram.Within Request.Orderly :=
    ⟨trivial, fun _ => ⟨trivial, fun _ => ⟨trivial, fun _ => trivial⟩⟩⟩
  constructor
  · obtain ⟨m, hm⟩ := Option.isSome_iff_exists.1 hsome.1
    obtain ⟨alive, hanswer, hreached, -⟩ := Client.upgrade_reached
      (Client.lives_take hrun hm) (fun _ => Run.exhausted) [] ⟨⟨0⟩, 1⟩
    cases hanswer
    rcases hreached (halive m hm) with ⟨r, hr, -⟩ | ⟨w, hw, -⟩
    · change r ∈ m.client ++ [] ++ m.page.anchors at hr
      rw [hheld m hm] at hr
      cases hr
    · exact ⟨m, w, hm, hw⟩
  · obtain ⟨m, hm⟩ := Option.isSome_iff_exists.1 hsome.2
    obtain ⟨alive, hanswer, -, -, horderly⟩ := Client.upgrade_reached
      (Client.lives_take hrun' hm) (fun _ => Run.exhausted) [] ⟨⟨0⟩, 1⟩
    cases hanswer
    obtain ⟨hnone, honly⟩ := horderly hclient hprogram
    exact ⟨m, hm, honly (halive' m hm), hnone⟩

end ReactiveView
