import ReactiveView.Proofs.Client.Forgetting
import ReactiveView.Proofs.Client.Origins

/-!
# Freshness

While its holder keeps a view, the markup of the view is fresh whenever client code runs: in between
two outer steps, but also in the middle of a notification.  A write to the data of a view makes the
markup stale for as long as it takes to update the watchers of the placeholders; they are the first
watchers of the data, and a render calls no client code.
-/

namespace ReactiveView

variable {κ σ : Type}

/-! ## 1. Held views -/

-- A view that is held keeps its compiler and its data alive.
theorem Page.alive_of_held {p : Page κ} {held : List Node} {e : EngineId} {engine : Engine κ}
    (h : .engine e ∈ held) (he : p.engine? e = some engine) {n : Node}
    (hn : n ∈ [Node.compiler engine.compiler, .object engine.data]) : p.alive held n = true := by
  have href : n ∈ p.references (.engine e) := by
    simp only [Page.references, he]
    exact hn
  have hroots : n ∈ (held ++ p.anchors).flatMap p.references :=
    List.mem_flatMap.2 ⟨_, List.mem_append_left _ h, href⟩
  rw [Page.alive]
  simp only [List.contains_iff_mem.2 hroots, Bool.or_true, Bool.true_or]

/-- The client has held the view at every moment at which it was there. -/
def Client.HeldAlong (c : Client κ σ) (e : EngineId) (h : History κ σ) : Prop :=
  ∀ m ∈ h, (m.page.engine? e).isSome → Node.engine e ∈ c.holds m.client

theorem Client.HeldAlong.mono {c : Client κ σ} {e : EngineId} {h h' : History κ σ}
    (hheld : c.HeldAlong e h') (hsub : h ⊆ h') : c.HeldAlong e h :=
  fun m hm => hheld m (hsub hm)

/-- If the view `e` is on the page it is mounted there, and its markup is fresh. -/
def Page.FreshAt (p : Page κ) (e : EngineId) : Prop :=
  ∀ {engine}, p.engine? e = some engine → ∃ x, p.Mounted engine x ∧ p.Fresh x

/-- A request that does not make the document refuse writes. -/
def Request.LeavesWrites : Request κ → Prop
  | .perform (.refuse writes _) => writes = 0
  | _ => True

/-- A request of this kind that does not mount a view either. -/
def Request.LeavesViews : Request κ → Prop
  | .perform (.mount _ _) => False
  | request => request.LeavesWrites

/-! ## 2. The invariant -/

/-- What holds at any time, also while a write is in progress. -/
structure Client.Steady (c : Client κ σ) (e : EngineId) (w : World κ (σ × History κ σ)) :
    Prop where
  sound : w.page.store.Sound
  accepts : w.page.document.Accepts
  mounted : ∀ {engine}, w.page.engine? e = some engine → ∃ x, w.page.Mounted engine x
  past : ∀ {h m}, h ++ [m] <+: w.client.2 → c.HeldAlong e (h ++ [m]) → m.page.FreshAt e

/-- What holds whenever client code runs. -/
structure Client.Resting (c : Client κ σ) (e : EngineId) (w : World κ (σ × History κ σ)) :
    Prop extends c.Steady e w where
  fresh : c.HeldAlong e w.client.2 → w.page.FreshAt e

/-- What holds whenever an operation may call client code. -/
structure Client.Serving (c : Client κ σ) (e : EngineId) (w : World κ (σ × History κ σ)) :
    Prop extends c.Resting e w where
  held : c.HeldAlong e w.client.2 → (w.page.engine? e).isSome →
    Node.engine e ∈ c.holds w.client.1

section Invariant

variable {c : Client κ σ} {e : EngineId}

theorem Client.Resting.noting {w : World κ (σ × History κ σ)} (hw : c.Resting e w)
    (request : Request κ) : c.Serving e (w.noting request) := by
  have hsub : w.client.2 ⊆ (w.noting request).client.2 := List.subset_append_left _ _
  refine ⟨⟨⟨hw.sound, hw.accepts, hw.mounted, fun {h m} hpre hheld => ?_⟩,
    fun hheld => hw.fresh (hheld.mono hsub)⟩, fun hheld he => ?_⟩
  · rcases World.noting_cases hpre with ⟨rfl, rfl⟩ | hpre
    · exact hw.fresh (hheld.mono (List.subset_append_left _ _))
    · exact hw.past hpre hheld
  · exact hheld _ (List.mem_append_right _ (List.mem_singleton.2 rfl)) he

-- The moves of everything but a mount.
theorem Client.Serving.move {w : World κ (σ × History κ σ)} {p : Page κ} (hw : c.Serving e w)
    (hp : w.page.Move Request.LeavesViews p) : c.Serving e { w with page := p } := by
  have hgrows := hp.grows
  have haccepts : p.document.Accepts := hp.accepts id hw.accepts
  have hengines : p.engines = w.page.engines := hp.engines id
  have hengine : p.engine? e = w.page.engine? e := by rw [Page.engine?, Page.engine?, hengines]
  refine ⟨⟨⟨hgrows.sound hw.sound, haccepts, fun he => ?_, hw.past⟩,
    fun hheld engine he => ?_⟩, fun hheld he => ?_⟩
  · change p.engine? e = _ at he
    rw [hengine] at he
    obtain ⟨x, hx⟩ := hw.mounted he
    obtain ⟨x', hx', -⟩ := hx.grows hgrows
    exact ⟨x', hx'⟩
  · change p.engine? e = _ at he
    rw [hengine] at he
    obtain ⟨x, hx, hf⟩ := hw.fresh hheld he
    -- a compile of the view itself renders anew, and no other move touches what it shows
    rcases hp.calm_or_compile with hcalm | ⟨d, rfl⟩
    · exact ⟨x, hx.calm hcalm, hf.sameData hx hcalm.store⟩
    · by_cases hd : d = engine.compiler
      · obtain ⟨x', p', hrun, hx', hf'⟩ := hx.compile hw.accepts
        rw [hd, hrun]
        exact ⟨x', hx', hf'⟩
      · have hre := Page.recompiled w.page d
        have hfound := (hre.others _ fun h => hd h.symm).trans hx.found
        exact ⟨x, hx.grows_found hre.grows hfound, hf.sameData hx hre.store⟩
  · change (p.engine? e).isSome = true at he
    rw [hengine] at he
    exact hw.held hheld he

theorem Client.Serving.ignoresPins (w : World κ (σ × History κ σ)) (ns : List Node)
    (hw : c.Serving e w) : c.Serving e { w with pins := ns } :=
  ⟨⟨⟨hw.sound, hw.accepts, hw.mounted, hw.past⟩, hw.fresh⟩, hw.held⟩

theorem Client.Serving.keptByUpdates : KeptByUpdates c.recording.holds (c.Serving e) :=
  .of_move Client.Serving.ignoresPins fun hw hp => hw.move hp

theorem Client.Steady.write {w : World κ (σ × History κ σ)} (hw : c.Steady e w) (o : ObjectId)
    (key : String) (v : Value) :
    c.Steady e { w with page := { w.page with store := w.page.store.write o key v } } := by
  refine ⟨hw.sound.write o key v, hw.accepts, fun he => ?_, hw.past⟩
  obtain ⟨x, hx⟩ := hw.mounted he
  exact ⟨x, hx.write o key v⟩

/-! ## 3. A write to the data of the view -/

/-- The data of a view that is held was written, and the watchers of the placeholders `keys` have
    been updated without a render. -/
structure Client.Pending (c : Client κ σ) (e : EngineId) (engine : Engine κ) (x : Compiler)
    (keys : List String) (ws : List WatcherId) (w : World κ (σ × History κ σ)) : Prop
    extends c.Steady e w where
  there : w.page.engine? e = some engine
  view : w.page.Mounted engine x
  holder : Node.engine e ∈ c.holds w.client.1
  told : w.page.store.Watches x.data (.render engine.compiler) keys ws
  done : List.Forall₂ (w.page.Unchanged x.data) keys ws

variable {engine : Engine κ} {x : Compiler} {keys : List String} {ws : List WatcherId}

theorem Client.Pending.compile {w : World κ (σ × History κ σ)}
    (hw : c.Pending e engine x keys ws w) :
    c.Serving e { w with page := (w.page.compile engine.compiler).2 } := by
  have hre := Page.recompiled w.page engine.compiler
  have hengine : (w.page.compile engine.compiler).2.engine? e = some engine := by
    rw [Page.engine?, hre.engines]
    exact hw.there
  obtain ⟨x', p', hrun, hx', hf'⟩ := hw.view.compile hw.accepts
  have hp : (w.page.compile engine.compiler).2 = p' := by rw [hrun]
  refine ⟨⟨⟨hre.sound hw.sound, Page.accepts_compile hw.accepts _, fun he => ?_, hw.past⟩,
    fun _ engine' he => ?_⟩, fun _ _ => hw.holder⟩
  · change Page.engine? _ e = _ at he
    rw [hengine] at he
    cases he
    exact ⟨x', hp ▸ hx'⟩
  · change Page.engine? _ e = _ at he
    rw [hengine] at he
    cases he
    exact ⟨x', hp ▸ hx', hp ▸ hf'⟩

theorem Client.Pending.read {w : World κ (σ × History κ σ)} (hw : c.Pending e engine x keys ws w)
    (key : String) : c.Pending e engine x keys ws (w.read x.data key) := by
  have hdata := Store.sameData_get w.page.store x.data key
  have hcalm : w.page.Calm (w.read x.data key).page :=
    ⟨hdata, fun h => h.get _ _, id, id, id, id⟩
  refine ⟨⟨hw.sound.get _ _, hw.accepts, fun he => ?_, hw.past⟩, hw.there, hw.view.calm hcalm,
    hw.holder, hw.told.grows hdata.toGrows,
    Page.unchanged_congr (hdata.alike hw.view.object) hw.told hw.done⟩
  obtain ⟨y, hy⟩ := hw.mounted he
  exact ⟨y, hy.calm hcalm⟩

variable {serve : Cue κ → Run κ (σ × History κ σ) Unit}

-- One watcher is told of the write: it finds its property unchanged, or the view renders.
theorem Client.Pending.update {w w' : World κ (σ × History κ σ)}
    (hw : c.Pending e engine x keys ws w) {key : String} {u : WatcherId} {number : Nat}
    {baseline : Field}
    (hu : w.page.store.watcher? u =
      some ⟨number, x.data, key, .render engine.compiler, baseline⟩)
    (hb : w.page.store.Known baseline) {r : Except Failure Unit}
    (h : u.update c.recording.holds serve w = some (r, w')) :
    (r = .ok () ∧ c.Pending e engine x (keys ++ [key]) (ws ++ [u]) w' ∧
      w.page.store.Grows w'.page.store) ∨ c.Serving e w' := by
  have hread := hw.read key
  have hgrows := (Store.sameData_get w.page.store x.data key).toGrows
  -- the holder keeps the data alive, and so the update reads it
  have hsource : w.alive c.recording.holds (.object x.data) = true := by
    refine Page.alive_of_held (List.mem_append_left _ hw.holder) hw.there ?_
    rw [hw.view.data]
    simp
  rw [WatcherId.update_of_some _ _ hu, if_pos hsource] at h
  by_cases heq : (w.page.store.field x.data key).strictEqual baseline = true
  · rw [if_pos heq] at h
    cases h
    have hkept := hgrows.watcher hu
    refine .inl ⟨rfl, { hread with
      told := List.rel_append hread.told (.cons ⟨_, _, hkept, hgrows.known hb⟩ .nil)
      done := List.rel_append hread.done (.cons ⟨_, hkept, ?_⟩ .nil) }, hgrows⟩
    -- the read may have wrapped the field, which equals the baseline as before
    have hagain := Store.field_get w.page.store x.data key
    exact (congrArg (Field.strictEqual · baseline) hagain).trans heq
  · rw [if_neg heq] at h
    have hcompiler : ∀ ns, World.alive c.recording.holds
        { w.read x.data key with pins := ns ++ w.pins } (.compiler engine.compiler) = true :=
      fun ns => Page.alive_of_held (List.mem_append_left _ hw.holder) hread.there (by simp)
    obtain ⟨-, rfl⟩ := Prod.mk.inj (Option.some.inj
      ((Watcher.react_render c.recording.holds serve rfl hcompiler _).symm.trans h))
    exact .inr hread.compile

-- Once all placeholders have been updated the markup is fresh.
theorem Client.Pending.serving {w : World κ (σ × History κ σ)}
    (hw : c.Pending e engine x x.template.slots x.watchers w) : c.Serving e w := by
  refine ⟨⟨hw.toSteady, fun _ engine' he => ?_⟩, fun _ _ => hw.holder⟩
  rw [hw.there] at he
  cases he
  exact ⟨x, hw.view, .inl hw.done⟩

/-- **The view renders before anybody else is told**: once the watchers of the placeholders have
    been updated, the markup is fresh again. -/
theorem Client.Pending.tell (hserve : ∀ cue, (serve cue).Keeps (c.Serving e))
    {rest : List String} {us : List WatcherId} {w w' : World κ (σ × History κ σ)}
    (hrest : w.page.store.Watches x.data (.render engine.compiler) rest us)
    (hslots : x.template.slots = keys ++ rest) (hwatchers : x.watchers = ws ++ us)
    (hw : c.Pending e engine x keys ws w) {r : Except Failure Unit}
    (h : updateAll c.recording.holds serve us w = some (r, w')) : c.Serving e w' := by
  -- on the watchers yet to be told: `keys` and `ws` are those that found nothing changed, and after
  -- the first render the page is as good as at rest
  induction us generalizing keys ws rest w with
  | nil =>
    cases hrest
    cases h
    rw [List.append_nil] at hslots hwatchers
    subst hslots hwatchers
    exact hw.serving
  | cons u us ih =>
    cases hrest with
    | cons hu hrest =>
      obtain ⟨number, baseline, hu, hb⟩ := hu
      rcases Run.bind_eq_some h with ⟨error, h₁, -⟩ | ⟨a, w₁, h₁, h₂⟩
      · rcases hw.update hu hb h₁ with ⟨hok, -⟩ | hserving
        · cases hok
        · exact hserving
      · rcases hw.update hu hb h₁ with ⟨-, hpending, hgrows⟩ | hserving
        · exact ih (Store.Watches.grows hgrows hrest) (by rw [hslots, List.append_assoc]; rfl)
            (by rw [hwatchers, List.append_assoc]; rfl) hpending h₂
        · exact updateAll_keeps Client.Serving.keptByUpdates hserve us w₁ hserving r w' h₂

-- The watchers of the placeholders come first among those that a write to the data notifies.
theorem Client.Pending.notify (hserve : ∀ cue, (serve cue).Keeps (c.Serving e))
    {w w' : World κ (σ × History κ σ)} (hw : c.Pending e engine x [] [] w)
    {r : Except Failure Unit}
    (h : (RegistryId.ofObject engine.data).notify c.recording.holds serve w = some (r, w')) :
    c.Serving e w' := by
  -- the watchers of the placeholders were registered before all others
  obtain ⟨others, hothers⟩ := hw.view.first
  rw [hw.view.data] at hothers
  change (Run.look _ >>= _) w = _ at h
  rw [Run.bind_of_ok (Run.look_apply _ w), ← hothers] at h
  obtain ⟨w₁, h₁, rfl⟩ := Run.pinning_eq_some h
  apply Client.Serving.ignoresPins
  rw [updateAll_append] at h₁
  have hpinned : ∀ ns, c.Pending e engine x [] [] { w with pins := ns } := fun ns =>
    ⟨⟨hw.sound, hw.accepts, hw.mounted, hw.past⟩, hw.there, hw.view, hw.holder, .nil, .nil⟩
  have hown : ∀ {ns r w₂}, updateAll c.recording.holds serve x.watchers { w with pins := ns } =
      some (r, w₂) → c.Serving e w₂ := by
    intro ns r w₂ h₂
    have hp := hpinned ns
    exact hp.tell hserve hp.view.watches rfl rfl h₂
  rcases Run.bind_eq_some h₁ with ⟨error, h₂, -⟩ | ⟨a, w₂, h₂, h₃⟩
  · exact hown h₂
  · exact updateAll_keeps Client.Serving.keptByUpdates hserve others w₂ (hown h₂) r w₁ h₃

-- A write that is not one to the data of the view, or comes when the view is no longer held.
theorem Client.Serving.write {w : World κ (σ × History κ σ)} (hw : c.Serving e w) {o : ObjectId}
    (key : String) (v : Value)
    (ho : c.HeldAlong e w.client.2 → ∀ engine, w.page.engine? e = some engine → engine.data ≠ o) :
    c.Serving e { w with page := { w.page with store := w.page.store.write o key v } } := by
  have hsteady := hw.toSteady.write o key v
  refine ⟨⟨hsteady, fun hheld engine hthere => ?_⟩, hw.held⟩
  obtain ⟨x, hm, hf⟩ := hw.fresh hheld hthere
  have hne : o ≠ x.data := by
    rw [hm.data]
    exact fun h => ho hheld engine hthere h.symm
  exact ⟨x, hm.write o key v, hf.alike hm (Store.alike_write w.page.store hne key v)⟩

/-- **A write to any object** leaves the markup fresh behind. -/
theorem Client.Serving.set (hserve : ∀ cue, (serve cue).Keeps (c.Serving e))
    (o : ObjectId) (key : String) (v : Value) :
    (o.set c.recording.holds serve key v).Keeps (c.Serving e) := by
  intro w hw r w' h
  obtain ⟨w₁, h₁, rfl⟩ := Run.pinning_eq_some h
  apply Client.Serving.ignoresPins
  rcases Run.bind_eq_some h₁ with ⟨error, hpage, -⟩ | ⟨a, w₂, hpage, hnotify⟩
  · cases hpage
  obtain ⟨-, rfl⟩ := Prod.mk.inj (Option.some.inj ((Run.page_apply _ _).symm.trans hpage))
  have hw := Client.Serving.ignoresPins w (Node.object o :: w.pins) hw
  have hsteady := hw.toSteady.write o key v
  -- no other write can make the markup of `e` stale
  by_cases hown : c.HeldAlong e w.client.2 ∧
      ∃ engine, w.page.engine? e = some engine ∧ engine.data = o
  · obtain ⟨hheld, engine, hthere, rfl⟩ := hown
    obtain ⟨x, hview⟩ := hsteady.mounted hthere
    have hpending : c.Pending e engine x [] [] _ :=
      ⟨hsteady, hthere, hview, hw.held hheld (by rw [hthere]; rfl), .nil, .nil⟩
    exact hpending.notify hserve hnotify
  · have hserving := hw.write (o := o) key v fun hheld engine hthere hdata =>
      hown ⟨hheld, engine, hthere, hdata⟩
    exact RegistryId.notify_keeps Client.Serving.keptByUpdates hserve _ _ hserving r w₁ hnotify

-- A new view has fresh markup, and the others keep theirs.
theorem Client.Serving.mount {w : World κ (σ × History κ σ)} (hw : c.Serving e w)
    (vm : ViewModel κ) (config : Config) :
    c.Resting e { w with page := (w.page.mount vm config).2 } := by
  have hcalm := Page.calm_mount w.page vm config
  refine ⟨⟨hcalm.sound hw.sound, Page.accepts_mount hw.accepts vm config, fun he => ?_, hw.past⟩,
    fun hheld engine he => ?_⟩
  · rcases Page.engine?_mount hw.sound he with he | ⟨-, x, hnew⟩
    · obtain ⟨x, hx⟩ := hw.mounted he
      exact ⟨x, hx.calm hcalm⟩
    · exact ⟨x, hnew.toMounted⟩
  · rcases Page.engine?_mount hw.sound he with he | ⟨-, x, hnew⟩
    · obtain ⟨x, hx, hf⟩ := hw.fresh hheld he
      exact ⟨x, hx.calm hcalm, hf.sameData hx hcalm.store⟩
    · exact ⟨x, hnew.toMounted, hnew.fresh⟩

/-! ## 4. Whole histories -/

theorem Client.resting_discipline (hserve : ∀ cue, (serve cue).Keeps (c.Serving e)) :
    Discipline Request.LeavesWrites c.recording.holds serve (c.Resting e) (c.Serving e) := by
  refine ⟨fun hw => hw.toResting, fun s hw => ?_, fun hw => hw.noting _, fun {op} hop => ?_,
    fun _ hw _ => (hw.noting _).toResting, fun {w t x store} _ hw hbegin => ?_,
    fun {w t x} _ hw => ?_⟩
  · exact ⟨⟨hw.sound, hw.accepts, hw.mounted, hw.past⟩, hw.fresh⟩
  · rintro w ⟨v, hv, rfl⟩ r w' h
    have hw := hv.noting (.perform op)
    -- a mount stands apart: its client may not hold the new view yet
    by_cases hm : ∃ vm config, op = .mount vm config
    · obtain ⟨vm, config, rfl⟩ := hm
      have hpage := Prod.mk.inj (Option.some.inj h)
      rw [← hpage.2]
      exact hw.mount vm config
    · have hop : (Request.perform op).LeavesViews := by
        cases op with
        | mount vm config => exact (hm ⟨vm, config, rfl⟩).elim
        | _ => exact hop
      have hkeeps := Operation.run_keeps Client.Serving.ignoresPins hserve
        (fun hs hp => hs.move hp) (fun _ => Client.Serving.set hserve _ _ _) hop
      exact (hkeeps _ hw r w' h).toResting
  · obtain ⟨hactive, rfl⟩ := Store.begin_eq_ok hbegin
    exact ((hw.noting _).move (.occupy t x trivial hactive)).toResting
  · exact (hw.move (.vacate t x trivial)).toResting

end Invariant

/-- **Fresh markup.**  Where the document refuses no writes, the markup of every view that is still
    held is fresh at every moment, whatever client code and its callbacks do.  The baselines that
    this leaves out of account are the fields that the placeholders had when the view was mounted. -/
theorem Client.markup_fresh_of_held {c : Client κ σ} (hc : c.Within Request.LeavesWrites)
    {p : Program κ σ} (hp : p.Within Request.LeavesWrites) {document : Document (Listener κ)}
    (hd : document.Accepts) {entropy : Entropy} {s : σ} {h : History κ σ} {m : Moment κ σ}
    (hl : c.Lives { document, entropy } s p (h ++ [m])) {e : EngineId}
    (hheld : c.HeldAlong e (h ++ [m])) {engine : Engine κ}
    (he : m.page.engine? e = some engine) :
    ∃ x, m.page.Mounted engine x ∧ m.page.Fresh x ∧
      ∃ m₀ ∈ h, ∃ p₀, m₀.mounted? = some (e, p₀) ∧
        p₀.store.WatchesSince m.page.store engine.data (.render engine.compiler) x.template.slots
          x.watchers := by
  have hstart : c.Resting e ⟨{ document, entropy }, (s, []), []⟩ := by
    have hnone : ∀ {engine}, ({ document, entropy } : Page κ).engine? e ≠ some engine :=
      fun h => nomatch h
    refine ⟨⟨Store.Sound.empty, hd, fun h => absurd h hnone, fun hpre => ?_⟩,
      fun _ _ h => absurd h hnone⟩
    simp at hpre
  obtain ⟨w, hw, hpre⟩ := hl.ensures hc hp (fun _ => Client.resting_discipline)
    (fun _ => Client.resting_discipline) hstart
  obtain ⟨x, hx, hfresh⟩ := hw.past hpre hheld he
  obtain ⟨m₀, hm₀, p₀, hmounted⟩ := hl.mounted he
  exact ⟨x, hx, hfresh, m₀, hm₀, p₀, hmounted, hl.watchesSince hm₀ hmounted he hx.found⟩

/-- A view that shows one flag. -/
def flagView : ViewModel Unit :=
  { data := [("on", .bool true)], template := "\x7b\x7bon\x7d\x7d" }

/-- A client that holds some nodes and does nothing when it is called. -/
def flagClient : Client Unit (List Node) := { respond := fun _ => .done, holds := id }

/-- Mounts the flag, holds the view and turns the flag off. -/
def flagProgram : Program Unit (List Node) :=
  .perform (.mount flagView { rootId := "flag", ids := .sequential "f" }) fun
    | .error error => .fail error
    | .ok e => .remember (fun _ => [.engine e]) <| .look fun p =>
      match p.engine? e with
      | none => .done
      | some engine => .perform (.set engine.data "on" (.bool false)) fun _ => .done

def flagHistory : History Unit (List Node) :=
  flagClient.history 1 (Page.ofIds ["flag"] fun _ => 0) [] flagProgram

theorem markup_fresh_flag :
    ∃ h m engine x, flagHistory = h ++ [m] ∧ m.page.engine? ⟨0⟩ = some engine ∧
      m.page.Mounted engine x ∧ m.page.Fresh x ∧
      ∃ m₀ ∈ h, ∃ p₀, m₀.mounted? = some (⟨0⟩, p₀) ∧
        p₀.store.WatchesSince m.page.store engine.data (.render engine.compiler) x.template.slots
          x.watchers := by
  have hrun : (flagClient.run 1 flagProgram
      ⟨Page.ofIds ["flag"] fun _ => 0, [], []⟩).isSome = true := by decide +kernel
  have hheld : flagClient.HeldAlong ⟨0⟩ flagHistory := by
    have hall : ∀ m ∈ flagHistory, (m.page.engine? ⟨0⟩).isSome →
        Node.engine ⟨0⟩ ∈ flagClient.holds m.client := by decide +kernel
    exact hall
  have hwithin : flagProgram.Within Request.LeavesWrites := by
    refine ⟨trivial, fun result => ?_⟩
    cases result with
    | error error => trivial
    | ok e =>
      intro page
      dsimp only
      split
      · trivial
      · exact ⟨trivial, fun _ => trivial⟩
  have hlast : ((flagHistory.getLast?.bind fun m => m.page.engine? ⟨0⟩)).isSome = true := by
    decide +kernel
  obtain ⟨engine, hengine⟩ := Option.isSome_iff_exists.1 hlast
  obtain ⟨m, hm, he⟩ := Option.bind_eq_some_iff.1 hengine
  obtain ⟨h, hsplit⟩ := List.getLast?_eq_some_iff.1 hm
  have hclient : flagClient.Within Request.LeavesWrites := fun _ => trivial
  have hlives : flagClient.Lives (Page.ofIds ["flag"] fun _ => 0) [] flagProgram flagHistory :=
    Client.lives_history hrun
  rw [hsplit] at hheld hlives
  obtain ⟨x, hx, hf, hsince⟩ := Client.markup_fresh_of_held hclient hwithin
    (Document.accepts_ofIds ["flag"]) hlives hheld he
  exact ⟨h, m, engine, x, hsplit, he, hx, hf, hsince⟩

end ReactiveView
