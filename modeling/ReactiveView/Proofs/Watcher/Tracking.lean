import ReactiveView.Proofs.Client.Moves
import ReactiveView.Proofs.Page.Frame
import ReactiveView.Proofs.Store.Tended

/-!
# Which watchers a history makes due

Client code reads, writes and creates watchers, and its callbacks do the same but for the writes.  A
watcher whose baseline is a nested observable is then due if, and only if, the history holds a write
to its property since it was registered.
-/

namespace ReactiveView

variable {κ σ : Type}

/-! ## 1. Requests -/

/-- A request that reads data, observes it or creates a watcher of it. -/
def Request.Reads : Request κ → Prop
  | .perform (.get _ _) => True
  | .perform (.watch _ _ _) => True
  | .perform (.observe _ _) => True
  | .perform (.isAlive _) => True
  | _ => False

/-- A request of this kind, or a write. -/
def Request.ReadsOrWrites : Request κ → Prop
  | .perform (.set _ _ _) => True
  | request => request.Reads

/-- At this moment client code writes the property `key` of `o`, while the watcher `u` is registered
    there. -/
def Moment.Overwrites (m : Moment κ σ) (o : ObjectId) (u : WatcherId) (key : String) : Prop :=
  u ∈ m.page.store.registered (.ofObject o) ∧ ∃ v, m.request = .perform (.set o key v)

theorem overwrites_concat {h : History κ σ} {m : Moment κ σ} {o : ObjectId} {u : WatcherId}
    {key : String} :
    (∃ m' ∈ h ++ [m], m'.Overwrites o u key) ↔
      (∃ m' ∈ h, m'.Overwrites o u key) ∨ m.Overwrites o u key := by
  constructor
  · rintro ⟨m', hm', ho⟩
    rcases List.mem_append.1 hm' with hm' | hm'
    · exact .inl ⟨m', hm', ho⟩
    · exact .inr (List.mem_singleton.1 hm' ▸ ho)
  · rintro (⟨m', hm', ho⟩ | ho)
    · exact ⟨m', List.mem_append_left _ hm', ho⟩
    · exact ⟨m, List.mem_append_right _ (List.mem_singleton.2 rfl), ho⟩

/-! ## 2. The invariant -/

/-- The store is what the history has made of it. -/
structure Tracked (s : Store (Reaction κ)) (h : History κ σ) : Prop where
  tended : s.Tended
  client : ∀ {u x}, s.watcher? u = some x → ∃ code, x.reaction = .client code
  past : ∀ m ∈ h, m.page.store.Grows s
  proxies : ∀ {o u x n}, u ∈ s.registered (.ofObject o) → s.watcher? u = some x →
    x.baseline = .proxy n → (s.due u = true ↔ ∃ m ∈ h, m.Overwrites o u x.property)

theorem Tracked.empty : Tracked ({} : Store (Reaction κ)) ([] : History κ σ) :=
  ⟨.empty, (fun h => nomatch h), (fun _ h => nomatch h), (fun h => nomatch h)⟩

variable {s s' : Store (Reaction κ)} {h : History κ σ}

-- Nothing is written, and no watcher is created.
theorem Tracked.sameData (ht : Tracked s h) (hd : s.SameData s') (htended : s'.Tended)
    (honly : ∀ u, s'.watcher? u = s.watcher? u)
    (hr : ∀ o, s'.registered (.ofObject o) = s.registered (.ofObject o)) : Tracked s' h := by
  refine ⟨htended, fun {u x} hx => ?_, fun m hm => (ht.past m hm).trans hd.toGrows,
    fun {o u x n} hu hx hn => ?_⟩
  · rw [honly] at hx
    exact ht.client hx
  · rw [hr] at hu
    rw [honly] at hx
    rw [ht.tended.due_sameData hd hu]
    exact ht.proxies hu hx hn

-- A watcher is created.
theorem Tracked.watched (ht : Tracked s h) {o : ObjectId} {key : String} {code : κ}
    {w : WatcherId} (hw : s.Watched o key (.client code) w s') (hs : s'.Sound) :
    Tracked s' h := by
  refine ⟨ht.tended.watched hw hs, fun {u x} hx => ?_,
    fun m hm => (ht.past m hm).trans hw.toGrows, fun {q u x n} hu hx hn => ?_⟩
  · rcases hw.only hx with hx | ⟨-, rfl⟩
    · exact ht.client hx
    · exact ⟨code, rfl⟩
  · by_cases huw : u = w
    · -- no moment of the past knows of the new watcher
      subst huw
      rw [hw.due_of_proxy hx hn]
      refine ⟨(fun hdue => nomatch hdue), ?_⟩
      rintro ⟨m, hm, hin, -⟩
      obtain ⟨y, hy, -⟩ := ht.tended.source (((ht.past m hm).registered q).subset hin)
      rw [hw.fresh] at hy
      cases hy
    · have hold : u ∈ s.registered (.ofObject q) := by
        rw [hw.registered] at hu
        by_cases hq : o = q ∧ (s.object? q).isSome
        · rw [if_pos hq] at hu
          exact (List.mem_append.1 hu).resolve_right fun h => huw (List.mem_singleton.1 h)
        · rw [if_neg hq] at hu
          exact hu
      have hxs : s.watcher? u = some x := by
        rcases hw.only hx with hx | ⟨he, -⟩
        · exact hx
        · exact (huw he).elim
      rw [ht.tended.due_sameData hw.toSameData hold]
      exact ht.proxies hold hxs hn

theorem Tracked.watch (ht : Tracked s h) (o : ObjectId) (key : String) (code : κ) :
    Tracked (s.watch o key (.client code)).2 h := by
  obtain ⟨w, s', hrun, hw⟩ :=
    Store.watch_of_active_eq_none (ht.tended.idle o.tree) key (.client code)
  have hs := ht.tended.sound.watch o key (.client code)
  rw [hrun] at hs ⊢
  exact ht.watched hw hs

theorem Tracked.past_concat (ht : Tracked s h) {m : Moment κ σ} (hm : m.page.store = s)
    (hg : s.Grows s') : ∀ m' ∈ h ++ [m], m'.page.store.Grows s' := by
  intro m' hm'
  rcases List.mem_append.1 hm' with hm' | hm'
  · exact (ht.past m' hm').trans hg
  · rw [List.mem_singleton.1 hm', hm]
    exact hg

-- A request that is no write is noted down.
theorem Tracked.note (ht : Tracked s h) {m : Moment κ σ} (hm : m.page.store = s)
    (hset : ∀ o key v, m.request ≠ .perform (.set o key v)) : Tracked s (h ++ [m]) := by
  refine ⟨ht.tended, ht.client, ht.past_concat hm (.refl s), fun {o u x n} hu hx hn => ?_⟩
  have hnot : ¬ m.Overwrites o u x.property := fun ⟨_, v, hv⟩ => hset o x.property v hv
  rw [ht.proxies hu hx hn, overwrites_concat, or_iff_left hnot]

-- A write is noted down and carried out.
theorem Tracked.write (ht : Tracked s h) {m : Moment κ σ} (hm : m.page.store = s) {o : ObjectId}
    {key : String} {v : Value} (hset : m.request = .perform (.set o key v)) :
    Tracked (s.write o key v) (h ++ [m]) := by
  refine ⟨ht.tended.write o key v, fun {u x} hx => ?_,
    ht.past_concat hm (Store.grows_write s o key v), fun {q u x n} hu hx hn => ?_⟩
  · rw [Store.watcher?_write] at hx
    exact ht.client hx
  · rw [Store.registered_write] at hu
    rw [Store.watcher?_write] at hx
    rw [ht.tended.due_write hu hx hn, overwrites_concat]
    by_cases hown : o = q ∧ key = x.property
    · obtain ⟨rfl, rfl⟩ := hown
      have hover : m.Overwrites o u x.property := by
        refine ⟨?_, v, hset⟩
        rw [hm]
        exact hu
      rw [if_pos ⟨rfl, rfl⟩]
      exact ⟨fun _ => .inr hover, fun _ => rfl⟩
    · have hnot : ¬ m.Overwrites q u x.property := by
        rintro ⟨-, v', hv'⟩
        rw [hset] at hv'
        cases hv'
        exact hown ⟨rfl, rfl⟩
      -- a write elsewhere counts for nothing
      rw [if_neg hown, ht.proxies hu hx hn, or_iff_left hnot]

/-! ## 3. Moves -/

theorem Tracked.move {p p' : Page κ} (ht : Tracked p.store h) (hp : p.Move Request.Reads p') :
    Tracked p'.store h := by
  have hs := ht.tended
  cases hp with
  | read o key =>
    exact ht.sameData (Store.sameData_get _ _ _) (hs.get _ _) (Store.watcher?_get _ _ _)
      (hs.registered_get _ _)
  | wrap fields =>
    exact ht.sameData (Store.sameData_wrap _ _) (hs.wrap _) (Store.watcher?_wrap _ _)
      (Store.registered_wrap _ _)
  | wrapIn t fields =>
    exact ht.sameData (Store.sameData_wrapIn _ _ _) (hs.wrapIn _ _) (Store.watcher?_wrapIn _ _ _)
      (Store.registered_wrapIn _ _ _)
  | watch o key code _ => exact ht.watch o key code
  | newRegistry =>
    exact ht.sameData (Store.sameData_newRegistry _) hs.newRegistry (fun _ => rfl) fun _ => rfl
  | compile c hc =>
    rcases hc with hc | ⟨w, x, hx, hr⟩
    · exact hc.elim
    -- no watcher renders, so that no compile comes from an update
    · obtain ⟨code, hcode⟩ := ht.client hx
      rw [hr] at hcode
      cases hcode
  | bind root t methods receiver =>
    rw [Page.bind_snd, Page.store_bindTypes]
    exact ht
  | createElement id => exact ht
  | listen e type code => exact ht
  | newTable => exact ht
  | register r w hr => exact hr.elim
  | occupy t w hr _ => exact hr.elim
  | vacate t w hr => exact hr.elim
  | setMarkup e markup hr => exact hr.elim
  | refuse writes listens hr => exact hr.elim
  | newCompiler template data root ids table t hr => exact hr.elim
  | mount vm config hr => exact hr.elim

/-! ## 4. Whole histories -/

/-- The store is what the history has made of it, and has been so at every moment. -/
def Tracking (w : World κ (σ × History κ σ)) : Prop :=
  Tracked w.page.store w.client.2 ∧
    ∀ {g m}, g ++ [m] <+: w.client.2 → Tracked m.page.store g

theorem Tracking.past {w : World κ (σ × History κ σ)} (hw : Tracking w) {request : Request κ}
    {g : History κ σ} {m : Moment κ σ} (hpre : g ++ [m] <+: (w.noting request).client.2) :
    Tracked m.page.store g := by
  rcases World.noting_cases hpre with ⟨rfl, rfl⟩ | hpre
  · exact hw.1
  · exact hw.2 hpre

theorem Tracking.noting {w : World κ (σ × History κ σ)} (hw : Tracking w) {request : Request κ}
    (hset : ∀ o key v, request ≠ .perform (.set o key v)) : Tracking (w.noting request) :=
  ⟨hw.1.note rfl hset, hw.past⟩

theorem Tracking.move {w : World κ (σ × History κ σ)} {p : Page κ} (hw : Tracking w)
    (hp : w.page.Move Request.Reads p) : Tracking { w with page := p } :=
  ⟨hw.1.move hp, hw.2⟩

theorem Tracking.ignoresPins (w : World κ (σ × History κ σ)) (ns : List Node)
    (hw : Tracking w) : Tracking { w with pins := ns } :=
  hw

section Discipline

variable {holds : σ × History κ σ → List Node} {serve : Cue κ → Run κ (σ × History κ σ) Unit}

-- Callbacks leave the store in step with the history.
theorem Tracking.reads (hserve : ∀ cue, (serve cue).Keeps Tracking) :
    Discipline Request.Reads holds serve Tracking Tracking := by
  refine ⟨id, fun _ hw => hw, fun hw => hw.noting (fun _ _ _ h => nomatch h), fun {op} hop => ?_,
    fun hc => hc.elim, fun hc => hc.elim, fun hc => hc.elim⟩
  rintro w ⟨v, hv, rfl⟩
  have hset : ∀ {o key v}, ¬ (Request.perform (.set o key v) : Request κ).Reads := id
  refine Operation.run_keeps Tracking.ignoresPins hserve (fun hw hp => hw.move hp)
    (fun h => (hset h).elim) hop _ (hv.noting fun o key v h => ?_)
  cases h
  exact hset hop

-- A write is in step with the history as soon as it is noted down and carried out.
theorem Tracking.set (hserve : ∀ cue, (serve cue).Keeps Tracking) {w w' : World κ (σ × History κ σ)}
    (hw : Tracking w) (o : ObjectId) (key : String) (v : Value) {r : Except Failure Unit}
    (h : o.set holds serve key v (w.noting (.perform (.set o key v))) = some (r, w')) :
    Tracking w' := by
  rw [ObjectId.set_apply] at h
  obtain ⟨⟨r', w₁⟩, hrun, hr⟩ := Option.map_eq_some_iff.1 h
  cases hr
  have hup : KeptByUpdates holds (Tracking (κ := κ) (σ := σ)) :=
    .of_move Tracking.ignoresPins fun hw hp => hw.move hp
  refine updateAll_keeps hup hserve _ _ ?_ _ w₁ hrun
  exact ⟨hw.1.write rfl rfl, hw.past⟩

-- The program that also writes does so too.
theorem Tracking.writes (hserve : ∀ cue, (serve cue).Keeps Tracking) :
    Discipline Request.ReadsOrWrites holds serve Tracking Tracking := by
  have hreads := @Tracking.reads κ σ holds serve hserve
  refine ⟨id, fun _ hw => hw, hreads.finish, fun {op} hop => ?_, fun hc => hc.elim,
    fun hc => hc.elim, fun hc => hc.elim⟩
  by_cases hset : ∃ o key v, op = .set o key v
  · obtain ⟨o, key, v, rfl⟩ := hset
    rintro w ⟨w₀, hw₀, rfl⟩ r w' h
    exact hw₀.set hserve o key v h
  · have hop' : (Request.perform op).Reads := by
      cases op with
      | set o key v => exact (hset ⟨o, key, v, rfl⟩).elim
      | _ => exact hop
    exact hreads.perform hop'

end Discipline

/-- **What a history has made of the store** is known at every moment of it. -/
theorem Client.Lives.tracked {c : Client κ σ} (hc : c.Within Request.Reads) {p : Program κ σ}
    (hp : p.Within Request.ReadsOrWrites) {document : Document (Listener κ)} {entropy : Entropy}
    {s : σ} {g : History κ σ} {m : Moment κ σ}
    (hl : c.Lives { document, entropy } s p (g ++ [m])) : Tracked m.page.store g := by
  have hstart : Tracking (⟨{ document, entropy }, (s, []), []⟩ : World κ (σ × History κ σ)) := by
    refine ⟨.empty, fun hpre => ?_⟩
    simp at hpre
  obtain ⟨w, hw, hpre⟩ := hl.ensures hc hp (fun _ => Tracking.reads) (fun _ => Tracking.writes)
    hstart
  exact hw.2 hpre

end ReactiveView
