import ReactiveView.Proofs.Store.Written

/-!
# Tended registries

As long as nobody collects on their own and registers watchers by hand, the registry of an
observable holds its own watchers, each of them once.  A watcher whose baseline is a nested
observable is due from the first write to its property on.
-/

namespace ReactiveView.Store

variable {ρ : Type} {s s' : Store ρ}

/-! ## 1. The invariant -/

/-- Nobody is collecting, and a registry holds watchers of its observable, each once. -/
structure Tended (s : Store ρ) : Prop where
  sound : s.Sound
  idle : ∀ t, s.active t = none
  source : ∀ {o u}, u ∈ s.registered (.ofObject o) → ∃ x, s.watcher? u = some x ∧ x.source = o
  nodup : ∀ o, (s.registered (.ofObject o)).Nodup

theorem Tended.empty : ({} : Store ρ).Tended :=
  ⟨.empty, fun _ => rfl, (fun h => nomatch h), fun _ => List.nodup_nil⟩

-- Changes that neither register a watcher nor let one collect.
theorem Tended.of_registered (h : s.Tended) (hg : s.Grows s') (hs : s'.Sound)
    (ha : ∀ t, s'.active t = s.active t)
    (hr : ∀ o, s'.registered (.ofObject o) = s.registered (.ofObject o)) : s'.Tended := by
  refine ⟨hs, fun t => (ha t).trans (h.idle t), fun {o u} hu => ?_, fun o => ?_⟩
  · rw [hr] at hu
    obtain ⟨x, hx, hsource⟩ := h.source hu
    exact ⟨x, hg.watcher hx, hsource⟩
  · rw [hr]
    exact h.nodup o

theorem Tended.registered_get (h : s.Tended) (o : ObjectId) (key : String) (q : ObjectId) :
    (s.get o key).2.registered (.ofObject q) = s.registered (.ofObject q) := by
  rw [Store.registered_get, h.idle, Option.toList_none, List.append_nil, ite_self]

theorem Tended.get (h : s.Tended) (o : ObjectId) (key : String) : (s.get o key).2.Tended :=
  h.of_registered (sameData_get s o key).toGrows (h.sound.get o key) (active_get s o key)
    (h.registered_get o key)

theorem registered_wrap (s : Store ρ) (fields : Fields Value) (q : ObjectId) :
    (s.wrap fields).2.registered (.ofObject q) = s.registered (.ofObject q) := by
  by_cases hq : q = (s.wrap fields).1
  · have hnone : s.object? q = none := hq ▸ object?_wrap_fst s fields
    rw [registered_of_none hnone, registered_eq ((object?_wrap s fields q).trans (if_pos hq))]
  · exact registered_congr ((object?_wrap s fields q).trans (if_neg hq))

theorem Tended.wrap (h : s.Tended) (fields : Fields Value) : (s.wrap fields).2.Tended :=
  h.of_registered (sameData_wrap s fields).toGrows (h.sound.wrap fields) (active_wrap s fields)
    (registered_wrap s fields)

theorem Tended.wrapIn (h : s.Tended) (t : TreeId) (fields : Fields Value) :
    (s.wrapIn t fields).2.Tended :=
  h.of_registered (sameData_wrapIn s t fields).toGrows (h.sound.wrapIn t fields)
    (active_wrapIn s t fields) (registered_wrapIn s t fields)

theorem Tended.newRegistry (h : s.Tended) : s.newRegistry.2.Tended :=
  h.of_registered (sameData_newRegistry s).toGrows h.sound.newRegistry (fun _ => rfl) fun _ => rfl

theorem Tended.write (h : s.Tended) (o : ObjectId) (key : String) (v : Value) :
    (s.write o key v).Tended :=
  h.of_registered (grows_write s o key v) (h.sound.write o key v) (active_write s o key v)
    (registered_write s o key v)

-- A new watcher is registered with its source, behind the others.
theorem Tended.watched (h : s.Tended) {o : ObjectId} {key : String} {reaction : ρ} {w : WatcherId}
    (hw : s.Watched o key reaction w s') (hs : s'.Sound) : s'.Tended := by
  have hold : ∀ {q u}, u ∈ s.registered (.ofObject q) → u ≠ w := by
    intro q u hu he
    obtain ⟨x, hx, -⟩ := h.source hu
    rw [he, hw.fresh] at hx
    cases hx
  refine ⟨hs, fun t => (hw.active t).trans (h.idle t), fun {q u} hu => ?_, fun q => ?_⟩
  · rw [hw.registered] at hu
    by_cases hq : o = q ∧ (s.object? q).isSome
    · rw [if_pos hq] at hu
      rcases List.mem_append.1 hu with hu | hu
      · obtain ⟨x, hx, hsource⟩ := h.source hu
        exact ⟨x, hw.watcher hx, hsource⟩
      · rw [List.mem_singleton.1 hu]
        exact ⟨_, hw.made (hasTree_of_object? (hq.1 ▸ hq.2)), hq.1⟩
    · rw [if_neg hq] at hu
      obtain ⟨x, hx, hsource⟩ := h.source hu
      exact ⟨x, hw.watcher hx, hsource⟩
  · rw [hw.registered]
    by_cases hq : o = q ∧ (s.object? q).isSome
    · rw [if_pos hq]
      refine List.nodup_append.2 ⟨h.nodup q, by simp, fun u hu v hv => ?_⟩
      rw [List.mem_singleton.1 hv]
      exact hold hu
    · rw [if_neg hq]
      exact h.nodup q

/-! ## 2. Baselines that are observables -/

-- A registered watcher stays due, or not due, while nothing is written.
theorem Tended.due_sameData (h : s.Tended) (hd : s.SameData s') {o : ObjectId} {u : WatcherId}
    (hu : u ∈ s.registered (.ofObject o)) : s'.due u = s.due u := by
  obtain ⟨x, hx, rfl⟩ := h.source hu
  exact hd.due hx (object?_isSome_of_registered hu) (h.sound.baseline hx)

/-- **A nested observable that is overwritten does not come back**: whatever is written to the
    property makes the watcher due, and nothing that is written elsewhere does. -/
theorem Tended.due_write (h : s.Tended) {q : ObjectId} {u : WatcherId} {x : Watcher ρ}
    {n : ObjectId} (hu : u ∈ s.registered (.ofObject q)) (hx : s.watcher? u = some x)
    (hn : x.baseline = .proxy n) (o : ObjectId) (key : String) (v : Value) :
    (s.write o key v).due u = if o = q ∧ key = x.property then true else s.due u := by
  obtain ⟨y, hy, rfl⟩ := h.source hu
  rw [hx] at hy
  cases hy
  have hb := h.sound.baseline hx
  have hx' : (s.write o key v).watcher? u = some x := (watcher?_write s o key v u).trans hx
  have hb' := (grows_write s o key v).known hb
  have hsource := object?_isSome_of_registered hu
  rw [due_eq hx', due_eq hx]
  by_cases hown : o = x.source ∧ key = x.property
  · rw [if_pos hown]
    have hslot : (s.write o key v).slot? x.source x.property = some (.plain v) := by
      rw [slot?_write (hown.1 ▸ hsource), if_pos hown]
    -- an object would be wrapped by a new observable, and anything else is no observable
    cases hv : v.isObject with
    | true =>
      cases v with
      | object fields =>
        rw [strictEqual_of_object hslot hb']
        rfl
      | _ => cases hv
    | false =>
      rw [field_of_plain hslot hv, hn]
      rfl
  · rw [if_neg hown]
    have hslot : (s.write o key v).slot? x.source x.property = s.slot? x.source x.property := by
      cases ho : (s.object? o).isSome with
      | true => rw [slot?_write ho, if_neg hown]
      | false =>
        have hne : ¬ o = x.source := fun e => by
          rw [e, hsource] at ho
          cases ho
        rw [slot?, slot?, Store.write, object?_setSlot, if_neg hne]
    rw [strictEqual_field_congr hslot hb hb']

-- A new watcher whose baseline is an observable is not due.
theorem Watched.due_of_proxy {o : ObjectId} {key : String} {reaction : ρ} {w : WatcherId}
    (hw : s.Watched o key reaction w s') {x : Watcher ρ} {n : ObjectId}
    (hx : s'.watcher? w = some x) (hn : x.baseline = .proxy n) : s'.due w = false := by
  rcases hw.only hx with hx | ⟨-, rfl⟩
  · rw [hw.fresh] at hx
    cases hx
  · have hn : s.field o key = .proxy n := hn
    rw [due_eq hx]
    show (!(s'.field o key).strictEqual (s.field o key)) = false
    rw [hw.reads, hn]
    simp [Field.strictEqual]

end ReactiveView.Store
