import ReactiveView.Proofs.Store.Lookup

/-!
# Growing stores

A store only grows: observables, watchers and registrations are added and none is ever removed.
Between two writes even the data stays, except that an object may be wrapped where it is read.  The
two relations here, `Grows` and `SameData`, are the frame that every operation of a store respects;
what a placeholder shows, and whether a watcher is due, depend on the store only through them.
-/

namespace ReactiveView

namespace Store

variable {ρ : Type}

/-! ## 1. Fields and slots -/

theorem object?_isSome_of_slot? {s : Store ρ} {o : ObjectId} {key : String} {x : Slot}
    (h : s.slot? o key = some x) : (s.object? o).isSome := by
  cases ho : s.object? o with
  | none =>
    rw [slot?, ho] at h
    cases h
  | some _ => rfl

theorem resolve_of_none {s : Store ρ} {o : ObjectId} {key : String} (h : s.slot? o key = none) :
    s.resolve o key = (.absent, s) := by
  simp only [slot?] at h
  simp [resolve, h]

theorem resolve_of_nested {s : Store ρ} {o : ObjectId} {key : String} {n : ObjectId}
    (h : s.slot? o key = some (.nested n)) : s.resolve o key = (.proxy n, s) := by
  simp only [slot?] at h
  simp [resolve, h]

theorem resolve_of_plain {s : Store ρ} {o : ObjectId} {key : String} {v : Value}
    (h : s.slot? o key = some (.plain v)) (hv : v.isObject = false) :
    s.resolve o key = (.value v, s) := by
  simp only [slot?] at h
  cases v with
  | object fields => cases hv
  | _ => simp [resolve, h]

theorem resolve_of_object {s : Store ρ} {o : ObjectId} {key : String} {fields : Fields Value}
    (h : s.slot? o key = some (.plain (.object fields))) :
    s.resolve o key =
      (.proxy (s.wrapIn o.tree fields).1,
        (s.wrapIn o.tree fields).2.setSlot o key (.nested (s.wrapIn o.tree fields).1)) := by
  simp only [slot?] at h
  simp [resolve, h]

-- The ways in which a read can find its property.
theorem slot?_cases (s : Store ρ) (o : ObjectId) (key : String) :
    s.slot? o key = none ∨ (∃ n, s.slot? o key = some (.nested n)) ∨
      (∃ v, s.slot? o key = some (.plain v) ∧ v.isObject = false) ∨
      ∃ fields, s.slot? o key = some (.plain (.object fields)) := by
  cases h : s.slot? o key with
  | none => exact .inl rfl
  | some x =>
    cases x with
    | nested n => exact .inr (.inl ⟨n, rfl⟩)
    | plain v =>
      cases v with
      | object fields => exact .inr (.inr (.inr ⟨fields, rfl⟩))
      | _ => exact .inr (.inr (.inl ⟨_, rfl, rfl⟩))

-- A read leaves the store alone, or wraps the object that it finds.
theorem resolve_cases (s : Store ρ) (o : ObjectId) (key : String) :
    (s.resolve o key).2 = s ∨ ∃ fields, s.slot? o key = some (.plain (.object fields)) ∧
      (s.resolve o key).2 =
        (s.wrapIn o.tree fields).2.setSlot o key (.nested (s.wrapIn o.tree fields).1) := by
  rcases slot?_cases s o key with hs | ⟨n, hs⟩ | ⟨v, hs, hv⟩ | ⟨fields, hs⟩
  · exact .inl (by rw [resolve_of_none hs])
  · exact .inl (by rw [resolve_of_nested hs])
  · exact .inl (by rw [resolve_of_plain hs hv])
  · exact .inr ⟨fields, hs, by rw [resolve_of_object hs]⟩

/-- A field that names no observable, or one that is there. -/
def Known (s : Store ρ) : Field → Prop
  | .value _ => True
  | .proxy n => (s.object? n).isSome

/-- A store whose nested observables and baselines are all there. -/
structure Sound (s : Store ρ) : Prop where
  nested : ∀ {o key n}, s.slot? o key = some (.nested n) → (s.object? n).isSome
  baseline : ∀ {w x}, s.watcher? w = some x → s.Known x.baseline

theorem Sound.empty : ({} : Store ρ).Sound :=
  ⟨(fun h => nomatch h), (fun h => nomatch h)⟩

/-! ## 2. The two relations -/

/-- Whatever is in `s` is still in `s'`; registries may have become longer. -/
structure Grows (s s' : Store ρ) : Prop where
  object : ∀ {o x}, s.object? o = some x →
    ∃ x', s'.object? o = some x' ∧ x.registered <+: x'.registered
  watcher : ∀ {w x}, s.watcher? w = some x → s'.watcher? w = some x

/-- A growing store into which nothing was written: every slot is as it was, or its object has been
    wrapped by a new observable. -/
structure SameData (s s' : Store ρ) : Prop extends Grows s s' where
  slot : ∀ {o}, (s.object? o).isSome → ∀ key,
    s'.slot? o key = s.slot? o key ∨
      ∃ fields n, s.slot? o key = some (.plain (.object fields)) ∧
        s'.slot? o key = some (.nested n) ∧ s.object? n = none

theorem Grows.refl (s : Store ρ) : s.Grows s :=
  ⟨fun h => ⟨_, h, List.prefix_rfl⟩, fun h => h⟩

theorem Grows.trans {s s' s'' : Store ρ} (h : s.Grows s') (h' : s'.Grows s'') : s.Grows s'' := by
  refine ⟨fun ho => ?_, fun hw => h'.watcher (h.watcher hw)⟩
  obtain ⟨x', hx', hp⟩ := h.object ho
  obtain ⟨x'', hx'', hp'⟩ := h'.object hx'
  exact ⟨x'', hx'', hp.trans hp'⟩

theorem Grows.object?_isSome {s s' : Store ρ} (h : s.Grows s') {o : ObjectId}
    (ho : (s.object? o).isSome) : (s'.object? o).isSome := by
  obtain ⟨x, hx⟩ := Option.isSome_iff_exists.1 ho
  obtain ⟨x', hx', -⟩ := h.object hx
  rw [hx']
  rfl

theorem Grows.object?_eq_none {s s' : Store ρ} (h : s.Grows s') {o : ObjectId}
    (ho : s'.object? o = none) : s.object? o = none := by
  cases hs : s.object? o with
  | none => rfl
  | some x =>
    obtain ⟨x', hx', -⟩ := h.object hs
    rw [ho] at hx'
    cases hx'

theorem Grows.known {s s' : Store ρ} (h : s.Grows s') {f : Field} (hf : s.Known f) :
    s'.Known f := by
  cases f with
  | value v => trivial
  | proxy n => exact h.object?_isSome hf

theorem SameData.refl (s : Store ρ) : s.SameData s :=
  ⟨Grows.refl s, fun _ _ => .inl rfl⟩

theorem SameData.trans {s s' s'' : Store ρ} (h : s.SameData s') (h' : s'.SameData s'') :
    s.SameData s'' := by
  refine ⟨h.toGrows.trans h'.toGrows, fun {o} ho key => ?_⟩
  have hn : ∀ n, s'.object? n = none → s.object? n = none := fun n => h.object?_eq_none
  -- an object is wrapped once at most: a nested slot stays as it is
  rcases h.slot ho key with h₁ | ⟨fields, n, hs, hs', hfresh⟩ <;>
    rcases h'.slot (h.object?_isSome ho) key with h₂ | ⟨fields', n', hs₂, hs₂', hfresh'⟩
  · exact .inl (h₂.trans h₁)
  · exact .inr ⟨fields', n', h₁ ▸ hs₂, hs₂', hn n' hfresh'⟩
  · exact .inr ⟨fields, n, hs, h₂.trans hs', hfresh⟩
  · rw [hs'] at hs₂
    cases hs₂

-- A change that at most adds observables.
theorem SameData.of_kept {s s' : Store ρ}
    (ho : ∀ {o}, (s.object? o).isSome → s'.object? o = s.object? o)
    (hw : ∀ w, s'.watcher? w = s.watcher? w) : s.SameData s' :=
  ⟨⟨fun h => ⟨_, (ho (by rw [h]; rfl)).trans h, List.prefix_rfl⟩, fun h => (hw _).trans h⟩,
    fun hs _ => .inl (by rw [slot?, slot?, ho hs])⟩

-- A change that no look-up sees.
theorem SameData.of_eq {s s' : Store ρ} (ho : ∀ o, s'.object? o = s.object? o)
    (hw : ∀ w, s'.watcher? w = s.watcher? w) : s.SameData s' :=
  .of_kept (fun _ => ho _) hw

/-! ## 3. What the relations say of fields -/

theorem field_of_none {s : Store ρ} {o : ObjectId} {key : String} (h : s.slot? o key = none) :
    s.field o key = .absent := by rw [field, resolve_of_none h]

theorem field_of_nested {s : Store ρ} {o : ObjectId} {key : String} {n : ObjectId}
    (h : s.slot? o key = some (.nested n)) : s.field o key = .proxy n := by
  rw [field, resolve_of_nested h]

theorem field_of_plain {s : Store ρ} {o : ObjectId} {key : String} {v : Value}
    (h : s.slot? o key = some (.plain v)) (hv : v.isObject = false) :
    s.field o key = .value v := by rw [field, resolve_of_plain h hv]

theorem field_of_object {s : Store ρ} {o : ObjectId} {key : String} {fields : Fields Value}
    (h : s.slot? o key = some (.plain (.object fields))) :
    s.field o key = .proxy (s.wrapIn o.tree fields).1 := by rw [field, resolve_of_object h]

-- An observable that a read gives stands in the slot, or is made of the object there.
theorem field_eq_proxy {s : Store ρ} {o n : ObjectId} {key : String} (h : s.field o key = .proxy n) :
    s.slot? o key = some (.nested n) ∨
      ∃ fields, s.slot? o key = some (.plain (.object fields)) ∧ (s.wrapIn o.tree fields).1 = n := by
  rcases slot?_cases s o key with hs | ⟨m, hs⟩ | ⟨v, hs, hv⟩ | ⟨fields, hs⟩
  · rw [field_of_none hs] at h
    cases h
  · rw [field_of_nested hs] at h
    cases h
    exact .inl hs
  · rw [field_of_plain hs hv] at h
    cases h
  · rw [field_of_object hs] at h
    exact .inr ⟨fields, hs, Field.proxy.inj h⟩

-- A field is the same wherever the slot is, unless that holds an object yet to be wrapped.
theorem field_congr {s s' : Store ρ} {o : ObjectId} {key : String}
    (h : s'.slot? o key = s.slot? o key)
    (hn : ∀ fields, s.slot? o key ≠ some (.plain (.object fields))) :
    s'.field o key = s.field o key := by
  rcases slot?_cases s o key with hs | ⟨n, hs⟩ | ⟨v, hs, hv⟩ | ⟨fields, hs⟩
  · rw [field_of_none hs, field_of_none (h.trans hs)]
  · rw [field_of_nested hs, field_of_nested (h.trans hs)]
  · rw [field_of_plain hs hv, field_of_plain (h.trans hs) hv]
  · exact absurd hs (hn fields)

-- An object that is yet to be wrapped differs from every field known so far.
theorem strictEqual_of_object {s : Store ρ} {o : ObjectId} {key : String} {fields : Fields Value}
    (h : s.slot? o key = some (.plain (.object fields))) {b : Field} (hb : s.Known b) :
    (s.field o key).strictEqual b = false := by
  rw [field_of_object h]
  cases b with
  | value v => rfl
  | proxy n =>
    -- the place of the observable that would wrap it is still free
    simp only [Field.strictEqual, beq_eq_false_iff_ne]
    intro hn
    rw [← hn] at hb
    simp [Known, object?_wrapIn_fst] at hb

-- An object that is yet to be wrapped is no field that is known.
theorem ne_object_of_known {s : Store ρ} {o : ObjectId} {key : String}
    (hk : s.Known (s.field o key)) (fields : Fields Value) :
    s.slot? o key ≠ some (.plain (.object fields)) := by
  intro h
  rw [field_of_object h] at hk
  simp [Known, object?_wrapIn_fst] at hk

-- What a slot shows does not depend on the rest of the store.
theorem display_field_congr {s s' : Store ρ} {o : ObjectId} {key : String}
    (h : s'.slot? o key = s.slot? o key) :
    (s'.field o key).display = (s.field o key).display := by
  by_cases hobj : ∃ fields, s.slot? o key = some (.plain (.object fields))
  · obtain ⟨fields, hf⟩ := hobj
    rw [field_of_object hf, field_of_object (h.trans hf)]
    rfl
  · rw [field_congr h (fun fields hf => hobj ⟨fields, hf⟩)]

theorem strictEqual_field_congr {s s' : Store ρ} {o : ObjectId} {key : String}
    (h : s'.slot? o key = s.slot? o key) {b : Field} (hb : s.Known b) (hb' : s'.Known b) :
    (s'.field o key).strictEqual b = (s.field o key).strictEqual b := by
  by_cases hobj : ∃ fields, s.slot? o key = some (.plain (.object fields))
  · obtain ⟨fields, hf⟩ := hobj
    rw [strictEqual_of_object hf hb, strictEqual_of_object (h.trans hf) hb']
  · rw [field_congr h (fun fields hf => hobj ⟨fields, hf⟩)]

theorem SameData.display_field {s s' : Store ρ} (h : s.SameData s') {o : ObjectId}
    (ho : (s.object? o).isSome) (key : String) :
    (s'.field o key).display = (s.field o key).display := by
  rcases h.slot ho key with hs | ⟨fields, n, hs, hs', -⟩
  · exact display_field_congr hs
  · rw [field_of_object hs, field_of_nested hs']
    rfl

-- Between two writes a field keeps its answer to whether it equals a known one.
theorem SameData.strictEqual_field {s s' : Store ρ} (h : s.SameData s') {o : ObjectId}
    (ho : (s.object? o).isSome) (key : String) {b : Field} (hb : s.Known b) :
    (s'.field o key).strictEqual b = (s.field o key).strictEqual b := by
  rcases h.slot ho key with hs | ⟨fields, n, hs, hs', hfresh⟩
  · exact strictEqual_field_congr hs hb (h.known hb)
  · rw [strictEqual_of_object hs hb, field_of_nested hs']
    cases b with
    | value v => rfl
    | proxy m =>
      simp only [Field.strictEqual, beq_eq_false_iff_ne]
      intro hnm
      rw [← hnm] at hb
      simp [Known, hfresh] at hb

-- Between two writes a field that is known stays the same.
theorem SameData.field {s s' : Store ρ} (h : s.SameData s') {o : ObjectId}
    (ho : (s.object? o).isSome) {key : String} (hk : s.Known (s.field o key)) :
    s'.field o key = s.field o key := by
  have hn := ne_object_of_known hk
  rcases h.slot ho key with hs | ⟨fields, n, hs, -, -⟩
  · exact field_congr hs hn
  · exact absurd hs (hn fields)

/-! ## 4. Reading -/

theorem wrapIn_fst_ne {s : Store ρ} {o : ObjectId} (ho : (s.object? o).isSome) (t : TreeId)
    (fields : Fields Value) : o ≠ (s.wrapIn t fields).1 := by
  intro h
  rw [h, object?_wrapIn_fst] at ho
  cases ho

theorem sameData_wrapIn (s : Store ρ) (t : TreeId) (fields : Fields Value) :
    s.SameData (s.wrapIn t fields).2 := by
  by_cases ht : s.HasTree t
  · refine .of_kept (fun {o} ho => ?_) (watcher?_wrapIn s t fields)
    rw [object?_wrapIn ht, if_neg (wrapIn_fst_ne ho t fields)]
  · exact SameData.of_eq (object?_wrapIn_of_not_hasTree ht fields) (watcher?_wrapIn s t fields)

theorem sameData_resolve (s : Store ρ) (o : ObjectId) (key : String) :
    s.SameData (s.resolve o key).2 := by
  rcases resolve_cases s o key with h | ⟨fields, hs, h⟩
  · rw [h]
    exact SameData.refl s
  · have ho := object?_isSome_of_slot? hs
    have hw := sameData_wrapIn s o.tree fields
    have ho' := hw.object?_isSome ho
    rw [h]
    refine ⟨⟨fun {q x} hq => ?_, fun hx => ?_⟩, fun {q} hq l => ?_⟩
    · obtain ⟨x', hx', hp⟩ := hw.object hq
      rw [object?_setSlot, hx']
      split
      · exact ⟨_, rfl, hp⟩
      · exact ⟨x', rfl, hp⟩
    · rw [watcher?_setSlot]
      exact hw.watcher hx
    · rw [slot?_setSlot ho']
      split
      · rename_i h
        obtain ⟨rfl, rfl⟩ := h
        exact .inr ⟨fields, _, hs, rfl, object?_wrapIn_fst s o.tree fields⟩
      · exact hw.slot hq l

theorem sameData_register (s : Store ρ) (r : RegistryId) (w : WatcherId) :
    s.SameData (s.register r w) := by
  refine ⟨⟨fun {o x} h => ?_, fun h => ?_⟩, fun _ key => .inl (slot?_register s r w _ key)⟩
  · cases r with
    | free i => exact ⟨x, h, List.prefix_rfl⟩
    | ofObject q =>
      rw [object?_register, h]
      split
      · exact ⟨_, rfl, List.prefix_append _ _⟩
      · exact ⟨x, rfl, List.prefix_rfl⟩
  · rwa [watcher?_register]

theorem sameData_collectAt (s : Store ρ) (o : ObjectId) : s.SameData (s.collectAt o) := by
  rw [collectAt]
  split
  · exact sameData_register s _ _
  · exact SameData.refl s

/-- **A read writes no data.** -/
theorem sameData_get (s : Store ρ) (o : ObjectId) (key : String) :
    s.SameData (s.get o key).2 :=
  (sameData_resolve s o key).trans (sameData_collectAt _ o)

@[simp]
theorem get_fst (s : Store ρ) (o : ObjectId) (key : String) : (s.get o key).1 = s.field o key :=
  rfl

@[simp]
theorem active_resolve (s : Store ρ) (o : ObjectId) (key : String) (t : TreeId) :
    (s.resolve o key).2.active t = s.active t := by
  rcases resolve_cases s o key with h | ⟨fields, -, h⟩
  · rw [h]
  · rw [h, setSlot, active_modifyObject, active_wrapIn]

@[simp]
theorem watcher?_resolve (s : Store ρ) (o : ObjectId) (key : String) (w : WatcherId) :
    (s.resolve o key).2.watcher? w = s.watcher? w := by
  rcases resolve_cases s o key with h | ⟨fields, -, h⟩
  · rw [h]
  · rw [h, watcher?_setSlot, watcher?_wrapIn]

@[simp]
theorem active_get (s : Store ρ) (o : ObjectId) (key : String) (t : TreeId) :
    (s.get o key).2.active t = s.active t := by
  show ((s.resolve o key).2.collectAt o).active t = s.active t
  rw [collectAt]
  split
  · rw [active_register, active_resolve]
  · rw [active_resolve]

@[simp]
theorem watcher?_get (s : Store ρ) (o : ObjectId) (key : String) (w : WatcherId) :
    (s.get o key).2.watcher? w = s.watcher? w := by
  show ((s.resolve o key).2.collectAt o).watcher? w = s.watcher? w
  rw [collectAt]
  split
  · rw [watcher?_register, watcher?_resolve]
  · rw [watcher?_resolve]

/-- **A read decides the field**: reading again gives the same. -/
theorem field_get (s : Store ρ) (o : ObjectId) (key : String) :
    (s.get o key).2.field o key = s.field o key := by
  have hslot : (s.get o key).2.slot? o key = (s.resolve o key).2.slot? o key := by
    show ((s.resolve o key).2.collectAt o).slot? o key = _
    rw [collectAt]
    split
    · exact slot?_register _ _ _ _ _
    · rfl
  rcases slot?_cases s o key with hs | ⟨n, hs⟩ | ⟨v, hs, hv⟩ | ⟨fields, hs⟩
  · rw [field_of_none hs, field_of_none (hslot.trans (by rw [resolve_of_none hs, hs]))]
  · rw [field_of_nested hs, field_of_nested (hslot.trans (by rw [resolve_of_nested hs, hs]))]
  · rw [field_of_plain hs hv,
      field_of_plain (hslot.trans (by rw [resolve_of_plain hs hv, hs])) hv]
  · have ho := (sameData_wrapIn s o.tree fields).object?_isSome (object?_isSome_of_slot? hs)
    rw [field_of_object hs]
    apply field_of_nested
    rw [hslot, resolve_of_object hs, slot?_setSlot ho, if_pos ⟨rfl, rfl⟩]

theorem getTexts_fst {s : Store ρ} {o : ObjectId} (ho : (s.object? o).isSome)
    (keys : List String) :
    (s.getTexts o keys).1 = keys.map fun key => (s.field o key).display := by
  induction keys generalizing s with
  | nil => rfl
  | cons key keys ih =>
    have hd := sameData_get s o key
    show (s.field o key).display :: ((s.get o key).2.getTexts o keys).1 = _
    rw [ih (hd.object?_isSome ho), List.map_cons]
    exact congrArg _ (List.map_congr_left fun l _ => hd.display_field ho l)

theorem sameData_getTexts (s : Store ρ) (o : ObjectId) (keys : List String) :
    s.SameData (s.getTexts o keys).2 := by
  induction keys generalizing s with
  | nil => exact SameData.refl s
  | cons key keys ih => exact (sameData_get s o key).trans (ih (s.get o key).2)

@[simp]
theorem active_getTexts (s : Store ρ) (o : ObjectId) (keys : List String) (t : TreeId) :
    (s.getTexts o keys).2.active t = s.active t := by
  induction keys generalizing s with
  | nil => rfl
  | cons key keys ih => exact (ih (s.get o key).2).trans (active_get s o key t)

@[simp]
theorem watcher?_getTexts (s : Store ρ) (o : ObjectId) (keys : List String) (w : WatcherId) :
    (s.getTexts o keys).2.watcher? w = s.watcher? w := by
  induction keys generalizing s with
  | nil => rfl
  | cons key keys ih => exact (ih (s.get o key).2).trans (watcher?_get s o key w)

/-! ## 5. The other operations -/

theorem sameData_wrap (s : Store ρ) (fields : Fields Value) : s.SameData (s.wrap fields).2 := by
  refine .of_kept (fun {o} ho => ?_) (watcher?_wrap s fields)
  rw [object?_wrap, if_neg]
  intro h
  rw [h, object?_wrap_fst] at ho
  cases ho

theorem sameData_newRegistry (s : Store ρ) : s.SameData s.newRegistry.2 :=
  SameData.of_eq (fun _ => rfl) (fun _ => rfl)

theorem sameData_occupy (s : Store ρ) (t : TreeId) (w : WatcherId) : s.SameData (s.occupy t w) :=
  SameData.of_eq (object?_occupy s t w) (watcher?_occupy s t w)

theorem sameData_vacate (s : Store ρ) (t : TreeId) : s.SameData (s.vacate t) :=
  SameData.of_eq (object?_vacate s t) (watcher?_vacate s t)

theorem grows_write (s : Store ρ) (o : ObjectId) (key : String) (v : Value) :
    s.Grows (s.write o key v) := by
  refine ⟨fun {q x} h => ?_, fun h => ?_⟩
  · rw [write, object?_setSlot, h]
    split
    · exact ⟨_, rfl, List.prefix_rfl⟩
    · exact ⟨x, rfl, List.prefix_rfl⟩
  · rwa [watcher?_write]

theorem sameData_addWatcher (s : Store ρ) (t : TreeId) (x : Watcher ρ) :
    s.SameData (s.addWatcher t x).2 := by
  by_cases ht : s.HasTree t
  · refine ⟨⟨fun {o y} h => ⟨y, ?_, List.prefix_rfl⟩, fun {w y} h => ?_⟩, fun _ key => .inl ?_⟩
    · rwa [object?_addWatcher]
    · rw [watcher?_addWatcher ht, if_neg, h]
      intro hw
      rw [hw, watcher?_addWatcher_fst] at h
      cases h
    · rw [slot?, slot?, object?_addWatcher]
  · exact SameData.of_eq (object?_addWatcher s t x) (watcher?_addWatcher_of_not_hasTree ht x)

-- A watcher that was not there before may be changed.
theorem SameData.modifyWatcher {s s' : Store ρ} (h : s.SameData s') {w : WatcherId}
    (hw : s.watcher? w = none) (f : Watcher ρ → Watcher ρ) :
    s.SameData (s'.modifyWatcher w f) := by
  refine ⟨⟨fun hx => ?_, fun {x y} hx => ?_⟩, fun ho key => ?_⟩
  · simpa only [object?_modifyWatcher] using h.object hx
  · rw [watcher?_modifyWatcher, if_neg, h.watcher hx]
    intro hwx
    rw [← hwx, hw] at hx
    cases hx
  · simpa only [slot?, object?_modifyWatcher] using h.slot ho key

/-! ## 6. Objects that read alike -/

/-- The properties of `o` show the same in both stores, and the same known fields equal them. -/
structure Alike (s s' : Store ρ) (o : ObjectId) : Prop where
  watcher : ∀ {w x}, s.watcher? w = some x → s'.watcher? w = some x
  display : ∀ key, (s'.field o key).display = (s.field o key).display
  strictEqual : ∀ key {b}, s.Known b →
    (s'.field o key).strictEqual b = (s.field o key).strictEqual b

theorem SameData.alike {s s' : Store ρ} (h : s.SameData s') {o : ObjectId}
    (ho : (s.object? o).isSome) : s.Alike s' o :=
  ⟨h.watcher, h.display_field ho, h.strictEqual_field ho⟩

-- A write does not show in other objects.
theorem alike_write (s : Store ρ) {o q : ObjectId} (h : o ≠ q) (key : String) (v : Value) :
    s.Alike (s.write o key v) q := by
  have hslot : ∀ l, (s.write o key v).slot? q l = s.slot? q l := by
    intro l
    rw [slot?, slot?, write, object?_setSlot, if_neg h]
  have hgrows := grows_write s o key v
  exact ⟨hgrows.watcher, fun l => display_field_congr (hslot l),
    fun l _ hb => strictEqual_field_congr (hslot l) hb (hgrows.known hb)⟩

end Store

end ReactiveView
