import ReactiveView.Proofs.Store.Growth

/-!
# New watchers

The exact effect of creating a watcher, and the soundness of stores: nested observables and the
baselines of watchers are never left without their object.
-/

namespace ReactiveView

namespace Store

variable {ρ : Type}

/-! ## 1. Registries -/

theorem registered_eq {s : Store ρ} {o : ObjectId} {x : Object} (h : s.object? o = some x) :
    s.registered (.ofObject o) = x.registered := by simp [registered, h]

theorem registered_congr {s s' : Store ρ} {o : ObjectId} (h : s'.object? o = s.object? o) :
    s'.registered (.ofObject o) = s.registered (.ofObject o) := by
  rw [registered, registered, h]

theorem registered_of_none {s : Store ρ} {o : ObjectId} (h : s.object? o = none) :
    s.registered (.ofObject o) = [] := by simp [registered, h]

-- Watchers are registered only with an observable that is there.
theorem object?_isSome_of_registered {s : Store ρ} {o : ObjectId} {u : WatcherId}
    (h : u ∈ s.registered (.ofObject o)) : (s.object? o).isSome := by
  cases ho : s.object? o with
  | some x => rfl
  | none =>
    rw [registered_of_none ho] at h
    cases h

theorem Grows.registered {s s' : Store ρ} (h : s.Grows s') (o : ObjectId) :
    s.registered (.ofObject o) <+: s'.registered (.ofObject o) := by
  cases ho : s.object? o with
  | none =>
    rw [registered_of_none ho]
    exact List.nil_prefix
  | some x =>
    obtain ⟨x', hx', hp⟩ := h.object ho
    rwa [registered_eq ho, registered_eq hx']

@[simp]
theorem registered_setSlot (s : Store ρ) (o : ObjectId) (key : String) (slot : Slot)
    (q : ObjectId) :
    (s.setSlot o key slot).registered (.ofObject q) = s.registered (.ofObject q) := by
  simp only [registered, object?_setSlot]
  by_cases h : o = q
  · rw [if_pos h]
    cases s.object? q <;> rfl
  · rw [if_neg h]

@[simp]
theorem registered_write (s : Store ρ) (o : ObjectId) (key : String) (v : Value) (q : ObjectId) :
    (s.write o key v).registered (.ofObject q) = s.registered (.ofObject q) :=
  registered_setSlot s o key (.plain v) q

@[simp]
theorem registered_wrapIn (s : Store ρ) (t : TreeId) (fields : Fields Value) (q : ObjectId) :
    (s.wrapIn t fields).2.registered (.ofObject q) = s.registered (.ofObject q) := by
  by_cases ht : s.HasTree t
  · simp only [registered, object?_wrapIn ht]
    by_cases h : q = (s.wrapIn t fields).1
    · rw [if_pos h, h, object?_wrapIn_fst]
    · rw [if_neg h]
  · simp only [registered, object?_wrapIn_of_not_hasTree ht]

@[simp]
theorem registered_resolve (s : Store ρ) (o : ObjectId) (key : String) (q : ObjectId) :
    (s.resolve o key).2.registered (.ofObject q) = s.registered (.ofObject q) := by
  rcases resolve_cases s o key with h | ⟨fields, -, h⟩
  · rw [h]
  · rw [h, registered_setSlot, registered_wrapIn]

theorem registered_register (s : Store ρ) (o : ObjectId) (w : WatcherId) (q : ObjectId) :
    (s.register (.ofObject o) w).registered (.ofObject q) =
      if o = q ∧ (s.object? q).isSome then s.registered (.ofObject q) ++ [w]
      else s.registered (.ofObject q) := by
  simp only [registered, object?_register]
  cases hq : s.object? q with
  | none => simp
  | some x =>
    by_cases h : o = q
    · simp [h]
    · simp [h]

/-! ## 2. A collection that succeeds -/

/-- The store `s'` is `s` with the new watcher `w` on a property of `o`. -/
structure Watched (s : Store ρ) (o : ObjectId) (key : String) (reaction : ρ) (w : WatcherId)
    (s' : Store ρ) : Prop extends SameData s s' where
  fresh : s.watcher? w = none
  made : s.HasTree o.tree →
    s'.watcher? w = some ⟨(s.tree o.tree).issued + 1, o, key, reaction, s.field o key⟩
  only : ∀ {x y}, s'.watcher? x = some y → s.watcher? x = some y ∨
    x = w ∧ y = ⟨(s.tree o.tree).issued + 1, o, key, reaction, s.field o key⟩
  registered : ∀ q, s'.registered (.ofObject q) =
    if o = q ∧ (s.object? q).isSome then s.registered (.ofObject q) ++ [w]
    else s.registered (.ofObject q)
  active : ∀ t, s'.active t = s.active t
  reads : s'.field o key = s.field o key

-- The part of `s` that reads see.
theorem resolve_congr {s s' : Store ρ} {o : ObjectId}
    (h : (s'.tree o.tree).objects = (s.tree o.tree).objects) (key : String) :
    s'.field o key = s.field o key := by
  have hslot : s'.slot? o key = s.slot? o key := by rw [slot?, slot?, object?, object?, h]
  by_cases hobject : ∃ fields, s.slot? o key = some (.plain (.object fields))
  · obtain ⟨fields, hs⟩ := hobject
    rw [field_of_object hs, field_of_object (hslot.trans hs)]
    simp [wrapIn, h]
  · exact field_congr hslot (not_exists.1 hobject)

theorem watch_of_active {s : Store ρ} {o : ObjectId} {a : WatcherId}
    (h : s.active o.tree = some a) (key : String) (reaction : ρ) :
    s.watch o key reaction =
      (.error (.collecting (s.number a) ((s.tree o.tree).issued + 1)), (s.issue o.tree).2) := by
  have ha : (s.issue o.tree).2.active o.tree = some a := by rw [active_issue, h]
  have hn : (s.issue o.tree).2.number a = s.number a := by simp [number]
  simp only [watch, ha, hn]
  rfl

/-- The new watcher, and the store in which it is about to read its property. -/
def startWatch (s : Store ρ) (o : ObjectId) (key : String) (reaction : ρ) :
    WatcherId × Store ρ :=
  let made := (s.issue o.tree).2.addWatcher o.tree
    ⟨(s.tree o.tree).issued + 1, o, key, reaction, .absent⟩
  (made.1, made.2.occupy o.tree made.1)

theorem watch_eq_startWatch {s : Store ρ} {o : ObjectId} (h : s.active o.tree = none)
    (key : String) (reaction : ρ) :
    s.watch o key reaction =
      (.ok (s.startWatch o key reaction).1,
        (((s.startWatch o key reaction).2.get o key).2.vacate o.tree).modifyWatcher
          (s.startWatch o key reaction).1
          fun x => { x with baseline := (s.startWatch o key reaction).2.field o key }) := by
  have hnumber : (s.issue o.tree).1 = (s.tree o.tree).issued + 1 := rfl
  have hactive := (active_issue s o.tree o.tree).trans h
  rw [startWatch, ← hnumber]
  rcases hissue : s.issue o.tree with ⟨number, s₁⟩
  rw [hissue] at hactive
  rcases hadd : s₁.addWatcher o.tree ⟨number, o, key, reaction, .absent⟩ with ⟨w, s₂⟩
  rw [← get_fst]
  rcases hget : (s₂.occupy o.tree w).get o key with ⟨field, s₃⟩
  simp only [watch, hissue, hactive, hadd, hget]

theorem object?_startWatch (s : Store ρ) (o : ObjectId) (key : String) (reaction : ρ)
    (q : ObjectId) : (s.startWatch o key reaction).2.object? q = s.object? q := by
  rw [startWatch, object?_occupy, object?_addWatcher, object?_issue]

theorem field_startWatch (s : Store ρ) (o : ObjectId) (key : String) (reaction : ρ) :
    (s.startWatch o key reaction).2.field o key = s.field o key := by
  apply resolve_congr
  simp only [startWatch, occupy, addWatcher, issue]
  rw [modifyTree_congr _ _ _ _ Tree.objects rfl, modifyTree_congr _ _ _ _ Tree.objects rfl,
    modifyTree_congr _ _ _ _ Tree.objects rfl]

theorem sameData_startWatch (s : Store ρ) (o : ObjectId) (key : String) (reaction : ρ) :
    s.SameData (s.startWatch o key reaction).2 :=
  ((SameData.of_eq (object?_issue s o.tree) (watcher?_issue s o.tree)).trans
    (sameData_addWatcher _ _ _)).trans (sameData_occupy _ _ _)

theorem watcher?_startWatch_fst (s : Store ρ) (o : ObjectId) (key : String) (reaction : ρ) :
    s.watcher? (s.startWatch o key reaction).1 = none := by
  have h := watcher?_addWatcher_fst (s.issue o.tree).2 o.tree
    ⟨(s.tree o.tree).issued + 1, o, key, reaction, .absent⟩
  rwa [watcher?_issue] at h

theorem watcher?_startWatch (s : Store ρ) (o : ObjectId) (key : String) (reaction : ρ)
    (w : WatcherId) :
    (s.HasTree o.tree → (s.startWatch o key reaction).2.watcher? w =
      if w = (s.startWatch o key reaction).1
      then some ⟨(s.tree o.tree).issued + 1, o, key, reaction, .absent⟩ else s.watcher? w) ∧
    (¬ s.HasTree o.tree → (s.startWatch o key reaction).2.watcher? w = s.watcher? w) := by
  have htree : (s.issue o.tree).2.HasTree o.tree ↔ s.HasTree o.tree := hasTree_modifyTree s _ _ _
  rw [startWatch, watcher?_occupy]
  refine ⟨fun ht => ?_, fun ht => ?_⟩
  · rw [watcher?_addWatcher (htree.2 ht), watcher?_issue]
  · rw [watcher?_addWatcher_of_not_hasTree (fun h => ht (htree.1 h)), watcher?_issue]

theorem active_startWatch (s : Store ρ) (o : ObjectId) (key : String) (reaction : ρ) (t : TreeId) :
    (s.HasTree o.tree → (s.startWatch o key reaction).2.active t =
      if o.tree = t then some (s.startWatch o key reaction).1 else s.active t) ∧
    (¬ s.HasTree o.tree → (s.startWatch o key reaction).2.active t = s.active t) := by
  have htree : ((s.issue o.tree).2.addWatcher o.tree
      ⟨(s.tree o.tree).issued + 1, o, key, reaction, .absent⟩).2.HasTree o.tree ↔
        s.HasTree o.tree :=
    (hasTree_modifyTree _ _ _ _).trans (hasTree_modifyTree s _ _ _)
  rw [startWatch]
  refine ⟨fun ht => ?_, fun ht => ?_⟩
  · rw [active_occupy (htree.2 ht), active_addWatcher, active_issue]
  · show Tree.active (Store.tree _ t) = _
    rw [occupy, modifyTree_of_not_hasTree (fun h => ht (htree.1 h))]
    exact (active_addWatcher _ _ _ t).trans (active_issue s _ t)

-- A read registers the collecting watcher with the object that is read, and with no other.
theorem registered_get (s : Store ρ) (o : ObjectId) (key : String) (q : ObjectId) :
    (s.get o key).2.registered (.ofObject q) =
      if o = q ∧ (s.object? q).isSome
      then s.registered (.ofObject q) ++ (s.active o.tree).toList
      else s.registered (.ofObject q) := by
  show ((s.resolve o key).2.collectAt o).registered (.ofObject q) = _
  rw [collectAt, active_resolve]
  cases h : s.active o.tree with
  | none => simp
  | some w =>
    rw [registered_register, registered_resolve]
    by_cases hoq : o = q
    · subst hoq
      have hsome : ((s.resolve o key).2.object? o).isSome = (s.object? o).isSome := by
        by_cases ho : (s.object? o).isSome
        · rw [ho, (sameData_resolve s o key).object?_isSome ho]
        · have hnone : s.slot? o key = none := by
            rw [slot?, Option.not_isSome_iff_eq_none.1 ho]
            rfl
          rw [resolve_of_none hnone]
      rw [hsome]
      rfl
    · rw [if_neg (fun h => hoq h.1), if_neg (fun h => hoq h.1)]

theorem watch_of_active_eq_none {s : Store ρ} {o : ObjectId} (h : s.active o.tree = none)
    (key : String) (reaction : ρ) :
    ∃ w s', s.watch o key reaction = (.ok w, s') ∧ s.Watched o key reaction w s' := by
  have hfresh := watcher?_startWatch_fst s o key reaction
  have hobject := object?_startWatch s o key reaction
  have hfield := field_startWatch s o key reaction
  have hdata := sameData_startWatch s o key reaction
  have hwatcher := watcher?_startWatch s o key reaction
  have hactive := active_startWatch s o key reaction
  have hagain := (field_get (s.startWatch o key reaction).2 o key).trans hfield
  rw [watch_eq_startWatch h, hfield]
  -- from here on only these facts about the start matter
  generalize s.startWatch o key reaction = start at hfresh hobject hdata hwatcher hactive hagain ⊢
  obtain ⟨w, s₁⟩ := start
  refine ⟨w, _, rfl, ?_, hfresh, fun ht => ?_, fun {x y} hx => ?_, fun q => ?_, fun t => ?_, ?_⟩
  · exact SameData.modifyWatcher
      ((hdata.trans (sameData_get s₁ o key)).trans (sameData_vacate _ _)) hfresh _
  · rw [watcher?_modifyWatcher, if_pos rfl, watcher?_vacate, watcher?_get, (hwatcher w).1 ht,
      if_pos rfl]
    rfl
  · rw [watcher?_modifyWatcher, watcher?_vacate, watcher?_get] at hx
    by_cases hxw : w = x
    · subst hxw
      by_cases ht : s.HasTree o.tree
      · rw [if_pos rfl, (hwatcher w).1 ht, if_pos rfl] at hx
        exact .inr ⟨rfl, (Option.some.inj hx).symm⟩
      · rw [if_pos rfl, (hwatcher w).2 ht, hfresh] at hx
        cases hx
    · rw [if_neg hxw] at hx
      by_cases ht : s.HasTree o.tree
      · rw [(hwatcher x).1 ht, if_neg (fun h => hxw h.symm)] at hx
        exact .inl hx
      · rw [(hwatcher x).2 ht] at hx
        exact .inl hx
  · rw [registered_congr ((object?_modifyWatcher _ _ _ q).trans (object?_vacate _ _ q)),
      registered_get, hobject, registered_congr (hobject q)]
    by_cases ht : s.HasTree o.tree
    · rw [(hactive o.tree).1 ht, if_pos rfl]
      rfl
    · have hno : ¬ (o = q ∧ (s.object? q).isSome = true) := by
        rintro ⟨rfl, ho⟩
        exact ht (hasTree_of_object? ho)
      rw [if_neg hno]
      exact (if_neg hno).symm
  · rw [active_modifyWatcher, active_vacate, active_get]
    by_cases hot : o.tree = t
    · rw [if_pos hot, ← hot, h]
    · rw [if_neg hot]
      by_cases ht : s.HasTree o.tree
      · rw [(hactive t).1 ht, if_neg hot]
      · rw [(hactive t).2 ht]
  · refine (resolve_congr ?_ key).trans hagain
    simp only [modifyWatcher, vacate]
    rw [modifyTree_congr _ _ _ _ Tree.objects rfl, modifyTree_congr _ _ _ _ Tree.objects rfl]

theorem isSome_watcher?_iff (s : Store ρ) (w : WatcherId) :
    (s.watcher? w).isSome ↔ w.index < (s.tree w.tree).watchers.size :=
  Arena.get?_isSome_iff _ _

-- The same watchers are found, and so there are as many of them.
theorem size_watchers_congr {s s' : Store ρ} (h : ∀ w, s'.watcher? w = s.watcher? w) (t : TreeId) :
    (s'.tree t).watchers.size = (s.tree t).watchers.size := by
  have hlt : ∀ i, i < (s'.tree t).watchers.size ↔ i < (s.tree t).watchers.size := fun i => by
    rw [← isSome_watcher?_iff s' ⟨t, i⟩, ← isSome_watcher?_iff s ⟨t, i⟩, h]
  have h₁ := hlt (s.tree t).watchers.size
  have h₂ := hlt (s'.tree t).watchers.size
  omega

-- The new watcher is the next one of its tree.
theorem eq_of_watch {s s' : Store ρ} {o : ObjectId} {key : String} {reaction : ρ} {w : WatcherId}
    (h : s.active o.tree = none) (hrun : s.watch o key reaction = (.ok w, s')) :
    w = ⟨o.tree, (s.tree o.tree).watchers.size⟩ := by
  have hstart := watch_eq_startWatch h key reaction
  rw [hrun] at hstart
  have hw : w = (s.startWatch o key reaction).1 := Except.ok.inj (congrArg Prod.fst hstart)
  have hsize := size_watchers_congr (watcher?_issue s o.tree) o.tree
  rw [hw, ← hsize]
  rfl

-- A watcher has not been made of an observable whose tree is not there.
theorem hasTree_of_watch {s s' : Store ρ} {o : ObjectId} {key : String} {reaction : ρ}
    {w : WatcherId} {x : Watcher ρ} (h : s.active o.tree = none)
    (hrun : s.watch o key reaction = (.ok w, s')) (hx : s'.watcher? w = some x) :
    s.HasTree o.tree := by
  apply Classical.byContradiction
  intro ht
  have hstart := watch_eq_startWatch h key reaction
  rw [hrun] at hstart
  have hw : w = (s.startWatch o key reaction).1 := Except.ok.inj (congrArg Prod.fst hstart)
  have hs := congrArg Prod.snd hstart
  dsimp only at hs
  rw [hs, watcher?_modifyWatcher, if_pos hw.symm, watcher?_vacate, watcher?_get,
    (watcher?_startWatch s o key reaction w).2 ht, hw, watcher?_startWatch_fst] at hx
  cases hx

/-- **Creating a watcher writes no data**, whether it succeeds or not. -/
theorem sameData_watch (s : Store ρ) (o : ObjectId) (key : String) (reaction : ρ) :
    s.SameData (s.watch o key reaction).2 := by
  cases h : s.active o.tree with
  | some a =>
    rw [watch_of_active h]
    exact SameData.of_eq (object?_issue s o.tree) (watcher?_issue s o.tree)
  | none =>
    obtain ⟨w, s', hrun, hw⟩ := watch_of_active_eq_none h key reaction
    rw [hrun]
    exact hw.toSameData

theorem active_watch (s : Store ρ) (o : ObjectId) (key : String) (reaction : ρ) (t : TreeId) :
    (s.watch o key reaction).2.active t = s.active t := by
  cases ha : s.active o.tree with
  | some a =>
    rw [watch_of_active ha]
    exact active_issue s o.tree t
  | none =>
    obtain ⟨w, s', hrun, hw⟩ := watch_of_active_eq_none ha key reaction
    rw [hrun]
    exact hw.active t

-- A watcher that is found behind an attempt to create one is an old one, or the one created; its
-- baseline is then the field that the attempt read.
theorem watcher?_watch {s : Store ρ} {o : ObjectId} {key : String} {reaction : ρ} {w : WatcherId}
    {x : Watcher ρ} (hx : (s.watch o key reaction).2.watcher? w = some x) :
    s.watcher? w = some x ∨ (s.watch o key reaction).1 = .ok w ∧
      x = ⟨(s.tree o.tree).issued + 1, o, key, reaction, s.field o key⟩ := by
  cases ha : s.active o.tree with
  | some a =>
    rw [watch_of_active ha, watcher?_issue] at hx
    exact .inl hx
  | none =>
    obtain ⟨w', s', hrun, hw⟩ := watch_of_active_eq_none ha key reaction
    rw [hrun] at hx ⊢
    rcases hw.only hx with hx | ⟨rfl, rfl⟩
    · exact .inl hx
    · exact .inr ⟨rfl, rfl⟩

/-! ## 3. Soundness -/

theorem Sound.of_eq {s s' : Store ρ} (h : s.Sound) (ho : ∀ o, s'.object? o = s.object? o)
    (hw : ∀ w, s'.watcher? w = s.watcher? w) : s'.Sound := by
  have hslot : ∀ o key, s'.slot? o key = s.slot? o key := fun o key => by rw [slot?, slot?, ho]
  refine ⟨fun hn => ?_, fun hx => ?_⟩
  · rw [ho]
    exact h.nested ((hslot _ _).symm.trans hn)
  · exact (SameData.of_eq ho hw).known (h.baseline ((hw _).symm.trans hx))

theorem Sound.wrapIn {s : Store ρ} (h : s.Sound) (t : TreeId) (fields : Fields Value) :
    (s.wrapIn t fields).2.Sound := by
  by_cases ht : s.HasTree t
  · refine ⟨fun {o key n} hn => ?_, fun hx => ?_⟩
    · rw [slot?, object?_wrapIn ht] at hn
      split at hn
      · simp [Fields.get?_mapValues] at hn
      · exact (sameData_wrapIn s t fields).object?_isSome (h.nested hn)
    · rw [watcher?_wrapIn] at hx
      exact (sameData_wrapIn s t fields).known (h.baseline hx)
  · exact h.of_eq (object?_wrapIn_of_not_hasTree ht fields) (watcher?_wrapIn s t fields)

theorem Sound.wrap {s : Store ρ} (h : s.Sound) (fields : Fields Value) :
    (s.wrap fields).2.Sound := by
  have htree : s.newTree.2.Sound :=
    h.of_eq (fun o => by simp [object?]) (fun w => by simp [watcher?])
  exact htree.wrapIn s.newTree.1 fields

theorem Sound.setSlot {s : Store ρ} (h : s.Sound) {o : ObjectId} {key : String} {slot : Slot}
    (hslot : ∀ n, slot = .nested n → (s.object? n).isSome) : (s.setSlot o key slot).Sound := by
  have hsome : ∀ n, (s.object? n).isSome → ((s.setSlot o key slot).object? n).isSome := by
    intro n hn
    rw [object?_setSlot]
    split
    · rwa [Option.isSome_map]
    · exact hn
  refine ⟨fun {q l n} hn => ?_, fun {w x} hx => ?_⟩
  · by_cases ho : (s.object? o).isSome
    · rw [slot?_setSlot ho] at hn
      split at hn
      · exact hsome n (hslot n (Option.some.inj hn))
      · exact hsome n (h.nested hn)
    · have hnone := Option.not_isSome_iff_eq_none.1 ho
      have hsame : (s.setSlot o key slot).object? q = s.object? q := by
        rw [object?_setSlot]
        split
        · rename_i hoq
          rw [← hoq, hnone]
          rfl
        · rfl
      rw [slot?, hsame] at hn
      exact hsome n (h.nested hn)
  · rw [watcher?_setSlot] at hx
    have hb := h.baseline hx
    cases hbx : x.baseline with
    | value v => trivial
    | proxy n =>
      rw [hbx] at hb
      exact hsome n hb

theorem Sound.write {s : Store ρ} (h : s.Sound) (o : ObjectId) (key : String) (v : Value) :
    (s.write o key v).Sound :=
  h.setSlot fun _ hn => nomatch hn

theorem Sound.resolve {s : Store ρ} (h : s.Sound) (o : ObjectId) (key : String) :
    (s.resolve o key).2.Sound := by
  rcases resolve_cases s o key with hsame | ⟨fields, hs, hwrapped⟩
  · rwa [hsame]
  · rw [hwrapped]
    apply (h.wrapIn o.tree fields).setSlot
    intro n hn
    cases hn
    rw [object?_wrapIn (hasTree_of_object? (object?_isSome_of_slot? hs)), if_pos rfl]
    rfl

theorem Sound.register {s : Store ρ} (h : s.Sound) (r : RegistryId) (w : WatcherId) :
    (s.register r w).Sound := by
  have hd := sameData_register s r w
  refine ⟨fun {o key n} hn => ?_, fun hx => ?_⟩
  · rw [slot?_register] at hn
    exact hd.object?_isSome (h.nested hn)
  · rw [watcher?_register] at hx
    exact hd.known (h.baseline hx)

theorem Sound.get {s : Store ρ} (h : s.Sound) (o : ObjectId) (key : String) :
    (s.get o key).2.Sound := by
  show ((s.resolve o key).2.collectAt o).Sound
  rw [collectAt]
  split
  · exact (h.resolve o key).register _ _
  · exact h.resolve o key

theorem Sound.getTexts {s : Store ρ} (h : s.Sound) (o : ObjectId) (keys : List String) :
    (s.getTexts o keys).2.Sound := by
  induction keys generalizing s with
  | nil => exact h
  | cons key keys ih => exact ih (h.get o key)

-- The field that a read gives is known after it.
theorem Sound.known_field {s : Store ρ} (h : s.Sound) (o : ObjectId) (key : String) :
    (s.resolve o key).2.Known (s.field o key) := by
  rcases slot?_cases s o key with hs | ⟨n, hs⟩ | ⟨v, hs, hv⟩ | ⟨fields, hs⟩
  · rw [field_of_none hs]
    trivial
  · rw [field_of_nested hs, resolve_of_nested hs]
    exact h.nested hs
  · rw [field_of_plain hs hv]
    trivial
  · rw [field_of_object hs, resolve_of_object hs]
    show ((Store.setSlot _ o key _).object? _).isSome
    have ho := object?_isSome_of_slot? hs
    rw [object?_setSlot, if_neg (wrapIn_fst_ne ho o.tree fields),
      object?_wrapIn (hasTree_of_object? ho), if_pos rfl]
    rfl

theorem Sound.known_get {s : Store ρ} (h : s.Sound) (o : ObjectId) (key : String) :
    (s.get o key).2.Known (s.field o key) :=
  (sameData_collectAt _ o).known (h.known_field o key)

theorem Sound.newRegistry {s : Store ρ} (h : s.Sound) : s.newRegistry.2.Sound :=
  h.of_eq (fun _ => rfl) (fun _ => rfl)

theorem Sound.occupy {s : Store ρ} (h : s.Sound) (t : TreeId) (w : WatcherId) :
    (s.occupy t w).Sound :=
  h.of_eq (object?_occupy s t w) (watcher?_occupy s t w)

theorem Sound.vacate {s : Store ρ} (h : s.Sound) (t : TreeId) : (s.vacate t).Sound :=
  h.of_eq (object?_vacate s t) (watcher?_vacate s t)

theorem Sound.addWatcher {s : Store ρ} (h : s.Sound) (t : TreeId) {x : Watcher ρ}
    (hx : s.Known x.baseline) : (s.addWatcher t x).2.Sound := by
  have hd := sameData_addWatcher s t x
  refine ⟨fun {o key n} hn => ?_, fun {w y} hy => ?_⟩
  · rw [slot?, object?_addWatcher] at hn
    exact hd.object?_isSome (h.nested hn)
  · by_cases ht : s.HasTree t
    · rw [watcher?_addWatcher ht] at hy
      split at hy
      · cases hy
        exact hd.known hx
      · exact hd.known (h.baseline hy)
    · rw [watcher?_addWatcher_of_not_hasTree ht] at hy
      exact hd.known (h.baseline hy)

theorem Sound.modifyWatcher {s : Store ρ} (h : s.Sound) (w : WatcherId)
    {f : Watcher ρ → Watcher ρ} (hf : ∀ x, s.Known x.baseline → s.Known (f x).baseline) :
    (s.modifyWatcher w f).Sound := by
  have hknown : ∀ b, s.Known b → (s.modifyWatcher w f).Known b := by
    intro b hb
    cases b with
    | value v => trivial
    | proxy n =>
      rw [Known, object?_modifyWatcher]
      exact hb
  refine ⟨fun {o key n} hn => ?_, fun {x y} hy => ?_⟩
  · rw [slot?, object?_modifyWatcher] at hn
    rw [object?_modifyWatcher]
    exact h.nested hn
  · rw [watcher?_modifyWatcher] at hy
    split at hy
    · obtain ⟨z, hz, rfl⟩ := Option.map_eq_some_iff.1 hy
      exact hknown _ (hf z (h.baseline hz))
    · exact hknown _ (h.baseline hy)

-- A new watcher keeps a field that is known.
theorem Sound.watch {s : Store ρ} (h : s.Sound) (o : ObjectId) (key : String) (reaction : ρ) :
    (s.watch o key reaction).2.Sound := by
  have hissue : (s.issue o.tree).2.Sound := h.of_eq (object?_issue s _) (watcher?_issue s _)
  cases ha : s.active o.tree with
  | some a =>
    rw [watch_of_active ha]
    exact hissue
  | none =>
    have habsent : (s.issue o.tree).2.Known .absent := trivial
    have hstart : (s.startWatch o key reaction).2.Sound :=
      (hissue.addWatcher o.tree
        (x := ⟨(s.tree o.tree).issued + 1, o, key, reaction, .absent⟩) habsent).occupy o.tree _
    rw [watch_eq_startWatch ha]
    generalize s.startWatch o key reaction = start at hstart ⊢
    have hknown := (sameData_vacate _ o.tree).known (hstart.known_get o key)
    exact ((hstart.get o key).vacate o.tree).modifyWatcher start.1 fun _ _ => hknown

end Store

end ReactiveView
