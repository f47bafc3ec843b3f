import ReactiveView.Store.Collection

/-!
# Look-ups in a changed store

What each operation of a store does to the observables, the watchers and the collecting watchers
that a look-up finds.  Later proofs cite these equations and do not open the operations.
-/

namespace ReactiveView

namespace Store

variable {ρ : Type}

/-! ## 1. Views of a store -/

/-- What a property holds, if it is there. -/
def slot? (s : Store ρ) (o : ObjectId) (key : String) : Option Slot :=
  (s.object? o).bind fun object => Fields.get? object.slots key

/-- The field that a read would give now. -/
def field (s : Store ρ) (o : ObjectId) (key : String) : Field := (s.resolve o key).1

/-- Whether a data tree is there. -/
def HasTree (s : Store ρ) (t : TreeId) : Prop := (s.trees.get? t.index).isSome = true

/-! ## 2. Changes of one tree -/

theorem tree_modifyTree (s : Store ρ) (t : TreeId) (f : Tree ρ → Tree ρ) (u : TreeId)
    (h : t = u → s.HasTree u) :
    (s.modifyTree t f).tree u = if t = u then f (s.tree u) else s.tree u := by
  obtain ⟨i⟩ := t
  obtain ⟨j⟩ := u
  simp only [tree, modifyTree, Arena.get?_modify, TreeId.mk.injEq]
  by_cases hij : i = j
  · subst hij
    have hs : (s.trees.get? i).isSome = true := h rfl
    obtain ⟨x, hx⟩ := Option.isSome_iff_exists.1 hs
    simp [hx]
  · simp [hij]

theorem modifyTree_of_not_hasTree {s : Store ρ} {t : TreeId} (h : ¬ s.HasTree t)
    (f : Tree ρ → Tree ρ) (u : TreeId) : (s.modifyTree t f).tree u = s.tree u := by
  have hnone : s.trees.get? t.index = none := by simpa [HasTree] using h
  simp only [tree, modifyTree, Arena.get?_modify]
  by_cases htu : t.index = u.index
  · rw [if_pos htu, ← htu, hnone]
    rfl
  · rw [if_neg htu]

-- A part of the trees that a change leaves alone is the same after it.
theorem modifyTree_congr {α : Type} (s : Store ρ) (t : TreeId) (f : Tree ρ → Tree ρ) (u : TreeId)
    (part : Tree ρ → α) (h : part (f (s.tree u)) = part (s.tree u)) :
    part ((s.modifyTree t f).tree u) = part (s.tree u) := by
  by_cases ht : s.HasTree t
  · rw [tree_modifyTree s t f u (fun e => e ▸ ht)]
    split
    · exact h
    · rfl
  · rw [modifyTree_of_not_hasTree ht]

@[simp]
theorem hasTree_modifyTree (s : Store ρ) (t u : TreeId) (f : Tree ρ → Tree ρ) :
    (s.modifyTree t f).HasTree u ↔ s.HasTree u := by
  simp only [HasTree, modifyTree, Arena.get?_modify]
  split <;> simp

-- A tree that is not there is empty.
theorem tree_of_not_hasTree {s : Store ρ} {t : TreeId} (h : ¬ s.HasTree t) : s.tree t = {} := by
  have hnone : s.trees.get? t.index = none := by simpa [HasTree] using h
  rw [tree, hnone]
  rfl

theorem object?_of_not_hasTree {s : Store ρ} {o : ObjectId} (h : ¬ s.HasTree o.tree) :
    s.object? o = none := by
  rw [object?, tree_of_not_hasTree h]
  rfl

theorem hasTree_of_object? {s : Store ρ} {o : ObjectId} (h : (s.object? o).isSome) :
    s.HasTree o.tree := by
  apply Classical.byContradiction
  intro hn
  rw [object?_of_not_hasTree hn] at h
  cases h

theorem hasTree_of_watcher? {s : Store ρ} {w : WatcherId} (h : (s.watcher? w).isSome) :
    s.HasTree w.tree := by
  apply Classical.byContradiction
  intro hn
  rw [watcher?, tree_of_not_hasTree hn] at h
  cases h

-- Somebody collects only in a tree that is there.
theorem exists_active_iff {s : Store ρ} {w : WatcherId} :
    (∃ tree ∈ s.trees.toList, tree.active = some w) ↔ ∃ t, s.active t = some w := by
  constructor
  · rintro ⟨tree, htree, hw⟩
    obtain ⟨i, hi⟩ := Arena.mem_toList_iff.1 htree
    exact ⟨⟨i⟩, by rw [active, Store.tree, hi]; exact hw⟩
  · rintro ⟨t, hw⟩
    have htree : s.HasTree t := by
      apply Classical.byContradiction
      intro hn
      rw [active, tree_of_not_hasTree hn] at hw
      cases hw
    obtain ⟨tree, hi⟩ := Option.isSome_iff_exists.1 htree
    rw [active, Store.tree, hi] at hw
    exact ⟨tree, Arena.mem_toList_iff.2 ⟨_, hi⟩, hw⟩

/-! ## 3. Changes of one observable -/

theorem object?_modifyObject (s : Store ρ) (o : ObjectId) (f : Object → Object) (q : ObjectId) :
    (s.modifyObject o f).object? q = if o = q then (s.object? q).map f else s.object? q := by
  obtain ⟨t, i⟩ := o
  obtain ⟨u, j⟩ := q
  by_cases ht : s.HasTree t
  · simp only [object?, modifyObject, ObjectId.mk.injEq]
    rw [tree_modifyTree s t _ u (fun e => e ▸ ht)]
    by_cases htu : t = u
    · simp [htu, Arena.get?_modify]
    · simp [htu]
  · have hnone : s.object? ⟨t, i⟩ = none := object?_of_not_hasTree ht
    have hsame : (s.modifyObject ⟨t, i⟩ f).object? ⟨u, j⟩ = s.object? ⟨u, j⟩ := by
      simp only [object?, modifyObject, modifyTree_of_not_hasTree ht]
    rw [hsame]
    split
    · rename_i h
      rw [← h, hnone]
      rfl
    · rfl

@[simp]
theorem watcher?_modifyObject (s : Store ρ) (o : ObjectId) (f : Object → Object) (w : WatcherId) :
    (s.modifyObject o f).watcher? w = s.watcher? w := by
  simp only [watcher?, modifyObject]
  rw [modifyTree_congr s o.tree _ w.tree Tree.watchers rfl]

@[simp]
theorem active_modifyObject (s : Store ρ) (o : ObjectId) (f : Object → Object) (t : TreeId) :
    (s.modifyObject o f).active t = s.active t := by
  simp only [active, modifyObject]
  rw [modifyTree_congr s o.tree _ t Tree.active rfl]

theorem object?_setSlot (s : Store ρ) (o : ObjectId) (key : String) (slot : Slot) (q : ObjectId) :
    (s.setSlot o key slot).object? q =
      if o = q then (s.object? q).map fun x => { x with slots := x.slots.insert key slot }
      else s.object? q :=
  object?_modifyObject s o _ q

theorem slot?_setSlot {s : Store ρ} {o : ObjectId} (h : (s.object? o).isSome) (key : String)
    (slot : Slot) (q : ObjectId) (l : String) :
    (s.setSlot o key slot).slot? q l = if o = q ∧ key = l then some slot else s.slot? q l := by
  obtain ⟨x, hx⟩ := Option.isSome_iff_exists.1 h
  simp only [slot?, object?_setSlot]
  by_cases hq : o = q
  · subst hq
    simp only [hx, if_true, Option.map_some, Option.bind_some, true_and, Fields.get?_insert]
  · simp [hq]

@[simp]
theorem watcher?_setSlot (s : Store ρ) (o : ObjectId) (key : String) (slot : Slot) (w : WatcherId) :
    (s.setSlot o key slot).watcher? w = s.watcher? w :=
  watcher?_modifyObject s o _ w

@[simp]
theorem watcher?_write (s : Store ρ) (o : ObjectId) (key : String) (v : Value) (w : WatcherId) :
    (s.write o key v).watcher? w = s.watcher? w :=
  watcher?_modifyObject s o _ w

@[simp]
theorem active_write (s : Store ρ) (o : ObjectId) (key : String) (v : Value) (t : TreeId) :
    (s.write o key v).active t = s.active t :=
  active_modifyObject s o _ t

theorem slot?_write {s : Store ρ} {o : ObjectId} (h : (s.object? o).isSome) (key : String)
    (v : Value) (q : ObjectId) (l : String) :
    (s.write o key v).slot? q l = if o = q ∧ key = l then some (.plain v) else s.slot? q l :=
  slot?_setSlot h key (.plain v) q l

theorem object?_register (s : Store ρ) (o : ObjectId) (w : WatcherId) (q : ObjectId) :
    (s.register (.ofObject o) w).object? q =
      if o = q then (s.object? q).map fun x => { x with registered := x.registered ++ [w] }
      else s.object? q :=
  object?_modifyObject s o _ q

-- A registration changes no slot.
@[simp]
theorem slot?_register (s : Store ρ) (r : RegistryId) (w : WatcherId) (q : ObjectId) (l : String) :
    (s.register r w).slot? q l = s.slot? q l := by
  cases r with
  | free i => rfl
  | ofObject o =>
    simp only [slot?, object?_register]
    split
    · cases s.object? q <;> rfl
    · rfl

@[simp]
theorem watcher?_register (s : Store ρ) (r : RegistryId) (w x : WatcherId) :
    (s.register r w).watcher? x = s.watcher? x := by
  cases r with
  | free i => rfl
  | ofObject o => exact watcher?_modifyObject s o _ x

@[simp]
theorem active_register (s : Store ρ) (r : RegistryId) (w : WatcherId) (t : TreeId) :
    (s.register r w).active t = s.active t := by
  cases r with
  | free i => rfl
  | ofObject o => exact active_modifyObject s o _ t

/-! ## 4. New observables -/

-- The place of the next observable of a tree is free.
theorem object?_wrapIn_fst (s : Store ρ) (t : TreeId) (fields : Fields Value) :
    s.object? (s.wrapIn t fields).1 = none := by
  simp [object?, wrapIn, Arena.get?_eq_none_iff]

theorem object?_wrapIn {s : Store ρ} {t : TreeId} (h : s.HasTree t) (fields : Fields Value)
    (q : ObjectId) :
    (s.wrapIn t fields).2.object? q =
      if q = (s.wrapIn t fields).1 then some { slots := Fields.mapValues .plain fields }
      else s.object? q := by
  obtain ⟨u, j⟩ := q
  simp only [object?, wrapIn, ObjectId.mk.injEq]
  rw [tree_modifyTree s t _ u (fun e => e ▸ h)]
  by_cases htu : t = u
  · subst htu
    simp only [if_true, Arena.get?_push, true_and]
  · have hut : ¬ u = t := fun e => htu e.symm
    simp [htu, hut]

theorem object?_wrapIn_of_not_hasTree {s : Store ρ} {t : TreeId} (h : ¬ s.HasTree t)
    (fields : Fields Value) (q : ObjectId) :
    (s.wrapIn t fields).2.object? q = s.object? q := by
  simp only [object?, wrapIn, modifyTree_of_not_hasTree h]

@[simp]
theorem watcher?_wrapIn (s : Store ρ) (t : TreeId) (fields : Fields Value) (w : WatcherId) :
    (s.wrapIn t fields).2.watcher? w = s.watcher? w := by
  simp only [watcher?, wrapIn]
  rw [modifyTree_congr s t _ w.tree Tree.watchers rfl]

@[simp]
theorem active_wrapIn (s : Store ρ) (t : TreeId) (fields : Fields Value) (u : TreeId) :
    (s.wrapIn t fields).2.active u = s.active u := by
  simp only [active, wrapIn]
  rw [modifyTree_congr s t _ u Tree.active rfl]

-- A new tree is empty, and so is one that is not there.
@[simp]
theorem tree_newTree (s : Store ρ) (u : TreeId) : s.newTree.2.tree u = s.tree u := by
  simp only [tree, newTree, Arena.get?_push]
  split
  · rename_i h
    have hnone : s.trees.get? u.index = none := (Arena.get?_eq_none_iff _ _).2 (by omega)
    simp [hnone]
  · rfl

theorem hasTree_newTree (s : Store ρ) : s.newTree.2.HasTree s.newTree.1 := by
  simp [HasTree, newTree, Arena.get?_push]

theorem object?_wrap (s : Store ρ) (fields : Fields Value) (q : ObjectId) :
    (s.wrap fields).2.object? q =
      if q = (s.wrap fields).1 then some { slots := Fields.mapValues .plain fields }
      else s.object? q := by
  have h := object?_wrapIn (hasTree_newTree s) fields q
  simp only [object?, tree_newTree] at h ⊢
  exact h

theorem object?_wrap_fst (s : Store ρ) (fields : Fields Value) :
    s.object? (s.wrap fields).1 = none := by
  have h := object?_wrapIn_fst s.newTree.2 s.newTree.1 fields
  simp only [object?, tree_newTree] at h ⊢
  exact h

@[simp]
theorem watcher?_wrap (s : Store ρ) (fields : Fields Value) (w : WatcherId) :
    (s.wrap fields).2.watcher? w = s.watcher? w := by
  have h := watcher?_wrapIn s.newTree.2 s.newTree.1 fields w
  simp only [watcher?, tree_newTree] at h ⊢
  exact h

@[simp]
theorem active_wrap (s : Store ρ) (fields : Fields Value) (u : TreeId) :
    (s.wrap fields).2.active u = s.active u := by
  have h := active_wrapIn s.newTree.2 s.newTree.1 fields u
  simp only [active, tree_newTree] at h ⊢
  exact h

/-! ## 5. The parts of a collection -/

theorem begin_eq_ok {s s' : Store ρ} {t : TreeId} {w : WatcherId} (h : s.begin t w = .ok s') :
    s.active t = none ∧ s' = s.occupy t w := by
  unfold begin at h
  split at h
  · cases h
  · rename_i hactive
    cases h
    exact ⟨hactive, rfl⟩

@[simp]
theorem object?_occupy (s : Store ρ) (t : TreeId) (w : WatcherId) (o : ObjectId) :
    (s.occupy t w).object? o = s.object? o := by
  simp only [object?, occupy]
  rw [modifyTree_congr s t _ o.tree Tree.objects rfl]

@[simp]
theorem watcher?_occupy (s : Store ρ) (t : TreeId) (w x : WatcherId) :
    (s.occupy t w).watcher? x = s.watcher? x := by
  simp only [watcher?, occupy]
  rw [modifyTree_congr s t _ x.tree Tree.watchers rfl]

theorem active_occupy {s : Store ρ} {t : TreeId} (h : s.HasTree t) (w : WatcherId) (u : TreeId) :
    (s.occupy t w).active u = if t = u then some w else s.active u := by
  simp only [active, occupy]
  rw [tree_modifyTree s t _ u (fun e => e ▸ h)]
  split <;> rfl

theorem active_occupy_of_ne (s : Store ρ) {t u : TreeId} (h : t ≠ u) (w : WatcherId) :
    (s.occupy t w).active u = s.active u := by
  by_cases ht : s.HasTree t
  · rw [active_occupy ht, if_neg h]
  · simp only [active, occupy, modifyTree_of_not_hasTree ht]

@[simp]
theorem object?_vacate (s : Store ρ) (t : TreeId) (o : ObjectId) :
    (s.vacate t).object? o = s.object? o := by
  simp only [object?, vacate]
  rw [modifyTree_congr s t _ o.tree Tree.objects rfl]

@[simp]
theorem watcher?_vacate (s : Store ρ) (t : TreeId) (x : WatcherId) :
    (s.vacate t).watcher? x = s.watcher? x := by
  simp only [watcher?, vacate]
  rw [modifyTree_congr s t _ x.tree Tree.watchers rfl]

theorem active_vacate (s : Store ρ) (t u : TreeId) :
    (s.vacate t).active u = if t = u then none else s.active u := by
  simp only [active, vacate]
  by_cases h : s.HasTree t
  · rw [tree_modifyTree s t _ u (fun e => e ▸ h)]
    split <;> rfl
  · rw [modifyTree_of_not_hasTree h]
    split
    · rename_i htu
      rw [← htu, tree_of_not_hasTree h]
    · rfl

@[simp]
theorem object?_issue (s : Store ρ) (t : TreeId) (o : ObjectId) :
    (s.issue t).2.object? o = s.object? o := by
  simp only [object?, issue]
  rw [modifyTree_congr s t _ o.tree Tree.objects rfl]

@[simp]
theorem watcher?_issue (s : Store ρ) (t : TreeId) (x : WatcherId) :
    (s.issue t).2.watcher? x = s.watcher? x := by
  simp only [watcher?, issue]
  rw [modifyTree_congr s t _ x.tree Tree.watchers rfl]

@[simp]
theorem active_issue (s : Store ρ) (t u : TreeId) : (s.issue t).2.active u = s.active u := by
  simp only [active, issue]
  rw [modifyTree_congr s t _ u Tree.active rfl]

@[simp]
theorem object?_addWatcher (s : Store ρ) (t : TreeId) (x : Watcher ρ) (o : ObjectId) :
    (s.addWatcher t x).2.object? o = s.object? o := by
  simp only [object?, addWatcher]
  rw [modifyTree_congr s t _ o.tree Tree.objects rfl]

@[simp]
theorem active_addWatcher (s : Store ρ) (t : TreeId) (x : Watcher ρ) (u : TreeId) :
    (s.addWatcher t x).2.active u = s.active u := by
  simp only [active, addWatcher]
  rw [modifyTree_congr s t _ u Tree.active rfl]

theorem watcher?_addWatcher_fst (s : Store ρ) (t : TreeId) (x : Watcher ρ) :
    s.watcher? (s.addWatcher t x).1 = none := by
  simp [watcher?, addWatcher, Arena.get?_eq_none_iff]

theorem watcher?_addWatcher {s : Store ρ} {t : TreeId} (h : s.HasTree t) (x : Watcher ρ)
    (w : WatcherId) :
    (s.addWatcher t x).2.watcher? w =
      if w = (s.addWatcher t x).1 then some x else s.watcher? w := by
  obtain ⟨u, j⟩ := w
  simp only [watcher?, addWatcher, WatcherId.mk.injEq]
  rw [tree_modifyTree s t _ u (fun e => e ▸ h)]
  by_cases htu : t = u
  · subst htu
    simp only [if_true, Arena.get?_push, true_and]
  · have hut : ¬ u = t := fun e => htu e.symm
    simp [htu, hut]

theorem watcher?_addWatcher_of_not_hasTree {s : Store ρ} {t : TreeId} (h : ¬ s.HasTree t)
    (x : Watcher ρ) (w : WatcherId) : (s.addWatcher t x).2.watcher? w = s.watcher? w := by
  simp only [watcher?, addWatcher, modifyTree_of_not_hasTree h]

@[simp]
theorem object?_modifyWatcher (s : Store ρ) (w : WatcherId) (f : Watcher ρ → Watcher ρ)
    (o : ObjectId) : (s.modifyWatcher w f).object? o = s.object? o := by
  simp only [object?, modifyWatcher]
  rw [modifyTree_congr s w.tree _ o.tree Tree.objects rfl]

@[simp]
theorem active_modifyWatcher (s : Store ρ) (w : WatcherId) (f : Watcher ρ → Watcher ρ)
    (t : TreeId) : (s.modifyWatcher w f).active t = s.active t := by
  simp only [active, modifyWatcher]
  rw [modifyTree_congr s w.tree _ t Tree.active rfl]

theorem watcher?_modifyWatcher (s : Store ρ) (w : WatcherId) (f : Watcher ρ → Watcher ρ)
    (x : WatcherId) :
    (s.modifyWatcher w f).watcher? x =
      if w = x then (s.watcher? x).map f else s.watcher? x := by
  obtain ⟨t, i⟩ := w
  obtain ⟨u, j⟩ := x
  simp only [watcher?, modifyWatcher, WatcherId.mk.injEq]
  by_cases ht : s.HasTree t
  · rw [tree_modifyTree s t _ u (fun e => e ▸ ht)]
    by_cases htu : t = u
    · simp [htu, Arena.get?_modify]
    · simp [htu]
  · rw [modifyTree_of_not_hasTree ht]
    split
    · rename_i h
      rw [← h.1, tree_of_not_hasTree ht]
      rfl
    · rfl

end Store

end ReactiveView
