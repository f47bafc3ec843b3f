import ReactiveView.Proofs.Store.Watching

/-!
# Data trees in another place

Which of the trees of a store a data tree is depends on what was there before it, and nothing that
is done with its observables depends on that.  Moved into another place, a tree is the same but for
the place, which stands in all identities of its observables and watchers.  Where two stores have
the same tree in different places, whatever is done with it has the same results in both, and leaves
the other trees of either as they are.
-/

namespace ReactiveView

/-! ## 1. Arenas -/

namespace Arena

variable {α β : Type}

/-- The same entries, changed by `f`. -/
def map (f : α → β) (a : Arena α) : Arena β := ⟨a.cells.map f⟩

@[simp]
theorem size_map (f : α → β) (a : Arena α) : (a.map f).size = a.size := by simp [map, size]

@[simp]
theorem get?_map (f : α → β) (a : Arena α) (i : Nat) : (a.map f).get? i = (a.get? i).map f := by
  simp [map, get?]

@[simp]
theorem map_empty (f : α → β) : ({} : Arena α).map f = {} := by simp [map]

@[simp]
theorem map_push (f : α → β) (a : Arena α) (x : α) : (a.push x).map f = (a.map f).push (f x) := by
  simp [map, push]

theorem ext {a b : Arena α} (h : ∀ i, a.get? i = b.get? i) : a = b := by
  obtain ⟨a⟩ := a
  obtain ⟨b⟩ := b
  exact congrArg mk (Array.ext_getElem? h)

-- Changes that agree on the entry that they change.
theorem map_modify {f : α → β} {a : Arena α} {i : Nat} {g : α → α} {g' : β → β}
    (h : ∀ x ∈ a.get? i, f (g x) = g' (f x)) : (a.modify i g).map f = (a.map f).modify i g' := by
  refine ext fun j => ?_
  rw [get?_map, get?_modify, get?_modify, get?_map]
  split
  · rename_i hij
    subst hij
    cases hx : a.get? i with
    | none => rfl
    | some x => exact congrArg some (h x hx)
  · rfl

end Arena

/-! ## 2. Moving -/

variable {ρ : Type}

/-- The observable in the same position of another tree. -/
def ObjectId.into (o : ObjectId) (t : TreeId) : ObjectId := ⟨t, o.index⟩

/-- The watcher in the same position of another tree. -/
def WatcherId.into (w : WatcherId) (t : TreeId) : WatcherId := ⟨t, w.index⟩

def Field.into (field : Field) (t : TreeId) : Field :=
  match field with
  | value v => value v
  | proxy o => proxy (o.into t)

def Slot.into (slot : Slot) (t : TreeId) : Slot :=
  match slot with
  | plain v => plain v
  | nested o => nested (o.into t)

def Object.into (x : Object) (t : TreeId) : Object where
  slots := Fields.mapValues (·.into t) x.slots
  registered := x.registered.map (·.into t)

/-- The watcher of a moved tree, whose reactions become those that `f` makes of them. -/
def Watcher.into (x : Watcher ρ) (t : TreeId) (f : ρ → ρ) : Watcher ρ :=
  { x with source := x.source.into t, reaction := f x.reaction, baseline := x.baseline.into t }

/-- The tree moved to the place `t`. -/
def Tree.into (tree : Tree ρ) (t : TreeId) (f : ρ → ρ) : Tree ρ where
  objects := tree.objects.map (·.into t)
  watchers := tree.watchers.map (·.into t f)
  active := tree.active.map (·.into t)
  issued := tree.issued

/-- The field leads nowhere but into the tree. -/
def Field.Within (t : TreeId) : Field → Prop
  | value _ => True
  | proxy o => o.tree = t

def Slot.Within (t : TreeId) : Slot → Prop
  | plain _ => True
  | nested o => o.tree = t

structure Object.Within (t : TreeId) (x : Object) : Prop where
  slots : ∀ e ∈ x.slots, e.2.Within t
  registered : ∀ w ∈ x.registered, w.tree = t

/-- The watcher watches the tree, and its reaction is among `good`. -/
structure Watcher.Within (t : TreeId) (good : ρ → Prop) (x : Watcher ρ) : Prop where
  source : x.source.tree = t
  reaction : good x.reaction
  baseline : x.baseline.Within t

/-- Nothing in the tree, which is in the place `t`, leads out of it. -/
structure Tree.Within (t : TreeId) (good : ρ → Prop) (tree : Tree ρ) : Prop where
  object : ∀ {i x}, tree.objects.get? i = some x → x.Within t
  watcher : ∀ {i x}, tree.watchers.get? i = some x → x.Within t good
  active : ∀ w ∈ tree.active, w.tree = t

-- Identities of one tree are the same in another one if they are the same.
theorem ObjectId.into_inj {o q : ObjectId} {t u : TreeId} (ho : o.tree = t) (hq : q.tree = t) :
    o.into u = q.into u ↔ o = q := by
  obtain ⟨_, i⟩ := o
  obtain ⟨_, j⟩ := q
  subst ho
  subst hq
  simp [into]

theorem WatcherId.into_inj {w x : WatcherId} {t u : TreeId} (hw : w.tree = t) (hx : x.tree = t) :
    w.into u = x.into u ↔ w = x := by
  obtain ⟨_, i⟩ := w
  obtain ⟨_, j⟩ := x
  subst hw
  subst hx
  simp [into]

theorem Field.strictEqual_into {f g : Field} {t : TreeId} (hf : f.Within t) (hg : g.Within t)
    (u : TreeId) : (f.into u).strictEqual (g.into u) = f.strictEqual g := by
  cases f with
  | value v => cases g <;> rfl
  | proxy o =>
    cases g with
    | value v => rfl
    | proxy q =>
      show (o.into u == q.into u) = (o == q)
      rw [Bool.eq_iff_iff, beq_iff_eq, beq_iff_eq, ObjectId.into_inj hf hg]

@[simp]
theorem Field.display_into (f : Field) (t : TreeId) : (f.into t).display = f.display := by
  cases f <;> rfl

theorem Field.proxy?_into (f : Field) (t : TreeId) :
    (f.into t).proxy? = f.proxy?.map (·.into t) := by
  cases f <;> rfl

theorem Field.Within.proxy? {f : Field} {t : TreeId} (h : f.Within t) :
    ∀ o ∈ f.proxy?, o.tree = t := by
  cases f with
  | value v => exact fun o ho => nomatch ho
  | proxy q =>
    rintro o ⟨⟩
    exact h

-- Plain data is the same everywhere.
theorem Object.into_plain (fields : Fields Value) (t : TreeId) :
    Object.into { slots := Fields.mapValues .plain fields } t =
      { slots := Fields.mapValues .plain fields } := by
  simp [Object.into, Fields.mapValues, Slot.into]

theorem Object.within_plain (fields : Fields Value) (t : TreeId) :
    Object.Within t { slots := Fields.mapValues .plain fields } := by
  refine ⟨fun e he => ?_, fun w hw => nomatch hw⟩
  obtain ⟨e', -, rfl⟩ := List.mem_map.1 he
  trivial

/-! ## 3. Stores with the same tree -/

namespace Store

/-- The store `s'` has in the place `u` the tree that `s` has in the place `t`. -/
structure SameTree (t u : TreeId) (f : ρ → ρ) (good : ρ → Prop) (s s' : Store ρ) : Prop where
  here : s.HasTree t
  there : s'.HasTree u
  within : (s.tree t).Within t good
  moved : s'.tree u = (s.tree t).into u f

/-- The stores differ in the tree `t` alone. -/
structure Besides (t : TreeId) (s s' : Store ρ) : Prop where
  trees : ∀ i ≠ t.index, s'.trees.get? i = s.trees.get? i
  registries : s'.registries = s.registries

/-- From `b` and `b'` on only one tree has changed in each of the stores, and it is the same
    tree. -/
structure Abreast (t u : TreeId) (f : ρ → ρ) (good : ρ → Prop) (b b' s s' : Store ρ) : Prop
    extends SameTree t u f good s s' where
  left : Besides t b s
  right : Besides u b' s'

variable {t u : TreeId} {f : ρ → ρ} {good : ρ → Prop} {b b' s s' : Store ρ}

theorem Besides.refl (t : TreeId) (s : Store ρ) : s.Besides t s := ⟨fun _ _ => rfl, rfl⟩

theorem Besides.trans {s'' : Store ρ} (h : s.Besides t s') (h' : s'.Besides t s'') :
    s.Besides t s'' :=
  ⟨fun i hi => (h'.trees i hi).trans (h.trees i hi), h'.registries.trans h.registries⟩

theorem Besides.tree (h : s.Besides t s') {v : TreeId} (hv : v ≠ t) : s'.tree v = s.tree v := by
  have hne : v.index ≠ t.index := fun e => hv (congrArg TreeId.mk e)
  rw [Store.tree, Store.tree, h.trees _ hne]

theorem Besides.hasTree (h : s.Besides t s') {v : TreeId} (hv : v ≠ t) :
    s'.HasTree v ↔ s.HasTree v := by
  have hne : v.index ≠ t.index := fun e => hv (congrArg TreeId.mk e)
  rw [HasTree, HasTree, h.trees _ hne]

theorem besides_modifyTree (s : Store ρ) (t : TreeId) (g : Tree ρ → Tree ρ) :
    s.Besides t (s.modifyTree t g) :=
  ⟨fun _ hi => (Arena.get?_modify _ _ _ _).trans (if_neg fun e => hi e.symm), rfl⟩

/-! ## 4. What is done with the tree -/

theorem SameTree.object? (h : SameTree t u f good s s') {o : ObjectId} (ho : o.tree = t) :
    s'.object? (o.into u) = (s.object? o).map (·.into u) := by
  subst ho
  show (s'.tree u).objects.get? o.index = _
  rw [h.moved]
  exact Arena.get?_map _ _ _

theorem SameTree.watcher? (h : SameTree t u f good s s') {w : WatcherId} (hw : w.tree = t) :
    s'.watcher? (w.into u) = (s.watcher? w).map (·.into u f) := by
  subst hw
  show (s'.tree u).watchers.get? w.index = _
  rw [h.moved]
  exact Arena.get?_map _ _ _

theorem SameTree.object_within (h : SameTree t u f good s s') {o : ObjectId} (ho : o.tree = t)
    {x : Object} (hx : s.object? o = some x) : x.Within t := by
  subst ho
  exact h.within.object hx

theorem SameTree.watcher_within (h : SameTree t u f good s s') {w : WatcherId} (hw : w.tree = t)
    {x : Watcher ρ} (hx : s.watcher? w = some x) : x.Within t good := by
  subst hw
  exact h.within.watcher hx

theorem SameTree.active (h : SameTree t u f good s s') :
    s'.active u = (s.active t).map (·.into u) := by
  rw [Store.active, h.moved]
  rfl

theorem SameTree.registered (h : SameTree t u f good s s') {o : ObjectId} (ho : o.tree = t) :
    s'.registered (.ofObject (o.into u)) = (s.registered (.ofObject o)).map (·.into u) ∧
      ∀ w ∈ s.registered (.ofObject o), w.tree = t := by
  have ho' := h.object? ho
  cases hx : s.object? o with
  | none =>
    rw [hx] at ho'
    rw [registered_of_none hx, registered_of_none ho']
    exact ⟨rfl, fun w hw => nomatch hw⟩
  | some x =>
    rw [hx] at ho'
    rw [registered_eq hx, registered_eq ho']
    exact ⟨rfl, (h.object_within ho hx).registered⟩

theorem SameTree.slot? (h : SameTree t u f good s s') {o : ObjectId} (ho : o.tree = t)
    (key : String) :
    s'.slot? (o.into u) key = (s.slot? o key).map (·.into u) ∧
      ∀ slot ∈ s.slot? o key, slot.Within t := by
  rw [Store.slot?, Store.slot?, h.object? ho]
  cases hx : s.object? o with
  | none => exact ⟨rfl, fun slot hslot => by cases hslot⟩
  | some x =>
    refine ⟨Fields.get?_mapValues (fun slot : Slot => slot.into u) x.slots key,
      fun slot hslot => ?_⟩
    exact (h.object_within ho hx).slots _ (Fields.mem_of_get? hslot)

theorem SameTree.number (h : SameTree t u f good s s') {w : WatcherId} (hw : w.tree = t) :
    s'.number (w.into u) = s.number w := by
  rw [Store.number, Store.number, h.watcher? hw]
  cases s.watcher? w <;> rfl

/-- **The same change of a tree in two places.** -/
theorem Abreast.modifyTree (h : Abreast t u f good b b' s s') {g g' : Tree ρ → Tree ρ}
    (hg : ∀ tree : Tree ρ, tree.Within t good →
      (g tree).Within t good ∧ g' (tree.into u f) = (g tree).into u f) :
    Abreast t u f good b b' (s.modifyTree t g) (s'.modifyTree u g') := by
  obtain ⟨hwithin, hmoved⟩ := hg _ h.within
  have htree := tree_modifyTree s t g t fun _ => h.here
  have htree' := tree_modifyTree s' u g' u fun _ => h.there
  rw [if_pos rfl] at htree htree'
  refine ⟨⟨(hasTree_modifyTree _ _ _ _).2 h.here, (hasTree_modifyTree _ _ _ _).2 h.there, ?_, ?_⟩,
    h.left.trans (besides_modifyTree _ _ _), h.right.trans (besides_modifyTree _ _ _)⟩
  · rw [htree]
    exact hwithin
  · rw [htree, htree', h.moved, hmoved]

theorem Abreast.modifyObject (h : Abreast t u f good b b' s s') {o : ObjectId} (ho : o.tree = t)
    {g g' : Object → Object}
    (hg : ∀ x : Object, x.Within t → (g x).Within t ∧ g' (x.into u) = (g x).into u) :
    Abreast t u f good b b' (s.modifyObject o g) (s'.modifyObject (o.into u) g') := by
  subst ho
  refine h.modifyTree fun tree htree => ⟨⟨fun {i x} hx => ?_, htree.watcher, htree.active⟩, ?_⟩
  · rw [Arena.get?_modify] at hx
    split at hx
    · obtain ⟨y, hy, rfl⟩ := Option.map_eq_some_iff.1 hx
      exact (hg y (htree.object hy)).1
    · exact htree.object hx
  · have hobjects : (tree.objects.modify o.index g).map (·.into u) =
        (tree.objects.map (·.into u)).modify o.index g' :=
      Arena.map_modify fun x hx => (hg x (htree.object hx)).2.symm
    simp only [Tree.into, hobjects]
    rfl

theorem Abreast.modifyWatcher (h : Abreast t u f good b b' s s') {w : WatcherId} (hw : w.tree = t)
    {g g' : Watcher ρ → Watcher ρ}
    (hg : ∀ x : Watcher ρ, x.Within t good →
      (g x).Within t good ∧ g' (x.into u f) = (g x).into u f) :
    Abreast t u f good b b' (s.modifyWatcher w g) (s'.modifyWatcher (w.into u) g') := by
  subst hw
  refine h.modifyTree fun tree htree => ⟨⟨htree.object, fun {i x} hx => ?_, htree.active⟩, ?_⟩
  · rw [Arena.get?_modify] at hx
    split at hx
    · obtain ⟨y, hy, rfl⟩ := Option.map_eq_some_iff.1 hx
      exact (hg y (htree.watcher hy)).1
    · exact htree.watcher hx
  · have hwatchers : (tree.watchers.modify w.index g).map (·.into u f) =
        (tree.watchers.map (·.into u f)).modify w.index g' :=
      Arena.map_modify fun x hx => (hg x (htree.watcher hx)).2.symm
    simp only [Tree.into, hwatchers]
    rfl

theorem Abreast.setSlot (h : Abreast t u f good b b' s s') {o : ObjectId} (ho : o.tree = t)
    (key : String) {slot : Slot} (hslot : slot.Within t) :
    Abreast t u f good b b' (s.setSlot o key slot) (s'.setSlot (o.into u) key (slot.into u)) := by
  refine h.modifyObject ho fun x hx => ⟨⟨fun e he => ?_, hx.registered⟩, ?_⟩
  · rcases Fields.mem_insert he with rfl | he
    · exact hslot
    · exact hx.slots e he
  · simp only [Object.into, Fields.mapValues_insert]

theorem Abreast.write (h : Abreast t u f good b b' s s') {o : ObjectId} (ho : o.tree = t)
    (key : String) (v : Value) :
    Abreast t u f good b b' (s.write o key v) (s'.write (o.into u) key v) := by
  have hplain : (Slot.plain v).Within t := trivial
  exact h.setSlot ho key hplain

theorem Abreast.register (h : Abreast t u f good b b' s s') {o : ObjectId} (ho : o.tree = t)
    {w : WatcherId} (hw : w.tree = t) :
    Abreast t u f good b b' (s.register (.ofObject o) w)
      (s'.register (.ofObject (o.into u)) (w.into u)) := by
  refine h.modifyObject ho fun x hx => ⟨⟨hx.slots, fun v hv => ?_⟩, ?_⟩
  · rcases List.mem_append.1 hv with hv | hv
    · exact hx.registered v hv
    · rw [List.mem_singleton.1 hv]
      exact hw
  · simp [Object.into]

theorem SameTree.wrapIn_fst (h : SameTree t u f good s s') (fields : Fields Value) :
    (s'.wrapIn u fields).1 = (s.wrapIn t fields).1.into u := by
  simp [wrapIn, ObjectId.into, h.moved, Tree.into]

theorem Abreast.wrapIn (h : Abreast t u f good b b' s s') (fields : Fields Value) :
    Abreast t u f good b b' (s.wrapIn t fields).2 (s'.wrapIn u fields).2 := by
  refine h.modifyTree fun tree htree => ⟨⟨fun {i x} hx => ?_, htree.watcher, htree.active⟩, ?_⟩
  · rw [Arena.get?_push] at hx
    split at hx
    · cases hx
      exact Object.within_plain fields t
    · exact htree.object hx
  · simp [Tree.into, Object.into_plain]

/-- **A read** gives the same field in both places. -/
theorem Abreast.resolve (h : Abreast t u f good b b' s s') {o : ObjectId} (ho : o.tree = t)
    (key : String) :
    (s.resolve o key).1.Within t ∧ (s'.resolve (o.into u) key).1 = (s.resolve o key).1.into u ∧
      Abreast t u f good b b' (s.resolve o key).2 (s'.resolve (o.into u) key).2 := by
  obtain ⟨hslot, hwithin⟩ := h.slot? ho key
  rcases slot?_cases s o key with hs | ⟨n, hs⟩ | ⟨v, hs, hv⟩ | ⟨fields, hs⟩
  · rw [hs] at hslot
    rw [resolve_of_none hs, resolve_of_none hslot]
    exact ⟨trivial, rfl, h⟩
  · rw [hs] at hslot
    rw [resolve_of_nested hs, resolve_of_nested hslot]
    exact ⟨hwithin _ hs, rfl, h⟩
  · rw [hs] at hslot
    rw [resolve_of_plain hs hv, resolve_of_plain hslot hv]
    exact ⟨trivial, rfl, h⟩
  · -- both wrap the object, at the same position of their trees
    rw [hs] at hslot
    subst ho
    have hfst := h.wrapIn_fst fields
    have hnew : (s.wrapIn o.tree fields).1.tree = o.tree := rfl
    rw [resolve_of_object hs, resolve_of_object hslot]
    refine ⟨hnew, congrArg Field.proxy hfst, ?_⟩
    show Abreast _ _ f good b b' _ ((s'.wrapIn u fields).2.setSlot (o.into u) key
      (.nested (s'.wrapIn u fields).1))
    rw [hfst]
    exact (h.wrapIn fields).setSlot rfl key hnew

theorem Abreast.collectAt (h : Abreast t u f good b b' s s') {o : ObjectId} (ho : o.tree = t) :
    Abreast t u f good b b' (s.collectAt o) (s'.collectAt (o.into u)) := by
  subst ho
  have hactive := h.active
  rw [Store.collectAt, Store.collectAt, show (o.into u).tree = u from rfl, hactive]
  cases ha : s.active o.tree with
  | none => exact h
  | some w => exact h.register rfl (h.within.active w ha)

theorem Abreast.get (h : Abreast t u f good b b' s s') {o : ObjectId} (ho : o.tree = t)
    (key : String) :
    (s.get o key).1.Within t ∧ (s'.get (o.into u) key).1 = (s.get o key).1.into u ∧
      Abreast t u f good b b' (s.get o key).2 (s'.get (o.into u) key).2 := by
  obtain ⟨hwithin, hfield, hstore⟩ := h.resolve ho key
  exact ⟨hwithin, hfield, hstore.collectAt ho⟩

theorem Abreast.getTexts (h : Abreast t u f good b b' s s') {o : ObjectId} (ho : o.tree = t)
    (keys : List String) :
    (s'.getTexts (o.into u) keys).1 = (s.getTexts o keys).1 ∧
      Abreast t u f good b b' (s.getTexts o keys).2 (s'.getTexts (o.into u) keys).2 := by
  induction keys generalizing s s' with
  | nil => exact ⟨rfl, h⟩
  | cons key keys ih =>
    obtain ⟨-, hfield, hstore⟩ := h.get ho key
    obtain ⟨htexts, hrest⟩ := ih hstore
    refine ⟨?_, hrest⟩
    show (s'.get (o.into u) key).1.display :: _ = (s.get o key).1.display :: _
    rw [hfield, Field.display_into]
    exact congrArg _ htexts

/-! ## 5. Collecting in the tree -/

theorem Abreast.occupy (h : Abreast t u f good b b' s s') {w : WatcherId} (hw : w.tree = t) :
    Abreast t u f good b b' (s.occupy t w) (s'.occupy u (w.into u)) :=
  h.modifyTree fun _ htree =>
    ⟨⟨htree.object, htree.watcher, fun _ hv => Option.some.inj hv ▸ hw⟩, rfl⟩

theorem Abreast.vacate (h : Abreast t u f good b b' s s') :
    Abreast t u f good b b' (s.vacate t) (s'.vacate u) :=
  h.modifyTree fun _ htree => ⟨⟨htree.object, htree.watcher, fun _ hv => nomatch hv⟩, rfl⟩

theorem Abreast.issue (h : Abreast t u f good b b' s s') :
    Abreast t u f good b b' (s.issue t).2 (s'.issue u).2 :=
  h.modifyTree fun _ htree => ⟨⟨htree.object, htree.watcher, htree.active⟩, rfl⟩

theorem Abreast.addWatcher (h : Abreast t u f good b b' s s') {x : Watcher ρ}
    (hx : x.Within t good) :
    (s'.addWatcher u (x.into u f)).1 = (s.addWatcher t x).1.into u ∧
      Abreast t u f good b b' (s.addWatcher t x).2 (s'.addWatcher u (x.into u f)).2 := by
  refine ⟨?_, h.modifyTree fun tree htree => ⟨⟨htree.object, fun {i y} hy => ?_, htree.active⟩, ?_⟩⟩
  · simp [Store.addWatcher, WatcherId.into, h.moved, Tree.into]
  · rw [Arena.get?_push] at hy
    split at hy
    · cases hy
      exact hx
    · exact htree.watcher hy
  · simp [Tree.into]

/-- A collection begins in both places, or is refused in both for the same reason. -/
theorem Abreast.begin (h : Abreast t u f good b b' s s') {w : WatcherId} (hw : w.tree = t) :
    (∃ error, s.begin t w = .error error ∧ s'.begin u (w.into u) = .error error) ∨
      ∃ s₁ s₁', s.begin t w = .ok s₁ ∧ s'.begin u (w.into u) = .ok s₁' ∧
        Abreast t u f good b b' s₁ s₁' := by
  have hactive := h.active
  rw [Store.begin, Store.begin, hactive]
  cases ha : s.active t with
  | some a =>
    refine .inl ⟨_, rfl, ?_⟩
    show Except.error (ReactiveError.collecting (s'.number (a.into u)) (s'.number (w.into u))) = _
    rw [h.number (h.within.active a ha), h.number hw]
  | none => exact .inr ⟨_, _, rfl, rfl, h.occupy hw⟩

theorem Abreast.startWatch (h : Abreast t u f good b b' s s') {o : ObjectId} (ho : o.tree = t)
    (key : String) {reaction : ρ} (hgood : good reaction) :
    (s.startWatch o key reaction).1.tree = t ∧
      (s'.startWatch (o.into u) key (f reaction)).1 = (s.startWatch o key reaction).1.into u ∧
      Abreast t u f good b b' (s.startWatch o key reaction).2
        (s'.startWatch (o.into u) key (f reaction)).2 := by
  subst ho
  have hx : Watcher.Within o.tree good ⟨(s.tree o.tree).issued + 1, o, key, reaction, .absent⟩ :=
    ⟨rfl, hgood, trivial⟩
  have hmoved : Watcher.into ⟨(s.tree o.tree).issued + 1, o, key, reaction, .absent⟩ u f =
      ⟨(s'.tree u).issued + 1, o.into u, key, f reaction, .absent⟩ := by
    rw [h.moved]
    rfl
  obtain ⟨hfst, hadded⟩ := h.issue.addWatcher hx
  rw [hmoved] at hfst hadded
  refine ⟨rfl, hfst, ?_⟩
  have hoccupied := hadded.occupy (w := ((s.issue o.tree).2.addWatcher o.tree
    ⟨(s.tree o.tree).issued + 1, o, key, reaction, .absent⟩).1) rfl
  rw [← hfst] at hoccupied
  exact hoccupied

/-- **A new watcher** is the same one in both places, or is refused in both for the same reason. -/
theorem Abreast.watch (h : Abreast t u f good b b' s s') {o : ObjectId} (ho : o.tree = t)
    (key : String) {reaction : ρ} (hgood : good reaction) :
    ∃ s₁ s₁', Abreast t u f good b b' s₁ s₁' ∧
      ((∃ error, s.watch o key reaction = (.error error, s₁) ∧
          s'.watch (o.into u) key (f reaction) = (.error error, s₁')) ∨
        ∃ w, w.tree = t ∧ s.watch o key reaction = (.ok w, s₁) ∧
          s'.watch (o.into u) key (f reaction) = (.ok (w.into u), s₁')) := by
  have hactive := h.active
  cases ha : s.active t with
  | some a =>
    have ha' : s'.active (o.into u).tree = some (a.into u) := by
      rw [ha] at hactive
      exact hactive
    have hissued : (s'.tree u).issued = (s.tree t).issued := by
      rw [h.moved]
      rfl
    have hnumber := h.number (h.within.active a ha)
    rw [← ho] at ha
    refine ⟨_, _, h.issue, .inl ⟨_, ho ▸ watch_of_active ha key reaction, ?_⟩⟩
    rw [watch_of_active ha', hnumber]
    show (Except.error (ReactiveError.collecting _ ((s'.tree u).issued + 1)), _) = _
    rw [hissued]
    rfl
  | none =>
    have ha' : s'.active (o.into u).tree = none := by
      rw [ha] at hactive
      exact hactive
    obtain ⟨hw, hfst, hstarted⟩ := h.startWatch ho key hgood
    obtain ⟨hwithin, hfield, hread⟩ := hstarted.get ho key
    rw [get_fst] at hwithin hfield
    rw [get_fst] at hfield
    rw [← ho] at ha
    rw [watch_eq_startWatch ha, watch_eq_startWatch ha', hfst, hfield, ho]
    refine ⟨_, _, ?_, .inr ⟨_, hw, rfl, rfl⟩⟩
    generalize (s.startWatch o key reaction).2.field o key = field at hwithin ⊢
    exact hread.vacate.modifyWatcher hw fun x hx => ⟨⟨hx.source, hx.reaction, hwithin⟩, rfl⟩

/-- **A snapshot** is the same in both places. -/
theorem SameTree.snapshot (h : SameTree t u f good s s') {o : ObjectId} (ho : o.tree = t) :
    s'.snapshot (o.into u) = s.snapshot o := by
  have hto : ∀ (depth : Nat) {q : ObjectId}, q.tree = t →
      s'.snapshotTo depth (q.into u) = s.snapshotTo depth q := by
    intro depth
    induction depth with
    | zero => exact fun _ => rfl
    | succ depth ih =>
      intro q hq
      rw [snapshotTo, snapshotTo, h.object? hq]
      cases hx : s.object? q with
      | none => rfl
      | some x =>
        refine congrArg Value.object ((List.map_map ..).trans (List.map_congr_left fun e he => ?_))
        have hwithin := (h.object_within hq hx).slots e he
        obtain ⟨key, slot⟩ := e
        cases slot with
        | plain v => rfl
        | nested n => exact congrArg _ (ih hwithin)
  subst ho
  show s'.snapshotTo (s'.tree u).objects.size (o.into u) = _
  rw [hto _ rfl, h.moved]
  exact congrArg (s.snapshotTo · o) (Arena.size_map _ _)

end Store

end ReactiveView
