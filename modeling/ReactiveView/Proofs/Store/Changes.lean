import Mathlib.Logic.Relation
import ReactiveView.Proofs.Store.Watching

/-!
# Changes

The single changes that a store goes through between two writes, and what a sequence of them
reaches.  Of the slots a change does one of three things: it leaves them alone, it adds an
observable over plain data, or it wraps one object where that is.  What the three keep, every
sequence of changes keeps.
-/

namespace ReactiveView.Store

variable {ρ : Type}

/-! ## 1. Sequences of changes -/

/-- A single change of a store, other than a write. -/
inductive Change (ρ : Type) where
  | read (o : ObjectId) (key : String)
  -- Observe an object, in a data tree of its own unless one is given.
  | observe (fields : Fields Value) (tree : Option TreeId)
  | watch (o : ObjectId) (key : String) (reaction : ρ)
  | newRegistry
  | register (r : RegistryId) (w : WatcherId)
  -- Let a watcher collect in a data tree, unless another one does so.
  | begin (t : TreeId) (w : WatcherId)
  | vacate (t : TreeId)

namespace Change

def apply (s : Store ρ) : Change ρ → Store ρ
  | read o key => (s.get o key).2
  | observe fields none => (s.wrap fields).2
  | observe fields (some t) => (s.wrapIn t fields).2
  | watch o key reaction => (s.watch o key reaction).2
  | newRegistry => s.newRegistry.2
  | register r w => s.register r w
  | begin t w =>
    match s.begin t w with
    | .ok s => s
    | .error _ => s
  | vacate t => s.vacate t

/-- The object that the change observes. -/
def observed : Change ρ → Option (Fields Value)
  | observe fields _ => some fields
  | _ => none

/-- The change neither begins nor ends a collection. -/
def Neutral : Change ρ → Prop
  | begin _ _ | vacate _ => False
  | _ => True

end Change

/-- Changes out of `may` lead from one store to the other. -/
def Reaches (may : Change ρ → Prop) : Store ρ → Store ρ → Prop :=
  Relation.ReflTransGen fun s s' => ∃ change, may change ∧ s' = change.apply s

variable {may may' : Change ρ → Prop} {s s' s'' : Store ρ}

theorem Reaches.refl (s : Store ρ) : s.Reaches may s := Relation.ReflTransGen.refl

theorem Reaches.trans (h : s.Reaches may s') (h' : s'.Reaches may s'') : s.Reaches may s'' :=
  Relation.ReflTransGen.trans h h'

theorem reaches_apply (change : Change ρ) (h : may change) : s.Reaches may (change.apply s) :=
  .single ⟨change, h, rfl⟩

theorem Reaches.mono (h : s.Reaches may s') (hm : ∀ change, may change → may' change) :
    s.Reaches may' s' :=
  Relation.ReflTransGen.mono (fun _ _ ⟨change, hc, he⟩ => ⟨change, hm change hc, he⟩) _ _ h

/-- **What single changes keep, sequences of them keep.** -/
theorem Reaches.keeps (h : s.Reaches may s') (inv : Store ρ → Prop)
    (hkeep : ∀ {s change}, may change → inv s → inv (change.apply s)) (hs : inv s) : inv s' := by
  induction h with
  | refl => exact hs
  | tail _ hstep ih =>
    obtain ⟨change, hc, rfl⟩ := hstep
    exact hkeep hc ih

theorem getTexts_reaches {o : ObjectId} (h : ∀ key, may (.read o key)) (keys : List String) :
    s.Reaches may (s.getTexts o keys).2 := by
  induction keys generalizing s with
  | nil => exact .refl s
  | cons key keys ih => exact (reaches_apply (.read o key) (h key)).trans ih

/-! ## 2. Growth -/

theorem Change.begin_cases (s : Store ρ) (t : TreeId) (w : WatcherId) :
    (Change.begin t w).apply s = s ∨
      s.active t = none ∧ (Change.begin t w).apply s = s.occupy t w := by
  rw [apply]
  cases hb : s.begin t w with
  | error e => exact .inl rfl
  | ok s' => exact .inr (begin_eq_ok hb)

theorem Change.sameData (change : Change ρ) (s : Store ρ) : s.SameData (change.apply s) := by
  cases change with
  | read o key => exact sameData_get s o key
  | observe fields tree =>
    cases tree with
    | none => exact sameData_wrap s fields
    | some t => exact sameData_wrapIn s t fields
  | watch o key reaction => exact sameData_watch s o key reaction
  | newRegistry => exact sameData_newRegistry s
  | register r w => exact sameData_register s r w
  | begin t w =>
    rcases begin_cases s t w with h | ⟨-, h⟩
    · rw [h]
      exact .refl s
    · rw [h]
      exact sameData_occupy s t w
  | vacate t => exact sameData_vacate s t

theorem Reaches.sameData (h : s.Reaches may s') : s.SameData s' :=
  h.keeps s.SameData (fun _ hs => hs.trans (Change.sameData _ _)) (.refl s)

theorem Change.active {change : Change ρ} (h : change.Neutral) (s : Store ρ) (t : TreeId) :
    (change.apply s).active t = s.active t := by
  cases change with
  | read o key => exact active_get s o key t
  | observe fields tree =>
    cases tree with
    | none => exact active_wrap s fields t
    | some u => exact active_wrapIn s u fields t
  | watch o key reaction => exact active_watch s o key reaction t
  | newRegistry => rfl
  | register r w => exact active_register s r w t
  | begin u w => exact h.elim
  | vacate u => exact h.elim

/-! ## 3. Slots -/

/-- The slots of an observable. -/
def slots? (s : Store ρ) (o : ObjectId) : Option (Fields Slot) := (s.object? o).map Object.slots

theorem slots?_congr {o : ObjectId} (h : s'.object? o = s.object? o) :
    s'.slots? o = s.slots? o := by rw [slots?, slots?, h]

theorem slot?_eq_bind (s : Store ρ) (o : ObjectId) (key : String) :
    s.slot? o key = (s.slots? o).bind (Fields.get? · key) := by
  rw [slot?, slots?]
  cases s.object? o <;> rfl

theorem slots?_eq_none_iff {o : ObjectId} : s.slots? o = none ↔ s.object? o = none :=
  Option.map_eq_none_iff

theorem isSome_slots? {o : ObjectId} : (s.slots? o).isSome = (s.object? o).isSome :=
  Option.isSome_map

theorem slots?_setSlot (s : Store ρ) (o : ObjectId) (key : String) (slot : Slot) (q : ObjectId) :
    (s.setSlot o key slot).slots? q =
      if q = o then (s.slots? q).map (·.insert key slot) else s.slots? q := by
  rw [slots?, slots?, object?_setSlot]
  by_cases h : o = q
  · rw [if_pos h, if_pos h.symm]
    cases s.object? q <;> rfl
  · rw [if_neg h, if_neg fun e => h e.symm]

theorem slots?_write (s : Store ρ) (o : ObjectId) (key : String) (v : Value) (q : ObjectId) :
    (s.write o key v).slots? q =
      if q = o then (s.slots? q).map (·.insert key (.plain v)) else s.slots? q :=
  slots?_setSlot s o key (.plain v) q

@[simp]
theorem slots?_register (s : Store ρ) (r : RegistryId) (w : WatcherId) (q : ObjectId) :
    (s.register r w).slots? q = s.slots? q := by
  cases r with
  | free i => rfl
  | ofObject o =>
    rw [slots?, slots?, object?_register]
    split
    · cases s.object? q <;> rfl
    · rfl

@[simp]
theorem slots?_collectAt (s : Store ρ) (o q : ObjectId) :
    (s.collectAt o).slots? q = s.slots? q := by
  rw [collectAt]
  split
  · exact slots?_register s _ _ q
  · rfl

/-- What a change does to the slots, where objects out of `new` may be observed. -/
inductive Reslots (new : Fields Value → Prop) (s s' : Store ρ) : Prop where
  | same (h : ∀ q, s'.slots? q = s.slots? q)
  -- An observable over plain data is new.
  | made (n : ObjectId) (fields : Fields Value) (hnew : new fields) (hn : s.object? n = none)
    (h : ∀ q, s'.slots? q =
      if q = n then some (Fields.mapValues .plain fields) else s.slots? q)
  -- An object has been wrapped by an observable of its own.
  | wrapped (o : ObjectId) (key : String) (n : ObjectId) (fields : Fields Value)
    (hslot : s.slot? o key = some (.plain (.object fields))) (hn : s.object? n = none)
    (htree : n.tree = o.tree) (hlt : o.index < n.index)
    (h : ∀ q, s'.slots? q =
      if q = n then some (Fields.mapValues .plain fields)
      else if q = o then (s.slots? q).map (·.insert key (.nested n)) else s.slots? q)

variable {new : Fields Value → Prop}

-- Only slots matter.
theorem Reslots.congr {r r' : Store ρ} (h : Reslots new s s') (ho : ∀ q, s.object? q = r.object? q)
    (hs' : ∀ q, r'.slots? q = s'.slots? q) : Reslots new r r' := by
  have hs : ∀ q, s.slots? q = r.slots? q := fun q => slots?_congr (ho q)
  rcases h with h | ⟨n, fields, hnew, hn, h⟩ | ⟨o, key, n, fields, hslot, hn, htree, hlt, h⟩
  · exact .same fun q => (hs' q).trans ((h q).trans (hs q))
  · refine .made n fields hnew ((ho n).symm.trans hn) fun q => ?_
    rw [hs', h, hs]
  · refine .wrapped o key n fields ?_ ((ho n).symm.trans hn) htree hlt fun q => ?_
    · rw [slot?_eq_bind, ← hs, ← slot?_eq_bind, hslot]
    · rw [hs', h, hs]

theorem reslots_wrapIn (t : TreeId) {fields : Fields Value} (h : new fields) :
    Reslots new s (s.wrapIn t fields).2 := by
  by_cases ht : s.HasTree t
  · refine .made _ fields h (object?_wrapIn_fst s t fields) fun q => ?_
    rw [slots?, object?_wrapIn ht]
    split <;> rfl
  · exact .same fun q => slots?_congr (object?_wrapIn_of_not_hasTree ht fields q)

theorem reslots_wrap {fields : Fields Value} (h : new fields) :
    Reslots new s (s.wrap fields).2 := by
  refine .made _ fields h (object?_wrap_fst s fields) fun q => ?_
  rw [slots?, object?_wrap]
  split <;> rfl

theorem reslots_resolve (s : Store ρ) (o : ObjectId) (key : String) :
    Reslots new s (s.resolve o key).2 := by
  rcases resolve_cases s o key with h | ⟨fields, hs, h⟩
  · rw [h]
    exact .same fun _ => rfl
  · have ho := object?_isSome_of_slot? hs
    have hne := wrapIn_fst_ne ho o.tree fields
    have hlt : o.index < (s.tree o.tree).objects.size := (Arena.get?_isSome_iff _ _).1 ho
    rw [h]
    refine .wrapped o key _ fields hs (object?_wrapIn_fst s o.tree fields) rfl hlt fun q => ?_
    rw [slots?_setSlot]
    by_cases hqn : q = (s.wrapIn o.tree fields).1
    · rw [if_pos hqn, if_neg fun e => hne (e.symm.trans hqn), slots?,
        object?_wrapIn (hasTree_of_object? ho), if_pos hqn]
      rfl
    · have hkept : (s.wrapIn o.tree fields).2.slots? q = s.slots? q := by
        rw [slots?, object?_wrapIn (hasTree_of_object? ho), if_neg hqn]
        rfl
      rw [if_neg hqn, hkept]

theorem reslots_get (s : Store ρ) (o : ObjectId) (key : String) :
    Reslots new s (s.get o key).2 :=
  (reslots_resolve s o key).congr (fun _ => rfl) (slots?_collectAt _ o)

theorem reslots_watch (s : Store ρ) (o : ObjectId) (key : String) (reaction : ρ) :
    Reslots new s (s.watch o key reaction).2 := by
  cases ha : s.active o.tree with
  | some a =>
    rw [watch_of_active ha]
    exact .same fun q => slots?_congr (object?_issue s o.tree q)
  | none =>
    rw [watch_eq_startWatch ha]
    refine (reslots_get (s.startWatch o key reaction).2 o key).congr
      (object?_startWatch s o key reaction) fun q => ?_
    exact slots?_congr ((object?_modifyWatcher _ _ _ q).trans (object?_vacate _ _ q))

/-- **What a change can do to slots.** -/
theorem Change.reslots (change : Change ρ) (s : Store ρ) :
    Reslots (· ∈ change.observed) s (change.apply s) := by
  cases change with
  | read o key => exact reslots_get s o key
  | observe fields tree =>
    cases tree with
    | none => exact reslots_wrap rfl
    | some t => exact reslots_wrapIn t rfl
  | watch o key reaction => exact reslots_watch s o key reaction
  | newRegistry => exact .same fun _ => rfl
  | register r w => exact .same (slots?_register s r w)
  | begin t w =>
    rcases begin_cases s t w with h | ⟨-, h⟩
    · rw [h]
      exact .same fun _ => rfl
    · rw [h]
      exact .same fun q => slots?_congr (object?_occupy s t w q)
  | vacate t => exact .same fun q => slots?_congr (object?_vacate s t q)

end ReactiveView.Store
