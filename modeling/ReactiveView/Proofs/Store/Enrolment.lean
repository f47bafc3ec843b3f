import Mathlib.Data.List.Nodup
import ReactiveView.Proofs.Store.Changes
import ReactiveView.Proofs.Store.Tended

/-!
# Enrolled watchers

Where nobody collects on their own and registers watchers by hand, the registry of an observable is
the list of its watchers in the order of their creation.  A new watcher is the only change that
touches a registry, and it touches one.
-/

namespace ReactiveView.Store

variable {ρ : Type} {s s' : Store ρ}

/-! ## 1. Registries outside the trees -/

theorem registered_free_congr (h : s'.registries = s.registries) (i : Nat) :
    s'.registered (.free i) = s.registered (.free i) := by rw [registered, registered, h]

@[simp]
theorem registries_modifyTree (s : Store ρ) (t : TreeId) (f : Tree ρ → Tree ρ) :
    (s.modifyTree t f).registries = s.registries := rfl

@[simp]
theorem registries_get (s : Store ρ) (o : ObjectId) (key : String) :
    (s.get o key).2.registries = s.registries := by
  have hcollect : ∀ s : Store ρ, (s.collectAt o).registries = s.registries := by
    intro s
    rw [collectAt]
    split <;> rfl
  refine (hcollect (s.resolve o key).2).trans ?_
  rcases resolve_cases s o key with h | ⟨fields, -, h⟩
  · rw [h]
  · rw [h]
    rfl

@[simp]
theorem registries_watch (s : Store ρ) (o : ObjectId) (key : String) (reaction : ρ) :
    (s.watch o key reaction).2.registries = s.registries := by
  cases ha : s.active o.tree with
  | some a =>
    rw [watch_of_active ha]
    rfl
  | none =>
    rw [watch_eq_startWatch ha]
    simp only [modifyWatcher, vacate, startWatch, occupy, addWatcher, issue,
      registries_modifyTree, registries_get]

/-! ## 2. Changes that create no watcher -/

/-- The change neither creates a watcher, nor registers one, nor lets one collect. -/
def Change.Quiet : Change ρ → Prop
  | read _ _ | observe _ _ | newRegistry => True
  | _ => False

/-- Nobody is collecting. -/
def Idle (s : Store ρ) : Prop := ∀ t, s.active t = none

/-- All registries and watchers of `s` are the same in `s'`. -/
structure Steady (s s' : Store ρ) : Prop where
  registered : ∀ r, s'.registered r = s.registered r
  watcher : ∀ w, s'.watcher? w = s.watcher? w
  active : ∀ t, s'.active t = s.active t

theorem Steady.refl (s : Store ρ) : s.Steady s := ⟨fun _ => rfl, fun _ => rfl, fun _ => rfl⟩

theorem Steady.trans {s'' : Store ρ} (h : s.Steady s') (h' : s'.Steady s'') : s.Steady s'' :=
  ⟨fun r => (h'.registered r).trans (h.registered r),
    fun w => (h'.watcher w).trans (h.watcher w), fun t => (h'.active t).trans (h.active t)⟩

theorem Steady.idle (h : s.Steady s') (hi : s.Idle) : s'.Idle := fun t => (h.active t).trans (hi t)

-- A read registers nobody unless somebody is collecting in that tree.
theorem steady_get_of_active {o : ObjectId} (h : s.active o.tree = none) (key : String) :
    s.Steady (s.get o key).2 := by
  refine ⟨fun r => ?_, watcher?_get s o key, active_get s o key⟩
  cases r with
  | ofObject q =>
    rw [registered_get, h, Option.toList_none, List.append_nil, ite_self]
  | free i => exact registered_free_congr (registries_get s o key) i

theorem steady_get (hi : s.Idle) (o : ObjectId) (key : String) : s.Steady (s.get o key).2 :=
  steady_get_of_active (hi o.tree) key

theorem steady_write (s : Store ρ) (o : ObjectId) (key : String) (v : Value) :
    s.Steady (s.write o key v) := by
  refine ⟨fun r => ?_, watcher?_write s o key v, active_write s o key v⟩
  cases r with
  | ofObject q => exact registered_write s o key v q
  | free i => exact registered_free_congr rfl i

theorem steady_newRegistry (s : Store ρ) : s.Steady s.newRegistry.2 := by
  refine ⟨fun r => ?_, fun _ => rfl, fun _ => rfl⟩
  cases r with
  | ofObject q => rfl
  | free i =>
    show ((s.registries.push []).get? i).getD [] = (s.registries.get? i).getD []
    rw [Arena.get?_push]
    split
    · rename_i hi
      rw [(Arena.get?_eq_none_iff _ _).2 (by omega)]
      rfl
    · rfl

/-- **Without a new watcher** no registry changes. -/
theorem Change.steady {change : Change ρ} (hq : change.Quiet) (hi : s.Idle) :
    s.Steady (change.apply s) := by
  cases change with
  | read o key => exact steady_get hi o key
  | observe fields tree =>
    cases tree with
    | none =>
      refine ⟨fun r => ?_, watcher?_wrap s fields, active_wrap s fields⟩
      cases r with
      | ofObject q => exact registered_wrap s fields q
      | free i => exact registered_free_congr rfl i
    | some t =>
      refine ⟨fun r => ?_, watcher?_wrapIn s t fields, active_wrapIn s t fields⟩
      cases r with
      | ofObject q => exact registered_wrapIn s t fields q
      | free i => exact registered_free_congr rfl i
  | newRegistry => exact steady_newRegistry s
  | _ => exact hq.elim

/-! ## 3. The watchers of an observable -/

/-- The watchers of a tree, in the order of their creation. -/
def watchersIn (s : Store ρ) (t : TreeId) : List WatcherId :=
  (List.range (s.tree t).watchers.size).map (WatcherId.mk t)

/-- The watchers of an observable, in the order of their creation. -/
def watchersOf (s : Store ρ) (o : ObjectId) : List WatcherId :=
  (s.watchersIn o.tree).filter fun w => (s.watcher? w).any fun x => x.source = o

theorem mem_watchersIn {t : TreeId} {w : WatcherId} :
    w ∈ s.watchersIn t ↔ w.tree = t ∧ (s.watcher? w).isSome := by
  obtain ⟨u, i⟩ := w
  simp only [watchersIn, List.mem_map, List.mem_range, WatcherId.mk.injEq, isSome_watcher?_iff]
  constructor
  · rintro ⟨j, hj, rfl, rfl⟩
    exact ⟨rfl, hj⟩
  · rintro ⟨rfl, hi⟩
    exact ⟨i, hi, rfl, rfl⟩

theorem mem_watchersOf {o : ObjectId} {w : WatcherId} :
    w ∈ s.watchersOf o ↔ w.tree = o.tree ∧ ∃ x, s.watcher? w = some x ∧ x.source = o := by
  simp only [watchersOf, List.mem_filter, mem_watchersIn, Option.any_eq_true, decide_eq_true_eq,
    and_assoc]
  refine and_congr_right fun _ => ⟨fun h => h.2, fun ⟨x, hx, hs⟩ => ⟨?_, x, hx, hs⟩⟩
  exact Option.isSome_of_eq_some hx

theorem nodup_watchersOf (s : Store ρ) (o : ObjectId) : (s.watchersOf o).Nodup := by
  refine List.Nodup.filter _ (List.Nodup.map ?_ List.nodup_range)
  intro i j hij
  cases hij
  rfl

theorem watchersOf_congr (h : ∀ w, s'.watcher? w = s.watcher? w) (o : ObjectId) :
    s'.watchersOf o = s.watchersOf o := by
  rw [watchersOf, watchersOf, watchersIn, watchersIn, size_watchers_congr h o.tree]
  exact List.filter_congr fun w _ => by rw [h]

/-! ## 4. The invariant -/

/-- Nobody is collecting, and the registry of every observable lists its watchers. -/
structure Enrolled (s : Store ρ) : Prop where
  idle : s.Idle
  source : ∀ {w x}, s.watcher? w = some x → (s.object? x.source).isSome ∧ w.tree = x.source.tree
  listed : ∀ o, s.registered (.ofObject o) = s.watchersOf o

theorem Enrolled.empty : ({} : Store ρ).Enrolled :=
  ⟨fun _ => rfl, (fun h => nomatch h), fun _ => rfl⟩

theorem Enrolled.steady (h : s.Enrolled) (hs : s.Steady s') (hg : s.Grows s') : s'.Enrolled := by
  refine ⟨hs.idle h.idle, fun {w x} hx => ?_, fun o => ?_⟩
  · rw [hs.watcher] at hx
    exact ⟨hg.object?_isSome (h.source hx).1, (h.source hx).2⟩
  · rw [hs.registered, h.listed, watchersOf_congr hs.watcher]

theorem Enrolled.quiet (h : s.Enrolled) {change : Change ρ} (hq : change.Quiet) :
    (change.apply s).Enrolled :=
  h.steady (change.steady hq h.idle) (change.sameData s).toGrows

variable {o : ObjectId} {key : String} {reaction : ρ} {w : WatcherId}

-- The new watcher comes behind those of its tree.
theorem Watched.watchersIn (hw : s.Watched o key reaction w s')
    (hindex : w = ⟨o.tree, (s.tree o.tree).watchers.size⟩) (ht : s.HasTree o.tree) (t : TreeId) :
    s'.watchersIn t = if o.tree = t then s.watchersIn t ++ [w] else s.watchersIn t := by
  have hfound : ∀ i, (s'.watcher? ⟨t, i⟩).isSome ↔
      (s.watcher? ⟨t, i⟩).isSome ∨ (⟨t, i⟩ : WatcherId) = w := by
    intro i
    constructor
    · intro h
      obtain ⟨y, hy⟩ := Option.isSome_iff_exists.1 h
      exact (hw.only hy).imp Option.isSome_of_eq_some And.left
    · rintro (h | h)
      · obtain ⟨y, hy⟩ := Option.isSome_iff_exists.1 h
        exact Option.isSome_of_eq_some (hw.watcher hy)
      · rw [h, hw.made ht]
        rfl
  simp only [isSome_watcher?_iff, hindex, WatcherId.mk.injEq] at hfound
  by_cases hot : o.tree = t
  · subst hot
    have hsize : (s'.tree o.tree).watchers.size = (s.tree o.tree).watchers.size + 1 := by
      have hnew := (hfound (s.tree o.tree).watchers.size).2 (.inr ⟨rfl, rfl⟩)
      have hlast := (hfound ((s.tree o.tree).watchers.size + 1)).1
      omega
    rw [if_pos rfl, Store.watchersIn, hsize, List.range_succ, List.map_append, hindex]
    rfl
  · have hne : ¬ t = o.tree := fun e => hot e.symm
    have hsize : (s'.tree t).watchers.size = (s.tree t).watchers.size := by
      simp only [hne, false_and, or_false] at hfound
      have h₁ := hfound (s.tree t).watchers.size
      have h₂ := hfound (s'.tree t).watchers.size
      omega
    rw [if_neg hot, Store.watchersIn, hsize]
    rfl

theorem Watched.watchersOf (hw : s.Watched o key reaction w s')
    (hindex : w = ⟨o.tree, (s.tree o.tree).watchers.size⟩) (ht : s.HasTree o.tree) (q : ObjectId) :
    s'.watchersOf q = if o = q then s.watchersOf q ++ [w] else s.watchersOf q := by
  -- the old watchers are filtered as before
  have hold : (s.watchersIn q.tree).filter (fun u => (s'.watcher? u).any fun x => x.source = q) =
      s.watchersOf q := by
    refine List.filter_congr fun u hu => ?_
    obtain ⟨y, hy⟩ := Option.isSome_iff_exists.1 (mem_watchersIn.1 hu).2
    rw [hy, hw.watcher hy]
  rw [Store.watchersOf, hw.watchersIn hindex ht]
  by_cases htree : o.tree = q.tree
  · rw [if_pos htree, List.filter_append, hold, List.filter_cons, hw.made ht]
    by_cases hoq : o = q
    · simp [hoq]
    · simp [hoq]
  · rw [if_neg htree, hold, if_neg fun e => htree (congrArg ObjectId.tree e)]

theorem Enrolled.watched (h : s.Enrolled) (hw : s.Watched o key reaction w s')
    (hindex : w = ⟨o.tree, (s.tree o.tree).watchers.size⟩) (ho : (s.object? o).isSome) :
    s'.Enrolled := by
  refine ⟨fun t => (hw.active t).trans (h.idle t), fun {u x} hu => ?_, fun q => ?_⟩
  · rcases hw.only hu with hu | ⟨rfl, rfl⟩
    · exact ⟨hw.object?_isSome (h.source hu).1, (h.source hu).2⟩
    · exact ⟨hw.object?_isSome ho, by rw [hindex]⟩
  · rw [hw.registered, hw.watchersOf hindex (hasTree_of_object? ho), h.listed]
    by_cases hoq : o = q
    · subst hoq
      rw [if_pos rfl, if_pos ⟨rfl, ho⟩]
    · rw [if_neg hoq, if_neg fun e => hoq e.1]

/-- **A new watcher** of an observable that is there: it is the next of its tree, and goes behind the
    others into the one registry. -/
theorem Enrolled.watch (h : s.Enrolled) (ho : (s.object? o).isSome) (key : String) (reaction : ρ) :
    ∃ w s', s.watch o key reaction = (.ok w, s') ∧ s'.Enrolled ∧
      s.watcher? w = none ∧ (s'.watcher? w).map Watcher.source = some o ∧
      ∀ r, s'.registered r =
        if r = .ofObject o then s.registered r ++ [w] else s.registered r := by
  obtain ⟨w, s', hrun, hw⟩ := watch_of_active_eq_none (h.idle o.tree) key reaction
  have hindex := eq_of_watch (h.idle o.tree) hrun
  have hregistries := registries_watch s o key reaction
  rw [hrun] at hregistries
  refine ⟨w, s', hrun, h.watched hw hindex ho, hw.fresh, ?_, fun r => ?_⟩
  · rw [hw.made (hasTree_of_object? ho)]
    rfl
  · cases r with
    | ofObject q =>
      rw [hw.registered]
      by_cases hoq : o = q
      · subst hoq
        rw [if_pos ⟨rfl, ho⟩, if_pos rfl]
      · rw [if_neg fun e => hoq e.1, if_neg fun e => hoq (RegistryId.ofObject.inj e).symm]
    | free i => exact registered_free_congr hregistries i

end ReactiveView.Store
