import ReactiveView.Proofs.Store.Changes

/-!
# Numbers of watchers

Every attempt to create a watcher uses up the next number of its tree, also one that fails, and
nothing else does.  So the numbers of a tree start at one and rise in the order in which its watchers
were created.
-/

namespace ReactiveView.Store

variable {ρ : Type} {s s' : Store ρ}

/-! ## 1. Numbers given out -/

/-- How many watcher numbers a tree has given out. -/
def issued (s : Store ρ) (t : TreeId) : Nat := (s.tree t).issued

theorem issued_of_not_hasTree {t : TreeId} (h : ¬ s.HasTree t) : s.issued t = 0 := by
  rw [issued, tree_of_not_hasTree h]

theorem issued_write (s : Store ρ) (o : ObjectId) (key : String) (v : Value) (u : TreeId) :
    (s.write o key v).issued u = s.issued u := by
  simp only [issued, write, setSlot, modifyObject]
  rw [modifyTree_congr _ _ _ _ Tree.issued rfl]

theorem issued_wrapIn (s : Store ρ) (t : TreeId) (fields : Fields Value) (u : TreeId) :
    (s.wrapIn t fields).2.issued u = s.issued u := by
  simp only [issued, wrapIn]
  rw [modifyTree_congr _ _ _ _ Tree.issued rfl]

theorem issued_wrap (s : Store ρ) (fields : Fields Value) (u : TreeId) :
    (s.wrap fields).2.issued u = s.issued u := by
  refine (issued_wrapIn s.newTree.2 s.newTree.1 fields u).trans ?_
  rw [issued, issued, tree_newTree]

-- A new tree has given out no number.
theorem issued_wrap_fst (s : Store ρ) (fields : Fields Value) :
    (s.wrap fields).2.issued (s.wrap fields).1.tree = 0 := by
  rw [issued_wrap]
  refine issued_of_not_hasTree fun h => ?_
  have hlt := (Arena.get?_isSome_iff _ _).1 h
  exact Nat.lt_irrefl _ hlt

theorem issued_register (s : Store ρ) (r : RegistryId) (w : WatcherId) (u : TreeId) :
    (s.register r w).issued u = s.issued u := by
  cases r with
  | ofObject o =>
    simp only [issued, register, modifyObject]
    rw [modifyTree_congr _ _ _ _ Tree.issued rfl]
  | free i => rfl

theorem issued_resolve (s : Store ρ) (o : ObjectId) (key : String) (u : TreeId) :
    (s.resolve o key).2.issued u = s.issued u := by
  rcases resolve_cases s o key with h | ⟨fields, -, h⟩
  · rw [h]
  · rw [h]
    refine Eq.trans ?_ (issued_wrapIn s o.tree fields u)
    simp only [issued, setSlot, modifyObject]
    rw [modifyTree_congr _ _ _ _ Tree.issued rfl]

theorem issued_get (s : Store ρ) (o : ObjectId) (key : String) (u : TreeId) :
    (s.get o key).2.issued u = s.issued u := by
  have hcollect : ∀ s : Store ρ, (s.collectAt o).issued u = s.issued u := by
    intro s
    rw [collectAt]
    cases s.active o.tree with
    | none => rfl
    | some w => exact issued_register s (.ofObject o) w u
  exact (hcollect (s.resolve o key).2).trans (issued_resolve s o key u)

theorem issued_occupy (s : Store ρ) (t : TreeId) (w : WatcherId) (u : TreeId) :
    (s.occupy t w).issued u = s.issued u := by
  simp only [issued, occupy]
  rw [modifyTree_congr _ _ _ _ Tree.issued rfl]

theorem issued_vacate (s : Store ρ) (t u : TreeId) : (s.vacate t).issued u = s.issued u := by
  simp only [issued, vacate]
  rw [modifyTree_congr _ _ _ _ Tree.issued rfl]

theorem issued_addWatcher (s : Store ρ) (t : TreeId) (x : Watcher ρ) (u : TreeId) :
    (s.addWatcher t x).2.issued u = s.issued u := by
  simp only [issued, addWatcher]
  rw [modifyTree_congr _ _ _ _ Tree.issued rfl]

theorem issued_modifyWatcher (s : Store ρ) (w : WatcherId) (f : Watcher ρ → Watcher ρ)
    (u : TreeId) : (s.modifyWatcher w f).issued u = s.issued u := by
  simp only [issued, modifyWatcher]
  rw [modifyTree_congr _ _ _ _ Tree.issued rfl]

theorem issued_issue {t : TreeId} (h : s.HasTree t) (u : TreeId) :
    (s.issue t).2.issued u = if t = u then s.issued u + 1 else s.issued u := by
  simp only [issued, issue]
  rw [tree_modifyTree s t _ u fun e => e ▸ h]
  split <;> rfl

/-- **Every attempt counts**: a watcher that could not be created has used up its number. -/
theorem issued_watch (s : Store ρ) (o : ObjectId) (key : String) (reaction : ρ) (u : TreeId) :
    (s.watch o key reaction).2.issued u = (s.issue o.tree).2.issued u := by
  cases ha : s.active o.tree with
  | some a => rw [watch_of_active ha]
  | none =>
    rw [watch_eq_startWatch ha, issued_modifyWatcher, issued_vacate, issued_get, startWatch,
      issued_occupy, issued_addWatcher]

theorem issued_le_watch (s : Store ρ) (o : ObjectId) (key : String) (reaction : ρ) (u : TreeId) :
    s.issued u ≤ (s.watch o key reaction).2.issued u := by
  rw [issued_watch]
  by_cases h : s.HasTree o.tree
  · rw [issued_issue h]
    split <;> omega
  · simp only [issue, issued, modifyTree_of_not_hasTree h, Nat.le_refl]

-- A change that creates no watcher leaves the watchers and the numbers alone.
theorem Change.watch_or_same (change : Change ρ) (s : Store ρ) :
    (∃ o key reaction, change = .watch o key reaction) ∨
      (∀ w, (change.apply s).watcher? w = s.watcher? w) ∧
        ∀ t, (change.apply s).issued t = s.issued t := by
  cases change with
  | watch o key reaction => exact .inl ⟨o, key, reaction, rfl⟩
  | read o key => exact .inr ⟨watcher?_get s o key, issued_get s o key⟩
  | observe fields tree =>
    cases tree with
    | none => exact .inr ⟨watcher?_wrap s fields, issued_wrap s fields⟩
    | some t => exact .inr ⟨watcher?_wrapIn s t fields, issued_wrapIn s t fields⟩
  | newRegistry => exact .inr ⟨fun _ => rfl, fun _ => rfl⟩
  | register r w => exact .inr ⟨watcher?_register s r w, issued_register s r w⟩
  | begin t w =>
    rcases begin_cases s t w with h | ⟨-, h⟩
    · rw [h]
      exact .inr ⟨fun _ => rfl, fun _ => rfl⟩
    · rw [h]
      exact .inr ⟨watcher?_occupy s t w, issued_occupy s t w⟩
  | vacate t => exact .inr ⟨watcher?_vacate s t, issued_vacate s t⟩

theorem Change.issued_le (change : Change ρ) (s : Store ρ) (t : TreeId) :
    s.issued t ≤ (change.apply s).issued t := by
  rcases change.watch_or_same s with ⟨o, key, reaction, rfl⟩ | ⟨-, h⟩
  · exact issued_le_watch s o key reaction t
  · exact Nat.le_of_eq (h t).symm

/-! ## 2. Numbers of watchers -/

/-- The numbers of the watchers have been given out, and rise in each tree in the order in which its
    watchers were created. -/
structure Numbered (s : Store ρ) : Prop where
  given : ∀ {w x}, s.watcher? w = some x → 0 < x.number ∧ x.number ≤ s.issued w.tree
  rising : ∀ {t i j x y}, s.watcher? ⟨t, i⟩ = some x → s.watcher? ⟨t, j⟩ = some y → i < j →
    x.number < y.number

theorem Numbered.empty : ({} : Store ρ).Numbered :=
  ⟨(fun h => nomatch h), (fun h => nomatch h)⟩

-- No two watchers of a tree have one number.
theorem Numbered.eq_of_number (h : s.Numbered) {w w' : WatcherId} {x x' : Watcher ρ}
    (hx : s.watcher? w = some x) (hx' : s.watcher? w' = some x') (ht : w.tree = w'.tree)
    (hn : x.number = x'.number) : w = w' := by
  obtain ⟨t, i⟩ := w
  obtain ⟨u, j⟩ := w'
  cases (ht : t = u)
  rcases Nat.lt_trichotomy i j with hij | rfl | hij
  · exact absurd hn (Nat.ne_of_lt (h.rising hx hx' hij))
  · rfl
  · exact absurd hn.symm (Nat.ne_of_lt (h.rising hx' hx hij))

theorem Numbered.of_watcher (h : s.Numbered) (hw : ∀ w, s'.watcher? w = s.watcher? w)
    (hi : ∀ t, s.issued t ≤ s'.issued t) : s'.Numbered := by
  refine ⟨fun {w x} hx => ?_, fun {t i j x y} hx hy hij => ?_⟩
  · rw [hw] at hx
    exact ⟨(h.given hx).1, Nat.le_trans (h.given hx).2 (hi _)⟩
  · rw [hw] at hx hy
    exact h.rising hx hy hij

theorem Numbered.write (h : s.Numbered) (o : ObjectId) (key : String) (v : Value) :
    (s.write o key v).Numbered :=
  h.of_watcher (watcher?_write s o key v) fun t => Nat.le_of_eq (issued_write s o key v t).symm

theorem Numbered.watch (h : s.Numbered) (o : ObjectId) (key : String) (reaction : ρ) :
    (s.watch o key reaction).2.Numbered := by
  have hle := issued_le_watch s o key reaction
  have hissued := issued_watch s o key reaction o.tree
  cases ha : s.active o.tree with
  | some a =>
    rw [watch_of_active ha] at hle ⊢
    exact h.of_watcher (watcher?_issue s o.tree) hle
  | none =>
    obtain ⟨w, s', hrun, hw⟩ := watch_of_active_eq_none ha key reaction
    have hindex := eq_of_watch ha hrun
    rw [hrun] at hle hissued ⊢
    refine ⟨fun {u x} hx => ?_, fun {t i j x y} hx hy hij => ?_⟩
    · rcases hw.only hx with hx' | ⟨rfl, rfl⟩
      · exact ⟨(h.given hx').1, Nat.le_trans (h.given hx').2 (hle _)⟩
      · rw [issued_issue (hasTree_of_watch ha hrun hx), if_pos rfl] at hissued
        rw [hindex]
        exact ⟨Nat.succ_pos _, Nat.le_of_eq hissued.symm⟩
    -- the new watcher is the last of its tree, and has the highest number
    · have hlt : ∀ {k z}, s.watcher? ⟨t, k⟩ = some z → k < (s.tree t).watchers.size :=
        fun hz => (isSome_watcher?_iff s ⟨t, _⟩).1 (Option.isSome_of_eq_some hz)
      rcases hw.only hx with hx' | ⟨hi, rfl⟩ <;> rcases hw.only hy with hy' | ⟨hj, rfl⟩
      · exact h.rising hx' hy' hij
      · rw [hindex] at hj
        cases hj
        exact Nat.lt_succ_of_le (h.given hx').2
      · rw [hindex] at hi
        cases hi
        have := hlt hy'
        omega
      · rw [← hj] at hi
        cases hi
        omega

theorem Numbered.change (h : s.Numbered) (change : Change ρ) : (change.apply s).Numbered := by
  rcases change.watch_or_same s with ⟨o, key, reaction, rfl⟩ | ⟨hw, hi⟩
  · exact h.watch o key reaction
  · exact h.of_watcher hw fun t => Nat.le_of_eq (hi t).symm

end ReactiveView.Store
