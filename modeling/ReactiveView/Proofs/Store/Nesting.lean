import ReactiveView.Proofs.Store.Changes

/-!
# Nested observables

Wrapping makes forests: a nested observable stands in one slot of one observable of its tree, which
came before it.  A snapshot therefore comes to its end, however deep the nesting is; and a slot keeps
its observable until it is overwritten, after which that observable does not come back.
-/

namespace ReactiveView.Store

variable {ρ : Type} {s s' s'' : Store ρ}

/-! ## 1. Forests -/

/-- The observable `n` stands under the property `key` of `o`. -/
def Nests (s : Store ρ) (o : ObjectId) (key : String) (n : ObjectId) : Prop :=
  ∃ slots, s.slots? o = some slots ∧ (key, .nested n) ∈ slots

/-- The observable `n` stands under some property of `o`. -/
def Parent (s : Store ρ) (o n : ObjectId) : Prop := ∃ key, s.Nests o key n

/-- Nested observables are there, in the tree of their parents, and each has come after its only
    parent. -/
structure Forest (s : Store ρ) : Prop where
  present : ∀ {o key n}, s.Nests o key n → (s.object? n).isSome
  tree : ∀ {o key n}, s.Nests o key n → n.tree = o.tree
  below : ∀ {o key n}, s.Nests o key n → o.index < n.index
  single : ∀ {o key n q l}, s.Nests o key n → s.Nests q l n → q = o ∧ l = key

theorem nests_of_slot? {o : ObjectId} {key : String} {n : ObjectId}
    (h : s.slot? o key = some (.nested n)) : s.Nests o key n := by
  rw [slot?_eq_bind] at h
  obtain ⟨slots, hslots, hget⟩ := Option.bind_eq_some_iff.1 h
  exact ⟨slots, hslots, Fields.mem_of_get? hget⟩

theorem Forest.empty : ({} : Store ρ).Forest := by
  have hnone : ∀ {o key n}, ¬ ({} : Store ρ).Nests o key n := fun ⟨_, h, _⟩ => nomatch h
  exact ⟨fun h => (hnone h).elim, fun h => (hnone h).elim, fun h => (hnone h).elim,
    fun h => (hnone h).elim⟩

-- Plain data nests nothing.
theorem not_nested_mem_plain {fields : Fields Value} {key : String} {n : ObjectId} :
    (key, Slot.nested n) ∉ Fields.mapValues Slot.plain fields := by
  intro h
  obtain ⟨e, -, he⟩ := List.mem_map.1 h
  cases he

-- A change adds at most one nested observable, which was not there before.
theorem Reslots.nests {new : Fields Value → Prop} (h : Reslots new s s') :
    (∀ {q l m}, s'.Nests q l m → s.Nests q l m) ∨
    ∃ o key n, s.object? n = none ∧ (s'.object? n).isSome ∧ n.tree = o.tree ∧
      o.index < n.index ∧
      ∀ {q l m}, s'.Nests q l m → s.Nests q l m ∨ q = o ∧ l = key ∧ m = n := by
  rcases h with h | ⟨n, fields, -, -, h⟩ | ⟨o, key, n, fields, hslot, hn, htree, hlt, h⟩
  · refine .inl fun {q l m} ⟨slots, hslots, hmem⟩ => ⟨slots, ?_, hmem⟩
    rw [← h, hslots]
  · refine .inl fun {q l m} ⟨slots, hslots, hmem⟩ => ?_
    rw [h] at hslots
    split at hslots
    · cases hslots
      exact (not_nested_mem_plain hmem).elim
    · exact ⟨slots, hslots, hmem⟩
  · refine .inr ⟨o, key, n, hn, ?_, htree, hlt, fun {q l m} ⟨slots, hslots, hmem⟩ => ?_⟩
    · rw [← isSome_slots?, h, if_pos rfl]
      rfl
    · rw [h] at hslots
      split at hslots
      · cases hslots
        exact (not_nested_mem_plain hmem).elim
      · split at hslots
        · rename_i hqo
          obtain ⟨old, hold, rfl⟩ := Option.map_eq_some_iff.1 hslots
          rcases Fields.mem_insert hmem with he | hmem
          · cases he
            exact .inr ⟨hqo, rfl, rfl⟩
          · exact .inl ⟨old, hold, hmem⟩
        · exact .inl ⟨slots, hslots, hmem⟩

theorem Forest.of_nests (h : s.Forest)
    (hsome : ∀ {o}, (s.object? o).isSome → (s'.object? o).isSome)
    (hn : ∀ {o key n}, s'.Nests o key n → s.Nests o key n) : s'.Forest :=
  ⟨fun hs => hsome (h.present (hn hs)), fun hs => h.tree (hn hs), fun hs => h.below (hn hs),
    fun hs hs' => h.single (hn hs) (hn hs')⟩

theorem Forest.reslots {new : Fields Value → Prop} (h : s.Forest) (hg : s.Grows s')
    (hr : Reslots new s s') : s'.Forest := by
  rcases hr.nests with hold | ⟨o, key, n, hnone, hsome, htree, hlt, honly⟩
  · exact h.of_nests hg.object?_isSome hold
  · -- whatever was nested before was there, unlike the new observable
    have hfresh : ∀ {q l}, ¬ s.Nests q l n := fun hq => by
      have hpresent := h.present hq
      rw [hnone] at hpresent
      cases hpresent
    refine ⟨fun hs => ?_, fun hs => ?_, fun hs => ?_, fun {q l m q' l'} hs hs' => ?_⟩
    · rcases honly hs with hs | ⟨rfl, rfl, rfl⟩
      · exact hg.object?_isSome (h.present hs)
      · exact hsome
    · rcases honly hs with hs | ⟨rfl, rfl, rfl⟩
      · exact h.tree hs
      · exact htree
    · rcases honly hs with hs | ⟨rfl, rfl, rfl⟩
      · exact h.below hs
      · exact hlt
    · rcases honly hs with hs | ⟨rfl, rfl, rfl⟩ <;> rcases honly hs' with hs' | ⟨rfl, rfl, he⟩
      · exact h.single hs hs'
      · exact (hfresh (he ▸ hs)).elim
      · exact (hfresh hs').elim
      · exact ⟨rfl, rfl⟩

/-- **Nothing but wrapping nests observables.** -/
theorem Forest.change (h : s.Forest) (change : Change ρ) : (change.apply s).Forest :=
  h.reslots (change.sameData s).toGrows (change.reslots s)

theorem nests_of_write {o : ObjectId} {key : String} {v : Value} {q : ObjectId} {l : String}
    {n : ObjectId} (h : (s.write o key v).Nests q l n) : s.Nests q l n := by
  obtain ⟨slots, hslots, hmem⟩ := h
  rw [slots?_write] at hslots
  split at hslots
  · obtain ⟨old, hold, rfl⟩ := Option.map_eq_some_iff.1 hslots
    rcases Fields.mem_insert hmem with he | hmem
    · cases he
    · exact ⟨old, hold, hmem⟩
  · exact ⟨slots, hslots, hmem⟩

theorem Forest.write (h : s.Forest) (o : ObjectId) (key : String) (v : Value) :
    (s.write o key v).Forest :=
  h.of_nests (grows_write s o key v).object?_isSome nests_of_write

theorem Forest.lt_of_transGen (h : s.Forest) {o n : ObjectId}
    (hp : Relation.TransGen s.Parent o n) : o.index < n.index := by
  induction hp with
  | single hp =>
    obtain ⟨key, hn⟩ := hp
    exact h.below hn
  | tail _ hp ih =>
    obtain ⟨key, hn⟩ := hp
    exact Nat.lt_trans ih (h.below hn)

/-- **Nobody is nested in itself**, at any depth. -/
theorem Forest.acyclic (h : s.Forest) (o : ObjectId) : ¬ Relation.TransGen s.Parent o o :=
  fun hp => Nat.lt_irrefl _ (h.lt_of_transGen hp)

/-! ## 2. Snapshots -/

/-- The plain form of what a slot holds. -/
def slotValue (s : Store ρ) : Slot → Value
  | .plain v => v
  | .nested n => s.snapshot n

theorem snapshotTo_of_none {o : ObjectId} (h : s.object? o = none) (depth : Nat) :
    s.snapshotTo depth o = .object [] := by
  cases depth with
  | zero => rfl
  | succ depth => rw [snapshotTo, h]

theorem snapshot_of_none {o : ObjectId} (h : s.object? o = none) : s.snapshot o = .object [] :=
  snapshotTo_of_none h _

/-- The plain form of what a slot holds, down to `depth` levels of nesting. -/
def slotValueTo (s : Store ρ) (depth : Nat) : Slot → Value
  | .plain v => v
  | .nested n => s.snapshotTo depth n

theorem snapshotTo_of_some {o : ObjectId} {x : Object} (h : s.object? o = some x) (depth : Nat) :
    s.snapshotTo (depth + 1) o = .object (Fields.mapValues (s.slotValueTo depth) x.slots) := by
  rw [snapshotTo, h]
  rfl

-- What is made of slots depends on the plain values in them and on the nested observables.
theorem mapValues_slots_congr {α : Type} {slots : Fields Slot} {f g : Slot → α}
    (hplain : ∀ v, f (.plain v) = g (.plain v))
    (hnested : ∀ {key n}, (key, Slot.nested n) ∈ slots → f (.nested n) = g (.nested n)) :
    Fields.mapValues f slots = Fields.mapValues g slots := by
  refine List.map_congr_left fun e he => ?_
  obtain ⟨key, slot⟩ := e
  cases slot with
  | plain v => exact congrArg (Prod.mk key) (hplain v)
  | nested n => exact congrArg (Prod.mk key) (hnested he)

-- More depth than there are observables behind `o` changes nothing.
theorem Forest.snapshotTo_congr (h : s.Forest) {d d' : Nat} {o : ObjectId}
    (hd : (s.tree o.tree).objects.size ≤ d + o.index)
    (hd' : (s.tree o.tree).objects.size ≤ d' + o.index) :
    s.snapshotTo d o = s.snapshotTo d' o := by
  induction d generalizing d' o with
  | zero =>
    have hnone : s.object? o = none := (Arena.get?_eq_none_iff _ _).2 (by omega)
    rw [snapshotTo_of_none hnone, snapshotTo_of_none hnone]
  | succ d ih =>
    cases ho : s.object? o with
    | none => rw [snapshotTo_of_none ho, snapshotTo_of_none ho]
    | some x =>
      have hlt : o.index < (s.tree o.tree).objects.size :=
        (Arena.get?_isSome_iff _ _).1 (Option.isSome_of_eq_some ho)
      obtain ⟨d', rfl⟩ : ∃ k, d' = k + 1 := ⟨d' - 1, by omega⟩
      rw [snapshotTo_of_some ho, snapshotTo_of_some ho]
      refine congrArg Value.object (mapValues_slots_congr (fun _ => rfl) fun {key n} hslot => ?_)
      have hn : s.Nests o key n := ⟨x.slots, by rw [slots?, ho]; rfl, hslot⟩
      have hbelow := h.below hn
      have htree := h.tree hn
      exact ih (by rw [htree]; omega) (by rw [htree]; omega)

/-- **What a snapshot is**: the values of all slots, where those of nested observables are their
    snapshots. -/
theorem Forest.snapshot_eq (h : s.Forest) {o : ObjectId} {x : Object} (ho : s.object? o = some x) :
    s.snapshot o = .object (Fields.mapValues s.slotValue x.slots) := by
  have hlt : o.index < (s.tree o.tree).objects.size :=
    (Arena.get?_isSome_iff _ _).1 (Option.isSome_of_eq_some ho)
  obtain ⟨d, hd⟩ : ∃ d, (s.tree o.tree).objects.size = d + 1 :=
    ⟨(s.tree o.tree).objects.size - 1, by omega⟩
  rw [snapshot, hd, snapshotTo_of_some ho]
  refine congrArg Value.object (mapValues_slots_congr (fun _ => rfl) fun {key n} hslot => ?_)
  have hn : s.Nests o key n := ⟨x.slots, by rw [slots?, ho]; rfl, hslot⟩
  have hbelow := h.below hn
  have htree := h.tree hn
  exact h.snapshotTo_congr (by rw [htree]; omega) (by omega)

/-! ## 3. Two moments -/

/-- What has become of `s` where just the properties in `W` may have been written. -/
structure Since (W : ObjectId → String → Prop) (s s' : Store ρ) : Prop where
  grows : s.Grows s'
  slot : ∀ {o}, (s.object? o).isSome → ∀ {key}, ¬ W o key →
    s'.slot? o key = s.slot? o key ∨
      ∃ fields n, s.slot? o key = some (.plain (.object fields)) ∧
        s'.slot? o key = some (.nested n) ∧ s.object? n = none
  nested : ∀ {o key n}, s'.slot? o key = some (.nested n) →
    s.object? n = none ∨ ¬ W o key ∧ s.slot? o key = some (.nested n)

theorem Since.refl (s : Store ρ) : s.Since (fun _ _ => False) s :=
  ⟨.refl s, fun _ _ _ => .inl rfl, fun h => .inr ⟨id, h⟩⟩

-- What a slot nests after a change was nested there before, or is new.
theorem Reslots.slot? {new : Fields Value → Prop} (h : Reslots new s s') {o : ObjectId}
    {key : String} {n : ObjectId} (hn : s'.slot? o key = some (.nested n)) :
    s.object? n = none ∨ s.slot? o key = some (.nested n) := by
  have hs : ∀ {q}, s'.slots? q = s.slots? q → s'.slot? q key = s.slot? q key := by
    intro q hq
    rw [slot?_eq_bind, slot?_eq_bind, hq]
  have hplain : ∀ {q fields}, s'.slots? q = some (Fields.mapValues .plain fields) →
      s'.slot? q key ≠ some (.nested n) := by
    intro q fields hq
    rw [slot?_eq_bind, hq]
    simp [Fields.get?_mapValues]
  rcases h with h | ⟨m, fields, -, -, h⟩ | ⟨q, l, m, fields, -, hm, -, -, h⟩
  · exact .inr ((hs (h o)).symm.trans hn)
  · by_cases ho : o = m
    · exact (hplain ((h o).trans (if_pos ho)) hn).elim
    · exact .inr ((hs ((h o).trans (if_neg ho))).symm.trans hn)
  · by_cases ho : o = m
    · exact (hplain ((h o).trans (if_pos ho)) hn).elim
    · by_cases hq : o = q
      · have hslots := (h o).trans ((if_neg ho).trans (if_pos hq))
        rw [slot?_eq_bind, hslots, Option.bind_map] at hn
        obtain ⟨old, hold, hget⟩ := Option.bind_eq_some_iff.1 hn
        rw [Function.comp_apply, Fields.get?_insert] at hget
        split at hget
        · cases hget
          exact .inl hm
        · refine .inr ?_
          rw [slot?_eq_bind, hold]
          exact hget
      · exact .inr ((hs ((h o).trans ((if_neg ho).trans (if_neg hq)))).symm.trans hn)

theorem Since.change {W : ObjectId → String → Prop} (h : s.Since W s') (change : Change ρ) :
    s.Since W (change.apply s') := by
  have hd := change.sameData s'
  refine ⟨h.grows.trans hd.toGrows, fun {o} ho {key} hW => ?_, fun {o key n} hn => ?_⟩
  · rcases h.slot ho hW with hs | ⟨fields, n, hs, hs', hfresh⟩ <;>
      rcases hd.slot (h.grows.object?_isSome ho) key with hs₂ | ⟨fields', n', hp, hp', hfresh'⟩
    · exact .inl (hs₂.trans hs)
    · exact .inr ⟨fields', n', hs ▸ hp, hp', h.grows.object?_eq_none hfresh'⟩
    · exact .inr ⟨fields, n, hs, hs₂.trans hs', hfresh⟩
    · rw [hs'] at hp
      cases hp
  · rcases (change.reslots s').slot? hn with hfresh | hs'
    · exact .inl (h.grows.object?_eq_none hfresh)
    · exact h.nested hs'

theorem slot?_write_of_none {o : ObjectId} (h : s.object? o = none) (key : String) (v : Value)
    (q : ObjectId) (l : String) : (s.write o key v).slot? q l = s.slot? q l := by
  have hslots : (s.write o key v).slots? q = s.slots? q := by
    rw [slots?_write]
    split
    · rename_i hq
      rw [hq, slots?_eq_none_iff.2 h]
      rfl
    · rfl
  rw [slot?_eq_bind, slot?_eq_bind, hslots]

theorem slot?_write_of_ne {o : ObjectId} {key : String} {q : ObjectId} {l : String}
    (h : ¬ (q = o ∧ l = key)) (v : Value) : (s.write o key v).slot? q l = s.slot? q l := by
  cases ho : s.object? o with
  | none => exact slot?_write_of_none ho key v q l
  | some x =>
    rw [slot?_write (Option.isSome_of_eq_some ho), if_neg fun e => h ⟨e.1.symm, e.2.symm⟩]

theorem Since.write {W : ObjectId → String → Prop} (h : s.Since W s') (o : ObjectId)
    (key : String) (v : Value) :
    s.Since (fun q l => W q l ∨ q = o ∧ l = key) (s'.write o key v) := by
  refine ⟨h.grows.trans (grows_write s' o key v), fun {q} hq {l} hW => ?_,
    fun {q l n} hn => ?_⟩
  · rw [slot?_write_of_ne fun e => hW (.inr e)]
    exact h.slot hq fun e => hW (.inl e)
  · by_cases hql : q = o ∧ l = key
    · -- the slot holds plain data, or is not there at all
      obtain ⟨rfl, rfl⟩ := hql
      cases ho : s'.object? q with
      | none =>
        have hsome := object?_isSome_of_slot? ((slot?_write_of_none ho l v q l).symm.trans hn)
        rw [ho] at hsome
        cases hsome
      | some x =>
        rw [slot?_write (Option.isSome_of_eq_some ho), if_pos ⟨rfl, rfl⟩] at hn
        cases hn
    · rw [slot?_write_of_ne hql] at hn
      refine (h.nested hn).imp_right fun hs => ⟨?_, hs.2⟩
      rintro (hW | he)
      · exact hs.1 hW
      · exact hql he

end ReactiveView.Store
