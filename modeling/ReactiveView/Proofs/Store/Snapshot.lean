import ReactiveView.Proofs.Store.Nesting

/-!
# Snapshots of a changed store

What a snapshot does not show, and what it does: wrapping is invisible in it, and a write shows at
the end of the path that leads to the observable that is written.  Keys are assumed to come in
ascending order throughout, as they do in every object that is made with `Value.ofFields`.
-/

namespace ReactiveView

/-! ## 1. Values at the end of a path -/

namespace Value

/-- The object with `v` under `key`. -/
def put (key : String) (v : Value) : Value → Value
  | object fields => object (Fields.insert fields key v)
  | u => u

/-- The value in which what stands at the end of a path has been changed. -/
def changeAt (f : Value → Value) : List String → Value → Value
  | [], u => f u
  | key :: path, object fields =>
    match Fields.get? fields key with
    | some u => object (Fields.insert fields key (changeAt f path u))
    | none => object fields
  | _ :: _, u => u

theorem changeAt_cons {f : Value → Value} {key : String} {path : List String}
    {fields : Fields Value} {u : Value} (h : Fields.get? fields key = some u) :
    changeAt f (key :: path) (object fields) =
      object (Fields.insert fields key (changeAt f path u)) := by
  rw [changeAt, h]

theorem WellFormedFields.of_mem {fields : Fields Value} (h : WellFormedFields fields)
    {key : String} {v : Value} (hm : (key, v) ∈ fields) : v.WellFormed := by
  induction fields with
  | nil => cases hm
  | cons e rest ih =>
    rcases List.mem_cons.1 hm with he | hm
    · rw [← he] at h
      exact h.1
    · exact ih h.2 hm

end Value

-- Storing again what is there changes nothing.
theorem Fields.Ordered.insert_of_get? {α : Type} {fs : Fields α} (h : Fields.Ordered fs)
    {key : String} {a : α} (ha : Fields.get? fs key = some a) : Fields.insert fs key a = fs := by
  refine (h.insert key a).ext h fun l => ?_
  rw [Fields.get?_insert]
  split
  · rename_i hl
    rw [← hl, ha]
  · rfl

namespace Store

variable {ρ : Type} {s s' s'' : Store ρ}

/-! ## 2. Ordered slots -/

/-- The slots of all observables, and the plain data in them, have their keys in order. -/
structure Mapped (s : Store ρ) : Prop where
  ordered : ∀ {o slots}, s.slots? o = some slots → Fields.Ordered slots
  wellFormed : ∀ {o slots key v}, s.slots? o = some slots → (key, .plain v) ∈ slots → v.WellFormed

theorem Mapped.empty : ({} : Store ρ).Mapped := ⟨(fun h => nomatch h), (fun h => nomatch h)⟩

theorem mem_mapValues_plain {fields : Fields Value} {key : String} {v : Value}
    (h : (key, Slot.plain v) ∈ Fields.mapValues Slot.plain fields) : (key, v) ∈ fields := by
  obtain ⟨e, he, heq⟩ := List.mem_map.1 h
  cases heq
  exact he

variable {new : Fields Value → Prop}

theorem Mapped.reslots (h : s.Mapped) (hnew : ∀ fields, new fields → (Value.object fields).WellFormed)
    (hr : Reslots new s s') : s'.Mapped := by
  have hplain : ∀ {fields : Fields Value}, (Value.object fields).WellFormed →
      Fields.Ordered (Fields.mapValues Slot.plain fields) ∧
        ∀ {key v}, (key, .plain v) ∈ Fields.mapValues Slot.plain fields → v.WellFormed :=
    fun hw => ⟨hw.1.mapValues _, fun hm => hw.2.of_mem (mem_mapValues_plain hm)⟩
  rcases hr with hr | ⟨n, fields, hf, -, hr⟩ | ⟨o, key, n, fields, hslot, -, -, -, hr⟩
  · exact ⟨fun {q _} hs => h.ordered ((hr q).symm.trans hs),
      fun {q _ _ _} hs hm => h.wellFormed ((hr q).symm.trans hs) hm⟩
  · refine ⟨fun {q slots} hs => ?_, fun {q slots l v} hs hm => ?_⟩
    · rw [hr] at hs
      split at hs
      · cases hs
        exact (hplain (hnew _ hf)).1
      · exact h.ordered hs
    · rw [hr] at hs
      split at hs
      · cases hs
        exact (hplain (hnew _ hf)).2 hm
      · exact h.wellFormed hs hm
  · -- the object that is wrapped was in order where it stood
    rw [slot?_eq_bind] at hslot
    obtain ⟨old, hold, hget⟩ := Option.bind_eq_some_iff.1 hslot
    have hfields := h.wellFormed hold (Fields.mem_of_get? hget)
    refine ⟨fun {q slots} hs => ?_, fun {q slots l v} hs hm => ?_⟩
    · rw [hr] at hs
      split at hs
      · cases hs
        exact (hplain hfields).1
      · split at hs
        · obtain ⟨slots', hs', rfl⟩ := Option.map_eq_some_iff.1 hs
          exact (h.ordered hs').insert _ _
        · exact h.ordered hs
    · rw [hr] at hs
      split at hs
      · cases hs
        exact (hplain hfields).2 hm
      · split at hs
        · obtain ⟨slots', hs', rfl⟩ := Option.map_eq_some_iff.1 hs
          rcases Fields.mem_insert hm with he | hm
          · cases he
          · exact h.wellFormed hs' hm
        · exact h.wellFormed hs hm

theorem Mapped.write (h : s.Mapped) (o : ObjectId) (key : String) {v : Value}
    (hv : v.WellFormed) : (s.write o key v).Mapped := by
  refine ⟨fun {q slots} hs => ?_, fun {q slots l u} hs hm => ?_⟩
  · rw [slots?_write] at hs
    split at hs
    · obtain ⟨old, hold, rfl⟩ := Option.map_eq_some_iff.1 hs
      exact (h.ordered hold).insert _ _
    · exact h.ordered hs
  · rw [slots?_write] at hs
    split at hs
    · obtain ⟨old, hold, rfl⟩ := Option.map_eq_some_iff.1 hs
      rcases Fields.mem_insert hm with he | hm
      · cases he
        exact hv
      · exact h.wellFormed hold hm
    · exact h.wellFormed hs hm

theorem Mapped.slot?_of_nests (h : s.Mapped) {o : ObjectId} {key : String} {n : ObjectId}
    (hn : s.Nests o key n) : s.slot? o key = some (.nested n) := by
  obtain ⟨slots, hslots, hmem⟩ := hn
  rw [slot?_eq_bind, hslots]
  exact (h.ordered hslots).get?_of_mem hmem

/-! ## 3. Snapshots by induction -/

theorem Forest.snapshot_of_slots? (hf : s.Forest) {o : ObjectId} {slots : Fields Slot}
    (h : s.slots? o = some slots) :
    s.snapshot o = .object (Fields.mapValues s.slotValue slots) := by
  obtain ⟨x, hx, rfl⟩ := Option.map_eq_some_iff.1 h
  exact hf.snapshot_eq hx

-- Nesting is well-founded: a parent may be treated when its nested observables have been.
theorem Forest.induction (hf : s.Forest) {P : ObjectId → Prop}
    (hstep : ∀ o, (∀ {key n}, s.Nests o key n → P n) → P o) (o : ObjectId) : P o := by
  generalize hk : (s.tree o.tree).objects.size - o.index = k
  induction k using Nat.strongRecOn generalizing o with
  | ind k ih =>
    refine hstep o fun {key n} hn => ?_
    have hbelow := hf.below hn
    have htree := hf.tree hn
    have hlt : n.index < (s.tree n.tree).objects.size :=
      (Arena.get?_isSome_iff _ _).1 (hf.present hn)
    rw [htree] at hlt
    exact ih ((s.tree n.tree).objects.size - n.index)
      (by rw [htree]; omega) n rfl

/-- Every observable of `s` is still there, with the same snapshot. -/
def SameView (s s' : Store ρ) : Prop :=
  ∀ o, (s.object? o).isSome → (s'.object? o).isSome ∧ s'.snapshot o = s.snapshot o

theorem SameView.refl (s : Store ρ) : s.SameView s := fun _ ho => ⟨ho, rfl⟩

theorem SameView.trans (h : s.SameView s') (h' : s'.SameView s'') : s.SameView s'' := by
  intro o ho
  obtain ⟨hkept, hsame⟩ := h o ho
  obtain ⟨hkept', hsame'⟩ := h' o hkept
  exact ⟨hkept', hsame'.trans hsame⟩

/-- **Wrapping does not show** in any snapshot. -/
theorem Reslots.sameView (hr : Reslots new s s') (hf : s.Forest) (hm : s.Mapped)
    (hg : s.Grows s') : s.SameView s' := by
  have hf' := hf.reslots hg hr
  intro o ho
  refine ⟨hg.object?_isSome ho, ?_⟩
  induction o using hf.induction with
  | hstep o ih =>
    obtain ⟨slots, hslots⟩ := Option.isSome_iff_exists.1 (isSome_slots?.trans ho)
    have hchildren : Fields.mapValues s'.slotValue slots = Fields.mapValues s.slotValue slots :=
      mapValues_slots_congr (fun _ => rfl) fun hmem =>
        have hn : s.Nests o _ _ := ⟨slots, hslots, hmem⟩
        ih hn (hf.present hn)
    have hsame : s'.slots? o = some slots → s'.snapshot o = s.snapshot o := by
      intro h
      rw [hf'.snapshot_of_slots? h, hf.snapshot_of_slots? hslots, hchildren]
    have hne : ∀ {n}, s.object? n = none → o ≠ n := by
      intro n hn he
      rw [he, hn] at ho
      cases ho
    rcases hr with hr | ⟨n, fields, -, hn, hr⟩ | ⟨q, key, n, fields, hslot, hn, -, -, hr⟩
    · exact hsame ((hr o).trans hslots)
    · exact hsame ((hr o).trans ((if_neg (hne hn)).trans hslots))
    · by_cases hoq : o = q
      · subst hoq
        -- the slot held the object in plain form, and holds its observable now
        rw [slot?_eq_bind, hslots] at hslot
        have hget : Fields.get? slots key = some (.plain (.object fields)) := hslot
        have hwrapped : s'.snapshot n = .object fields := by
          rw [hf'.snapshot_of_slots? ((hr n).trans (if_pos rfl)), Fields.mapValues,
            Fields.mapValues, List.map_map]
          exact congrArg Value.object (List.map_id' fields)
        have hslots' : s'.slots? o = some (slots.insert key (.nested n)) := by
          rw [hr, if_neg (hne hn), if_pos rfl, hslots]
          rfl
        have hvalue : Fields.get? (Fields.mapValues s.slotValue slots) key =
            some (.object fields) := by
          rw [Fields.get?_mapValues, hget]
          rfl
        rw [hf'.snapshot_of_slots? hslots', hf.snapshot_of_slots? hslots,
          Fields.mapValues_insert, hchildren, slotValue, hwrapped,
          ((hm.ordered hslots).mapValues _).insert_of_get? hvalue]
      · exact hsame ((hr o).trans ((if_neg (hne hn)).trans ((if_neg hoq).trans hslots)))

/-! ## 4. Paths -/

/-- The properties of `path` lead from `q` to `o`, through nested observables. -/
inductive LeadsTo (s : Store ρ) (q : ObjectId) : List String → ObjectId → Prop where
  | here : LeadsTo s q [] q
  | down {path : List String} {o : ObjectId} {key : String} {n : ObjectId}
    (h : LeadsTo s q path o) (hn : s.Nests o key n) : LeadsTo s q (path ++ [key]) n

variable {q o n : ObjectId} {key : String} {path path' : List String}

theorem LeadsTo.cons (h : s.LeadsTo n path o) (hn : s.Nests q key n) :
    s.LeadsTo q (key :: path) o := by
  induction h with
  | here => exact LeadsTo.down .here hn
  | down _ hl ih => exact .down ih hl

theorem LeadsTo.cases_head (h : s.LeadsTo q path o) :
    path = [] ∧ q = o ∨
      ∃ key n rest, path = key :: rest ∧ s.Nests q key n ∧ s.LeadsTo n rest o := by
  induction h with
  | here => exact .inl ⟨rfl, rfl⟩
  | @down path o l m _ hl ih =>
    rcases ih with ⟨rfl, rfl⟩ | ⟨key, n, rest, rfl, hn, hrest⟩
    · exact .inr ⟨l, m, [], rfl, hl, .here⟩
    · exact .inr ⟨key, n, rest ++ [l], rfl, hn, .down hrest hl⟩

theorem LeadsTo.isSome (h : s.LeadsTo q path o) (hf : s.Forest) (hq : (s.object? q).isSome) :
    (s.object? o).isSome := by
  cases h with
  | here => exact hq
  | down _ hn => exact hf.present hn

theorem Forest.le_of_leadsTo (hf : s.Forest) (h : s.LeadsTo q path o) : q.index ≤ o.index := by
  induction h with
  | here => exact Nat.le_refl _
  | down _ hn ih => exact Nat.le_of_lt (Nat.lt_of_le_of_lt ih (hf.below hn))

-- There is one path at most.
theorem Forest.path_unique (hf : s.Forest) (h : s.LeadsTo q path o) (h' : s.LeadsTo q path' o) :
    path = path' := by
  induction h generalizing path' with
  | here =>
    cases h' with
    | here => rfl
    | down h' hn => exact absurd (hf.below hn) (Nat.not_lt.2 (hf.le_of_leadsTo h'))
  | down h hn ih =>
    cases h' with
    | here => exact absurd (hf.below hn) (Nat.not_lt.2 (hf.le_of_leadsTo h))
    | down h' hn' =>
      obtain ⟨rfl, rfl⟩ := hf.single hn' hn
      rw [ih h']

-- Of two observables that lead to a third one leads to the other.
theorem Forest.leadsTo_or (hf : s.Forest) (h : s.LeadsTo q path o) (h' : s.LeadsTo n path' o) :
    (∃ r, s.LeadsTo q r n) ∨ ∃ r, s.LeadsTo n r q := by
  induction h generalizing path' with
  | here => exact .inr ⟨path', h'⟩
  | down h hl ih =>
    cases h' with
    | here => exact .inl ⟨_, .down h hl⟩
    | down h' hl' =>
      obtain ⟨rfl, rfl⟩ := hf.single hl' hl
      exact ih h'

theorem Forest.not_leadsTo_of_nests (hf : s.Forest) (hn : s.Nests o key n) :
    ¬ s.LeadsTo n path o :=
  fun h => absurd (hf.below hn) (Nat.not_lt.2 (hf.le_of_leadsTo h))

/-! ## 5. Writes -/

section Writes

variable {slots : Fields Slot} {v : Value}

-- At the observable itself the value goes into its slot.
theorem Forest.snapshot_write_self (hf : s.Forest) (hslots : s.slots? o = some slots)
    (hchildren : ∀ {l n}, s.Nests o l n → (s.write o key v).snapshot n = s.snapshot n) :
    (s.write o key v).snapshot o = (s.snapshot o).changeAt (Value.put key v) [] := by
  have hslots' : (s.write o key v).slots? o = some (slots.insert key (.plain v)) := by
    rw [slots?_write, if_pos rfl, hslots]
    rfl
  have hvalues : Fields.mapValues (s.write o key v).slotValue slots =
      Fields.mapValues s.slotValue slots :=
    mapValues_slots_congr (fun _ => rfl) fun hmem => hchildren ⟨slots, hslots, hmem⟩
  rw [(hf.write o key v).snapshot_of_slots? hslots', hf.snapshot_of_slots? hslots,
    Fields.mapValues_insert, hvalues]
  rfl

-- Above it the change shows in the one slot from which the path goes on.
theorem Forest.snapshot_write_above (hf : s.Forest) (hm : s.Mapped) (hq : q ≠ o) {l : String}
    (hn : s.Nests q l n)
    (hbelow : (s.write o key v).snapshot n = (s.snapshot n).changeAt (Value.put key v) path)
    (hothers : ∀ {k m}, k ≠ l → s.Nests q k m → (s.write o key v).snapshot m = s.snapshot m) :
    (s.write o key v).snapshot q = (s.snapshot q).changeAt (Value.put key v) (l :: path) := by
  obtain ⟨slots, hslots, hmem⟩ := hn
  have hslots' : (s.write o key v).slots? q = some slots := by
    rw [slots?_write, if_neg hq, hslots]
  have hget : Fields.get? slots l = some (.nested n) := by
    have hslot := hm.slot?_of_nests ⟨slots, hslots, hmem⟩
    rw [slot?_eq_bind, hslots] at hslot
    exact hslot
  have hvalue : Fields.get? (Fields.mapValues s.slotValue slots) l = some (s.snapshot n) := by
    rw [Fields.get?_mapValues, hget]
    rfl
  have hordered := hm.ordered hslots
  rw [(hf.write o key v).snapshot_of_slots? hslots', hf.snapshot_of_slots? hslots,
    Value.changeAt_cons hvalue, ← hbelow]
  refine congrArg Value.object ((hordered.mapValues _).ext
    ((hordered.mapValues _).insert _ _) fun k => ?_)
  rw [Fields.get?_insert, Fields.get?_mapValues, Fields.get?_mapValues]
  by_cases hk : l = k
  · rw [if_pos hk, ← hk, hget]
    rfl
  · rw [if_neg hk]
    cases hslot : Fields.get? slots k with
    | none => rfl
    | some slot =>
      cases slot with
      | plain u => rfl
      | nested m =>
        have hnests : s.Nests q k m := ⟨slots, hslots, Fields.mem_of_get? hslot⟩
        exact congrArg some (hothers (Ne.symm hk) hnests)

-- Everywhere else nothing shows.
theorem Forest.snapshot_write_apart (hf : s.Forest) (hq : q ≠ o)
    (hchildren : ∀ {l n}, s.Nests q l n → (s.write o key v).snapshot n = s.snapshot n) :
    (s.write o key v).snapshot q = s.snapshot q := by
  have hslots' : (s.write o key v).slots? q = s.slots? q := by rw [slots?_write, if_neg hq]
  cases hslots : s.slots? q with
  | none =>
    rw [snapshot_of_none (slots?_eq_none_iff.1 hslots),
      snapshot_of_none (slots?_eq_none_iff.1 (hslots'.trans hslots))]
  | some slots =>
    rw [(hf.write o key v).snapshot_of_slots? (hslots'.trans hslots),
      hf.snapshot_of_slots? hslots]
    exact congrArg Value.object
      (mapValues_slots_congr (fun _ => rfl) fun hmem => hchildren ⟨slots, hslots, hmem⟩)

end Writes

/-- **What a write shows in a snapshot.**  Where a path leads to the observable that is written,
    the value stands at the end of this path; and the other snapshots stay as they are. -/
theorem Forest.snapshot_write (hf : s.Forest) (hm : s.Mapped) (ho : (s.object? o).isSome)
    (key : String) (v : Value) (q : ObjectId) :
    (∀ path, s.LeadsTo q path o →
      (s.write o key v).snapshot q = (s.snapshot q).changeAt (Value.put key v) path) ∧
    ((∀ path, ¬ s.LeadsTo q path o) → (s.write o key v).snapshot q = s.snapshot q) := by
  induction q using hf.induction with
  | hstep q ih =>
    by_cases hq : q = o
    · -- what stands below `o` does not lead to it
      subst hq
      obtain ⟨slots, hslots⟩ := Option.isSome_iff_exists.1 (isSome_slots?.trans ho)
      refine ⟨fun path hl => ?_, fun h => (h [] .here).elim⟩
      rw [hf.path_unique hl .here]
      exact hf.snapshot_write_self hslots fun hn =>
        (ih hn).2 fun _ => hf.not_leadsTo_of_nests hn
    · refine ⟨fun path hl => ?_, fun h => ?_⟩
      · rcases hl.cases_head with ⟨-, he⟩ | ⟨l, n, rest, rfl, hn, hrest⟩
        · exact (hq he).elim
        · -- the path is the only one, and so the other slots lead elsewhere
          refine hf.snapshot_write_above hm hq hn ((ih hn).1 rest hrest) fun {k m} hk hn' =>
            (ih hn').2 fun r hr => hk ?_
          exact (List.cons.inj (hf.path_unique (hr.cons hn') (hrest.cons hn))).1
      · exact hf.snapshot_write_apart hq fun hn => (ih hn).2 fun r hr => h _ (hr.cons hn)

end Store

end ReactiveView
