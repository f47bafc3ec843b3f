import ReactiveView.Proofs.Store.Watching

/-!
# What a write leaves to do

A value that was written is held by its slot until the next write there, in plain form or behind an
observable of its own; and a watcher is due as long as its property differs from its baseline.
-/

namespace ReactiveView.Store

variable {ρ : Type}

/-! ## 1. Due watchers -/

/-- Whether the property of a watcher differs from the baseline. -/
def due (s : Store ρ) (u : WatcherId) : Bool :=
  match s.watcher? u with
  | some x => !(s.field x.source x.property).strictEqual x.baseline
  | none => false

theorem due_eq {s : Store ρ} {u : WatcherId} {x : Watcher ρ} (h : s.watcher? u = some x) :
    s.due u = !(s.field x.source x.property).strictEqual x.baseline := by
  rw [due, h]

-- Nobody becomes due by a read.
theorem SameData.due {s s' : Store ρ} (h : s.SameData s') {u : WatcherId} {x : Watcher ρ}
    (hx : s.watcher? u = some x) (ho : (s.object? x.source).isSome) (hb : s.Known x.baseline) :
    s'.due u = s.due u := by
  rw [due_eq hx, due_eq (h.watcher hx), h.strictEqual_field ho _ hb]

/-! ## 2. Held values -/

/-- The slot holds the value, if need be as the observable that stands for it. -/
def Holds (s : Store ρ) (o : ObjectId) (key : String) (v : Value) : Prop :=
  s.slot? o key = some (.plain v) ∨
    ∃ fields n x, v = .object fields ∧ n ≠ o ∧ s.slot? o key = some (.nested n) ∧
      s.object? n = some x ∧ x.slots = Fields.mapValues .plain fields

theorem holds_write {s : Store ρ} {o : ObjectId} (h : (s.object? o).isSome) (key : String)
    (v : Value) : (s.write o key v).Holds o key v :=
  .inl ((slot?_write h key v o key).trans (if_pos ⟨rfl, rfl⟩))

theorem Holds.collectAt {s : Store ρ} {o : ObjectId} {key : String} {v : Value}
    (h : s.Holds o key v) (q : ObjectId) : (s.collectAt q).Holds o key v := by
  rw [Store.collectAt]
  split
  · rename_i w hw
    rcases h with h | ⟨fields, n, x, hv, hne, hslot, hx, hslots⟩
    · exact .inl ((slot?_register _ _ _ _ _).trans h)
    · refine .inr ⟨fields, n, ?_⟩
      rw [slot?_register, object?_register, hx]
      by_cases hqn : q = n
      · rw [if_pos hqn]
        exact ⟨_, hv, hne, hslot, rfl, hslots⟩
      · rw [if_neg hqn]
        exact ⟨x, hv, hne, hslot, rfl, hslots⟩
  · exact h

-- A read of the object wraps at most the value itself.
theorem Holds.get {s : Store ρ} {o : ObjectId} {key : String} {v : Value} (h : s.Holds o key v)
    (l : String) : (s.get o l).2.Holds o key v := by
  show ((s.resolve o l).2.collectAt o).Holds o key v
  apply Holds.collectAt
  rcases resolve_cases s o l with hsame | ⟨fields, hs, hwrap⟩
  · rwa [hsame]
  · have ho := object?_isSome_of_slot? hs
    have htree := hasTree_of_object? ho
    have hwrapped := (sameData_wrapIn s o.tree fields).object?_isSome ho
    have hne := wrapIn_fst_ne ho o.tree fields
    have hkept : ∀ {n x}, s.object? n = some x →
        (s.wrapIn o.tree fields).2.object? n = some x := by
      intro n x hx
      rw [object?_wrapIn htree, if_neg (wrapIn_fst_ne (by rw [hx]; rfl) o.tree fields), hx]
    rw [hwrap]
    -- the read wraps either the value itself or something under another property
    by_cases hl : l = key
    · subst hl
      have hv : v = .object fields := by
        rcases h with h | ⟨-, n, -, -, -, hn, -⟩
        · rw [hs] at h
          cases h
          rfl
        · rw [hs] at hn
          cases hn
      refine .inr ⟨fields, _, { slots := Fields.mapValues .plain fields }, hv,
        fun e => hne e.symm, ?_, ?_, rfl⟩
      · rw [slot?_setSlot hwrapped, if_pos ⟨rfl, rfl⟩]
      · rw [object?_setSlot, if_neg hne, object?_wrapIn htree, if_pos rfl]
    · rcases h with h | ⟨fields', n, x, hv, hno, hslot, hx, hslots⟩
      · refine .inl ?_
        rw [slot?_setSlot hwrapped, if_neg fun e => hl e.2, slot?, object?_wrapIn htree,
          if_neg hne]
        exact h
      · refine .inr ⟨fields', n, x, hv, hno, ?_, ?_, hslots⟩
        · rw [slot?_setSlot hwrapped, if_neg fun e => hl e.2, slot?, object?_wrapIn htree,
            if_neg hne]
          exact hslot
        · rw [object?_setSlot, if_neg fun e => hno e.symm]
          exact hkept hx

theorem Holds.getTexts {s : Store ρ} {o : ObjectId} {key : String} {v : Value}
    (h : s.Holds o key v) (keys : List String) : (s.getTexts o keys).2.Holds o key v := by
  induction keys generalizing s with
  | nil => exact h
  | cons l keys ih => exact ih (h.get l)

end ReactiveView.Store
