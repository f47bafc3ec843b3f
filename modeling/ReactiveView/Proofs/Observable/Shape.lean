import ReactiveView.Proofs.Client.Effects
import ReactiveView.Proofs.Client.Forgetting
import ReactiveView.Proofs.Store.Nesting

/-!
# The shape of the heap

At every moment of every history the observables form forests, and what a read gives for a nested
object is decided by the first read since the last write to its property.
-/

namespace ReactiveView

/-! ## 1. Fields of forests -/

namespace Store

variable {ρ : Type} {s s' : Store ρ}

-- A read gives no plain object.
theorem isObject_of_field {o : ObjectId} {key : String} {v : Value}
    (h : s.field o key = .value v) : v.isObject = false := by
  rcases slot?_cases s o key with hs | ⟨n, hs⟩ | ⟨u, hs, hu⟩ | ⟨fields, hs⟩
  · rw [field_of_none hs] at h
    cases h
    rfl
  · rw [field_of_nested hs] at h
    cases h
  · rw [field_of_plain hs hu] at h
    cases h
    exact hu
  · rw [field_of_object hs] at h
    cases h

-- An observable that a read gives stands in the slot, or is yet to be made.
theorem slot?_of_field {o : ObjectId} {key : String} {n : ObjectId}
    (h : s.field o key = .proxy n) :
    s.slot? o key = some (.nested n) ∨ s.object? n = none := by
  rcases field_eq_proxy h with hs | ⟨fields, -, rfl⟩
  · exact .inl hs
  · exact .inr (object?_wrapIn_fst s o.tree fields)

-- A read leaves what it gives in the slot.
theorem slot?_get_of_field {o : ObjectId} {key : String} {n : ObjectId}
    (h : s.field o key = .proxy n) : (s.get o key).2.slot? o key = some (.nested n) := by
  have hslot : (s.get o key).2.slot? o key = (s.resolve o key).2.slot? o key := by
    rw [slot?_eq_bind, slot?_eq_bind]
    exact congrArg (Option.bind · _) (slots?_collectAt _ o o)
  rcases field_eq_proxy h with hs | ⟨fields, hs, rfl⟩
  · rw [hslot, resolve_of_nested hs, hs]
  · have ho := (sameData_wrapIn s o.tree fields).object?_isSome (object?_isSome_of_slot? hs)
    rw [hslot, resolve_of_object hs, slot?_setSlot ho, if_pos ⟨rfl, rfl⟩]

variable {W : ObjectId → String → Prop} {o : ObjectId} {key : String} {n : ObjectId}

-- As long as a slot is not written, it keeps its observable.
theorem Since.field_of_nested (h : s.Since W s') (hs : s.slot? o key = some (.nested n))
    (hW : ¬ W o key) : s'.field o key = .proxy n := by
  rcases h.slot (object?_isSome_of_slot? hs) hW with hs' | ⟨fields, m, hp, -, -⟩
  · exact Store.field_of_nested (hs'.trans hs)
  · rw [hs] at hp
    cases hp

-- What a read gives for a slot that nested nothing is a new observable.
theorem Since.object?_of_field (h : s.Since W s') (hs : ∀ m, s.slot? o key ≠ some (.nested m))
    (hn : s'.field o key = .proxy n) : s.object? n = none := by
  rcases slot?_of_field hn with hs' | hnone
  · exact (h.nested hs').resolve_right fun e => hs n e.2
  · exact h.grows.object?_eq_none hnone

-- An object that has been written reads as an observable until the next write.
theorem Since.field_of_object (h : s.Since W s') {v : Value} (hv : v.isObject = true)
    (hs : s.slot? o key = some (.plain v)) (hW : ¬ W o key) :
    ∃ n, s'.field o key = .proxy n := by
  rcases h.slot (object?_isSome_of_slot? hs) hW with hs' | ⟨fields, m, -, hs', -⟩
  · cases v with
    | object fields => exact ⟨_, Store.field_of_object (hs'.trans hs)⟩
    | _ => cases hv
  · exact ⟨m, Store.field_of_nested hs'⟩

-- A slot that is being written nests nothing.
theorem slot?_write_ne_nested (s : Store ρ) (o : ObjectId) (key : String) (v : Value)
    (m : ObjectId) : (s.write o key v).slot? o key ≠ some (.nested m) := by
  intro h
  cases ho : s.object? o with
  | none =>
    have hsome := object?_isSome_of_slot? ((slot?_write_of_none ho key v o key).symm.trans h)
    rw [ho] at hsome
    cases hsome
  | some x =>
    rw [slot?_write (Option.isSome_of_eq_some ho), if_pos ⟨rfl, rfl⟩] at h
    cases h

end Store

/-! ## 2. Every history -/

variable {κ σ : Type}

theorem course_forest :
    Course (fun _ : Request κ => True) Store.Forest Store.Since where
  finish := trivial
  empty := .empty
  write _ hs := hs.write _ _ _
  change _ hs := hs.change _
  refl := .refl
  written o key v _ h := h.write o key v
  changed _ _ h := h.change _

-- A nested slot survives a request that does not write it.
theorem Moment.slot?_store {m : Moment κ σ} {o : ObjectId} {key : String} {n : ObjectId}
    (h : m.page.store.slot? o key = some (.nested n)) (hm : ¬ m.request.Sets o key) :
    m.store.slot? o key = some (.nested n) := by
  by_cases hset : ∃ q l v, m.request = .perform (.set q l v)
  · obtain ⟨q, l, v, hset⟩ := hset
    have hne : ¬ (o = q ∧ key = l) := by
      rintro ⟨rfl, rfl⟩
      exact hm ⟨v, hset⟩
    rw [Moment.store, hset]
    exact (Store.slot?_write_of_ne hne v).trans h
  · have hno : ∀ q l, ¬ m.request.Sets q l := by
      rintro q l ⟨v, hv⟩
      exact hset ⟨q, l, v, hv⟩
    have hdata := (m.request.effect_reaches hno m.page).sameData
    rcases hdata.slot (Store.object?_isSome_of_slot? h) key with hs | ⟨fields, m', hp, -, -⟩
    · exact hs.trans h
    · rw [h] at hp
      cases hp

/-- **The shape of the heap** at every moment of every history.  No observable stands in two slots
    or in itself, and a snapshot is what it should be at every depth; nested observables belong to
    the tree of their parents and have registries of their own; a read gives no plain object, gives
    the same observable as the first read until the property is written, and never again one that
    was there before the write. -/
theorem Client.heap_shape {c : Client κ σ} {p : Program κ σ} {document : Document (Listener κ)}
    {entropy : Entropy} {s : σ} {g : History κ σ} {m : Moment κ σ}
    (hl : c.Lives { document, entropy } s p (g ++ [m])) :
    let store := m.page.store
    (∀ {o key n q l}, store.Nests o key n → store.Nests q l n → q = o ∧ l = key) ∧
    (∀ o, ¬ Relation.TransGen store.Parent o o) ∧
    (∀ {o x}, store.object? o = some x →
      store.snapshot o = .object (Fields.mapValues store.slotValue x.slots)) ∧
    (∀ {o key n}, store.Nests o key n → (store.object? n).isSome ∧ n.tree = o.tree) ∧
    (∀ {o q}, o ≠ q → ∀ w, (store.register (.ofObject o) w).registered (.ofObject q) =
      store.registered (.ofObject q)) ∧
    (∀ {o key v}, (store.get o key).1 = .value v → v.isObject = false) ∧
    (∀ {g₀ m₀ g₁ o key n}, g = g₀ ++ m₀ :: g₁ → ¬ History.Writes g₁ o key →
      (m₀.request = .perform (.get o key) ∧ (m₀.page.store.get o key).1 = .proxy n ∨
        m₀.page.store.slot? o key = some (.nested n) ∧ ¬ m₀.request.Sets o key) →
      (store.get o key).1 = .proxy n) ∧
    ∀ {g₀ m₀ g₁ o key v}, g = g₀ ++ m₀ :: g₁ → m₀.request = .perform (.set o key v) →
      (∀ {n}, (store.get o key).1 = .proxy n → m₀.page.store.object? n = none) ∧
      ((m₀.page.store.object? o).isSome → v.isObject = true → ¬ History.Writes g₁ o key →
        ∃ n, (store.get o key).1 = .proxy n) := by
  intro store
  obtain ⟨hforest, hpast⟩ := hl.course (fun cue => (c.respond cue).within_all)
    p.within_all course_forest
  refine ⟨hforest.single, hforest.acyclic, hforest.snapshot_eq,
    fun hn => ⟨hforest.present hn, hforest.tree hn⟩, fun hne w => ?_, Store.isObject_of_field,
    fun {g₀ m₀ g₁ o key n} hg hW hslot => ?_, fun {g₀ m₀ g₁ o key v} hg hset => ⟨?_, ?_⟩⟩
  · rw [Store.registered_register, if_neg fun h => hne h.1]
  · have hnested : m₀.store.slot? o key = some (.nested n) := by
      rcases hslot with ⟨hget, hfield⟩ | ⟨hs, hm⟩
      · rw [Moment.store, hget]
        exact Store.slot?_get_of_field hfield
      · exact m₀.slot?_store hs hm
    exact (hpast hg).field_of_nested hnested hW
  · intro n hn
    have hstore : m₀.store = m₀.page.store.write o key v := by
      rw [Moment.store, hset]
      rfl
    have hsince := hpast hg
    rw [hstore] at hsince
    exact (Store.grows_write _ _ _ _).object?_eq_none
      (hsince.object?_of_field (Store.slot?_write_ne_nested _ o key v) hn)
  · intro ho hv hW
    refine (hpast hg).field_of_object hv ?_ hW
    rw [Moment.store, hset]
    exact (Store.slot?_write ho key v o key).trans (if_pos ⟨rfl, rfl⟩)

/-- A client without callbacks. -/
def plainClient : Client Unit Unit := { respond := fun _ => .done, holds := fun _ => [] }

/-- Reads a nested object, overwrites it and reads it again. -/
def innerProgram : Program Unit Unit :=
  .perform (.observe (.object [("inner", .object [])]) none) fun
    | .error error => .fail error
    | .ok o => .perform (.get o "inner") fun _ =>
      .perform (.set o "inner" (.object [])) fun _ => .perform (.get o "inner") fun _ => .done

def innerHistory : History Unit Unit :=
  plainClient.history 1 { document := {} } () innerProgram

theorem heap_shape_inner :
    ∃ m₀ m n, innerHistory[2]? = some m₀ ∧ innerHistory[3]? = some m ∧
      (m₀.page.store.get ⟨⟨0⟩, 0⟩ "inner").1 = .proxy ⟨⟨0⟩, 1⟩ ∧
      (m.page.store.get ⟨⟨0⟩, 0⟩ "inner").1 = .proxy n ∧ n ≠ ⟨⟨0⟩, 1⟩ := by
  have hrun : (plainClient.run 1 innerProgram ⟨{ document := {} }, (), []⟩).isSome = true := by
    decide +kernel
  have hsome : (innerHistory[2]?).isSome = true ∧ (innerHistory[3]?).isSome = true := by
    decide +kernel
  have hset : ∀ m ∈ innerHistory[2]?, m.request.Sets ⟨⟨0⟩, 0⟩ "inner" := by decide +kernel
  have hbefore : ∀ m ∈ innerHistory[2]?, (m.page.store.get ⟨⟨0⟩, 0⟩ "inner").1.proxy? =
      some ⟨⟨0⟩, 1⟩ ∧ (m.page.store.object? ⟨⟨0⟩, 1⟩).isSome = true := by decide +kernel
  have hafter : ∀ m ∈ innerHistory[3]?,
      (m.page.store.get ⟨⟨0⟩, 0⟩ "inner").1.proxy? = some ⟨⟨0⟩, 2⟩ := by decide +kernel
  obtain ⟨m₀, hm₀⟩ := Option.isSome_iff_exists.1 hsome.1
  obtain ⟨m, hm⟩ := Option.isSome_iff_exists.1 hsome.2
  obtain ⟨v, hv⟩ := hset m₀ hm₀
  have htake := @List.take_add_one _ innerHistory 2
  rw [hm₀, Option.toList_some] at htake
  have hn := Field.eq_proxy (hafter m hm)
  obtain ⟨-, -, -, -, -, -, -, hfresh⟩ := Client.heap_shape (Client.lives_take hrun hm)
  have hnone := (hfresh htake hv).1 hn
  refine ⟨m₀, m, _, hm₀, hm, Field.eq_proxy (hbefore m₀ hm₀).1, hn, fun he => ?_⟩
  rw [he] at hnone
  have hpresent := (hbefore m₀ hm₀).2
  rw [hnone] at hpresent
  cases hpresent

end ReactiveView
