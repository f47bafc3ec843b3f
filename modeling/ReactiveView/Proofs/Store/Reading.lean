import ReactiveView.Proofs.Store.Enrolment
import ReactiveView.Proofs.Store.Numbering
import ReactiveView.Proofs.Store.Snapshot

/-!
# Reading while nobody collects

A read may wrap an object where it stands.  Apart from that it leaves no trace: where no watcher is
collecting in the tree, nobody is registered, and the wrapping shows in no snapshot.  What is read is
shown in the same way as the snapshot says.
-/

namespace ReactiveView

/-- The text that stands for the property of a plain object. -/
def Value.displayAt (v : Value) (key : String) : String :=
  match v with
  | object fields => ((Fields.get? fields key).getD undefined).display
  | _ => undefined.display

namespace Store

variable {ρ : Type} {s s' s'' : Store ρ}

/-! ## 1. What a read changes -/

/-- The store `s'` has the snapshots, the nested observables, the registries, the watchers and the
    states of collection of `s`. -/
structure Undisturbed (s s' : Store ρ) : Prop extends Steady s s' where
  views : s.SameView s'
  nested : ∀ {o key n}, s.slot? o key = some (.nested n) → s'.slot? o key = some (.nested n)
  issued : ∀ t, s'.issued t = s.issued t

theorem Undisturbed.refl (s : Store ρ) : s.Undisturbed s :=
  ⟨.refl s, .refl s, id, fun _ => rfl⟩

theorem Undisturbed.trans (h : s.Undisturbed s') (h' : s'.Undisturbed s'') : s.Undisturbed s'' :=
  ⟨h.toSteady.trans h'.toSteady, h.views.trans h'.views, h'.nested ∘ h.nested,
    fun t => (h'.issued t).trans (h.issued t)⟩

/-- Nested observables stand where they should, and the slots have their keys in order. -/
structure Tidy (s : Store ρ) : Prop where
  forest : s.Forest
  mapped : s.Mapped

theorem Tidy.get (h : s.Tidy) (o : ObjectId) (key : String) : (s.get o key).2.Tidy := by
  have hreslots : Reslots (fun _ => False) s (s.get o key).2 := reslots_get s o key
  exact ⟨h.forest.reslots (sameData_get s o key).toGrows hreslots,
    h.mapped.reslots (fun _ hno => hno.elim) hreslots⟩

theorem undisturbed_get (h : s.Tidy) {o : ObjectId} (ha : s.active o.tree = none) (key : String) :
    s.Undisturbed (s.get o key).2 := by
  have hdata := sameData_get s o key
  have hreslots : Reslots (fun _ => False) s (s.get o key).2 := reslots_get s o key
  refine ⟨steady_get_of_active ha key, hreslots.sameView h.forest h.mapped hdata.toGrows,
    fun {q l n} hs => ?_, issued_get s o key⟩
  -- what is wrapped already stays where it is
  rcases hdata.slot (object?_isSome_of_slot? hs) l with hkept | ⟨fields, m, hplain, -, -⟩
  · exact hkept.trans hs
  · rw [hs] at hplain
    cases hplain

/-- **Reads leave no trace** where nobody collects. -/
theorem undisturbed_getTexts (h : s.Tidy) {o : ObjectId} (ha : s.active o.tree = none)
    (keys : List String) :
    s.Undisturbed (s.getTexts o keys).2 ∧ (s.getTexts o keys).2.Tidy := by
  induction keys generalizing s with
  | nil => exact ⟨.refl s, h⟩
  | cons key keys ih =>
    have hone := undisturbed_get h ha key
    obtain ⟨hrest, htidy⟩ := ih (h.get o key) ((hone.active o.tree).trans ha)
    exact ⟨hone.trans hrest, htidy⟩

/-! ## 2. What a read shows -/

theorem display_snapshot (s : Store ρ) (o : ObjectId) :
    (s.snapshot o).display = Value.objectText := by
  rw [snapshot]
  cases (s.tree o.tree).objects.size with
  | zero => rfl
  | succ depth =>
    rw [snapshotTo]
    split <;> rfl

theorem display_slotValue (s : Store ρ) {o : ObjectId} {key : String} {slot : Slot}
    (h : s.slot? o key = some slot) : (s.field o key).display = (s.slotValue slot).display := by
  rw [field]
  rcases slot?_cases s o key with hs | ⟨n, hs⟩ | ⟨v, hs, hv⟩ | ⟨fields, hs⟩
  · rw [hs] at h
    cases h
  · rw [resolve_of_nested hs]
    rw [hs] at h
    cases h
    exact (s.display_snapshot n).symm
  · rw [resolve_of_plain hs hv]
    rw [hs] at h
    cases h
    rfl
  · rw [resolve_of_object hs]
    rw [hs] at h
    cases h
    rfl

/-- **A read shows what the snapshot says.** -/
theorem Forest.display_field (hf : s.Forest) (o : ObjectId) (key : String) :
    (s.field o key).display = (s.snapshot o).displayAt key := by
  cases ho : s.object? o with
  | none =>
    have hs : s.slot? o key = none := by rw [slot?, ho, Option.bind_none]
    rw [snapshot_of_none ho, field, resolve_of_none hs]
    rfl
  | some x =>
    rw [hf.snapshot_eq ho, Value.displayAt, Fields.get?_mapValues]
    have hs : s.slot? o key = Fields.get? x.slots key := by rw [slot?, ho, Option.bind_some]
    cases hslot : Fields.get? x.slots key with
    | none =>
      rw [field, resolve_of_none (hs.trans hslot)]
      rfl
    | some slot => exact s.display_slotValue (hs.trans hslot)

end Store

end ReactiveView
