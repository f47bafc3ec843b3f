import ReactiveView.Document

/-!
# Writes to a document

The effect of a write on the elements, taken or refused, and how many of a number of writes the
document refuses.
-/

namespace ReactiveView

/-! ## 1. Refusals -/

namespace Refusals

/-- What remains after `n` calls. -/
def skip : Refusals → Nat → Refusals
  | r, 0 => r
  | r, n + 1 => (r.skip n).afterNext

/-- Whether the call behind the next `n` ones is refused. -/
def refuses (r : Refusals) (n : Nat) : Bool := (r.skip n).refusesNext

/-- How many of the next `n` calls are refused. -/
def refusedAmong (r : Refusals) (n : Nat) : Nat := (List.range n).countP r.refuses

theorem refusedAmong_succ (r : Refusals) (n : Nat) :
    r.refusedAmong (n + 1) = r.refusedAmong n + if r.refuses n then 1 else 0 := by
  rw [refusedAmong, refusedAmong, List.range_succ, List.countP_append, List.countP_singleton]

end Refusals

namespace Document

variable {ℓ : Type}

/-- No write is going to be refused. -/
def Accepts (d : Document ℓ) : Prop := d.refusedWrites = {}

/-! ## 2. Elements -/

theorem number_ne_zero {d : Document ℓ} {e : ElementId} (h : (d.element? e).isSome) :
    e.number ≠ 0 := by
  intro h0
  rw [element?, if_pos h0] at h
  cases h

theorem element?_modify {d : Document ℓ} {e : ElementId} (h : (d.element? e).isSome)
    (f : Element ℓ → Element ℓ) (q : ElementId) :
    (d.modify e f).element? q = if e = q then (d.element? q).map f else d.element? q := by
  obtain ⟨i⟩ := e
  obtain ⟨j⟩ := q
  have hi : i ≠ 0 := number_ne_zero h
  simp only [element?, modify, Arena.get?_modify, ElementId.mk.injEq]
  by_cases hj : j = 0
  · have hij : ¬ i = j := by omega
    rw [if_pos hj, if_neg hij, if_pos hj]
  · by_cases hij : i = j
    · rw [if_neg hj, if_pos hij, if_pos (by omega), if_neg hj]
    · rw [if_neg hj, if_neg hij, if_neg (by omega), if_neg hj]

-- An element that is there keeps its place when others come.
theorem element?_create {d : Document ℓ} {e : ElementId} {x : Element ℓ}
    (h : d.element? e = some x) (id : String) : (d.create id).2.element? e = some x := by
  have hn := number_ne_zero (e := e) (by rw [h]; rfl)
  unfold create
  split
  · exact h
  · rw [element?, if_neg hn] at h
    have hlt : e.number - 1 < d.elements.size := by
      rw [← Arena.get?_isSome_iff, h]
      rfl
    rw [element?, if_neg hn, Arena.get?_push, if_neg (by omega)]
    exact h

@[simp]
theorem refusedWrites_create (d : Document ℓ) (id : String) :
    (d.create id).2.refusedWrites = d.refusedWrites := by
  unfold create
  split <;> rfl

theorem accepts_ofIds (ids : List String) : (ofIds ids : Document ℓ).Accepts := by
  have hall : ∀ d : Document ℓ, d.Accepts →
      (ids.foldl (fun d id => (d.create id).2) d).Accepts := by
    induction ids with
    | nil => exact fun _ h => h
    | cons id ids ih => exact fun d h => ih _ ((refusedWrites_create d id).trans h)
  exact hall {} rfl

theorem mem_elements_iff {d : Document ℓ} {el : Element ℓ} :
    el ∈ d.elements.toList ↔ ∃ e, d.element? e = some el := by
  rw [Arena.mem_toList_iff]
  constructor
  · rintro ⟨i, hi⟩
    exact ⟨⟨i + 1⟩, hi⟩
  · rintro ⟨e, he⟩
    unfold element? at he
    split at he
    · cases he
    · exact ⟨_, he⟩

/-! ## 3. Writes -/

theorem setMarkup_of_refused {d : Document ℓ} (h : d.refusedWrites.refusesNext = true)
    (e : ElementId) (markup : String) :
    d.setMarkup e markup =
      (.error (.unknownElement e), { d with refusedWrites := d.refusedWrites.afterNext }) := by
  rw [setMarkup]
  exact if_pos h

theorem setMarkup_of_taken {d : Document ℓ} (h : d.refusedWrites.refusesNext = false)
    {e : ElementId} (he : (d.element? e).isSome) (markup : String) :
    d.setMarkup e markup =
      (.ok (), { d with refusedWrites := d.refusedWrites.afterNext }.modify e fun x =>
        { x with markup, writes := x.writes + 1 }) := by
  obtain ⟨x, hx⟩ := Option.isSome_iff_exists.1 he
  rw [setMarkup, if_neg (by rw [h]; exact Bool.false_ne_true), hx]

@[simp]
theorem refusedWrites_setMarkup (d : Document ℓ) (e : ElementId) (markup : String) :
    (d.setMarkup e markup).2.refusedWrites = d.refusedWrites.afterNext := by
  unfold setMarkup
  split
  · rfl
  · split <;> rfl

theorem element?_setMarkup_of_taken {d : Document ℓ} (h : d.refusedWrites.refusesNext = false)
    {e : ElementId} {x : Element ℓ} (he : d.element? e = some x) (markup : String) :
    (d.setMarkup e markup).2.element? e = some { x with markup, writes := x.writes + 1 } := by
  have hsome : (d.element? e).isSome := by
    rw [he]
    rfl
  rw [setMarkup_of_taken h hsome, element?_modify (by exact hsome), if_pos rfl]
  exact congrArg (Option.map _) he

-- A write changes no other element.
theorem element?_setMarkup_of_ne {d : Document ℓ} {e q : ElementId} (h : q ≠ e)
    (markup : String) : (d.setMarkup e markup).2.element? q = d.element? q := by
  unfold setMarkup
  split
  · rfl
  · split
    · rfl
    · rename_i x hx
      have hsome : (element? { d with refusedWrites := d.refusedWrites.afterNext } e).isSome := by
        rw [show element? { d with refusedWrites := d.refusedWrites.afterNext } e = some x from hx]
        rfl
      exact (element?_modify hsome _ q).trans (if_neg fun he => h he.symm)

theorem element?_setMarkup_isSome {d : Document ℓ} {q : ElementId} (h : (d.element? q).isSome)
    (e : ElementId) (markup : String) : ((d.setMarkup e markup).2.element? q).isSome := by
  by_cases hqe : q = e
  · subst hqe
    cases hr : d.refusedWrites.refusesNext with
    | true =>
      rw [setMarkup_of_refused hr]
      exact h
    | false =>
      obtain ⟨x, hx⟩ := Option.isSome_iff_exists.1 h
      rw [element?_setMarkup_of_taken hr hx]
      rfl
  · rw [element?_setMarkup_of_ne hqe]
    exact h

/-! ## 4. Registrations -/

-- A listener changes neither markup nor counts.
theorem element?_listen {d : Document ℓ} {q : ElementId} {x : Element ℓ}
    (h : d.element? q = some x) (e : ElementId) (type : String) (listener : ℓ) :
    ∃ x', (d.listen e type listener).2.element? q = some x' ∧ x'.markup = x.markup ∧
      x'.writes = x.writes := by
  unfold listen
  split
  · exact ⟨x, h, rfl, rfl⟩
  · split
    · exact ⟨x, h, rfl, rfl⟩
    · rename_i y hy
      have hsome : (element? { d with refusedListens := d.refusedListens.afterNext } e).isSome := by
        rw [show element? { d with refusedListens := d.refusedListens.afterNext } e = some y
          from hy]
        rfl
      have hq := element?_modify hsome
        (fun el => { el with listeners := el.listeners ++ [(type, listener)] }) q
      by_cases heq : e = q
      · rw [if_pos heq] at hq
        exact ⟨_, hq.trans (congrArg (Option.map _) h), rfl, rfl⟩
      · rw [if_neg heq] at hq
        exact ⟨x, hq.trans h, rfl, rfl⟩

@[simp]
theorem refusedWrites_listen (d : Document ℓ) (e : ElementId) (type : String) (listener : ℓ) :
    (d.listen e type listener).2.refusedWrites = d.refusedWrites := by
  unfold listen
  split
  · rfl
  · split <;> rfl

end Document

end ReactiveView
