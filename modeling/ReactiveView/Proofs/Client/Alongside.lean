import ReactiveView.Client.Run

/-!
# Runs next to each other

Two computations, each on a world of its own, that come to corresponding outcomes from any two
worlds that are related, and leave related worlds behind.  They may answer differently as long as
the answers correspond; but if one of them fails or nests too deeply, so does the other.
-/

namespace ReactiveView

variable {κ σ σ' α α' β β' : Type}

/-- Outcomes that correspond: answers that `rel` relates, or the same error. -/
inductive SameOutcome {ε : Type} (rel : α → α' → Prop) : Except ε α → Except ε α' → Prop where
  | ok {a a'} (h : rel a a') : SameOutcome rel (.ok a) (.ok a')
  | error (e : ε) : SameOutcome rel (.error e) (.error e)

theorem SameOutcome.mapError {ε ε' : Type} {rel : α → α' → Prop} {r : Except ε α}
    {r' : Except ε α'} (h : SameOutcome rel r r') (f : ε → ε') :
    SameOutcome rel (r.mapError f) (r'.mapError f) := by
  cases h with
  | ok h => exact .ok h
  | error e => exact .error (f e)

theorem SameOutcome.of_eq {ε : Type} {r r' : Except ε Unit} (h : r' = r) :
    SameOutcome (fun _ _ => True) r r' := by
  subst h
  cases r' with
  | ok => exact .ok trivial
  | error e => exact .error e

namespace Run

/-- What two runs end in: neither has an outcome, or both have corresponding ones and leave worlds
    with `inv` behind. -/
inductive SameEnd (inv : World κ σ → World κ σ' → Prop) (rel : α → α' → Prop) :
    Option (Except Failure α × World κ σ) → Option (Except Failure α' × World κ σ') → Prop where
  | none : SameEnd inv rel none none
  | some {r r' w w'} (hr : SameOutcome rel r r') (hw : inv w w') :
    SameEnd inv rel (some (r, w)) (some (r', w'))

/-- The computations come to corresponding outcomes wherever `inv` holds, and keep it. -/
def Alongside (inv : World κ σ → World κ σ' → Prop) (rel : α → α' → Prop) (x : Run κ σ α)
    (x' : Run κ σ' α') : Prop :=
  ∀ w w', inv w w' → SameEnd inv rel (x w) (x' w')

variable {inv : World κ σ → World κ σ' → Prop} {rel : α → α' → Prop} {rel' : β → β' → Prop}

theorem Alongside.pure {a : α} {a' : α'} (h : rel a a') :
    Alongside inv rel (pure a) (pure a') := fun _ _ hw => .some (.ok h) hw

theorem Alongside.fail (e : Failure) : Alongside inv rel (fail e) (fail e) := fun _ _ hw =>
  .some (.error e) hw

theorem Alongside.exhausted : Alongside inv rel exhausted exhausted := fun _ _ _ => .none

theorem Alongside.bind {x : Run κ σ α} {x' : Run κ σ' α'} (h : Alongside inv rel x x')
    {f : α → Run κ σ β} {f' : α' → Run κ σ' β'}
    (hf : ∀ a a', rel a a' → Alongside inv rel' (f a) (f' a')) :
    Alongside inv rel' (x >>= f) (x' >>= f') := by
  intro w w' hw
  show SameEnd inv rel' (Run.bind x f w) (Run.bind x' f' w')
  have hx := h w w' hw
  rw [Run.bind, Run.bind]
  generalize x w = ran at hx ⊢
  generalize x' w' = ran' at hx ⊢
  cases hx with
  | none => exact .none
  | some hr hw₁ =>
    cases hr with
    | ok ha => exact hf _ _ ha _ _ hw₁
    | error e => exact .some (.error e) hw₁

theorem Alongside.look {f : Page κ → α} {f' : Page κ → α'}
    (h : ∀ w w', inv w w' → rel (f w.page) (f' w'.page)) :
    Alongside inv rel (look f) (look f') := fun w w' hw => .some (.ok (h w w' hw)) hw

theorem Alongside.page {f : Page κ → α × Page κ} {f' : Page κ → α' × Page κ}
    (h : ∀ w w', inv w w' → rel (f w.page).1 (f' w'.page).1 ∧
      inv { w with page := (f w.page).2 } { w' with page := (f' w'.page).2 }) :
    Alongside inv rel (page f) (page f') := fun w w' hw =>
  .some (.ok (h w w' hw).1) (h w w' hw).2

theorem Alongside.attempt {ε : Type} {failure : ε → Failure} {f : Page κ → Except ε α × Page κ}
    {f' : Page κ → Except ε α' × Page κ}
    (h : ∀ w w', inv w w' → SameOutcome rel (f w.page).1 (f' w'.page).1 ∧
      inv { w with page := (f w.page).2 } { w' with page := (f' w'.page).2 }) :
    Alongside inv rel (attempt failure f) (attempt failure f') := fun w w' hw =>
  .some ((h w w' hw).1.mapError failure) (h w w' hw).2

theorem Alongside.mapFailure {x : Run κ σ α} {x' : Run κ σ' α'} (h : Alongside inv rel x x')
    (f : Failure → Failure) : Alongside inv rel (mapFailure f x) (mapFailure f x') := by
  intro w w' hw
  have hx := h w w' hw
  rw [Run.mapFailure, Run.mapFailure]
  generalize x w = ran at hx ⊢
  generalize x' w' = ran' at hx ⊢
  cases hx with
  | none => exact .none
  | some hr hw₁ => exact .some (hr.mapError f) hw₁

theorem Alongside.outcome {x : Run κ σ α} {x' : Run κ σ' α'} (h : Alongside inv rel x x') :
    Alongside inv (SameOutcome rel) (outcome x) (outcome x') := by
  intro w w' hw
  have hx := h w w' hw
  rw [Run.outcome, Run.outcome]
  generalize x w = ran at hx ⊢
  generalize x' w' = ran' at hx ⊢
  cases hx with
  | none => exact .none
  | some hr hw₁ => exact .some (.ok hr) hw₁

/-- The nodes that two computations keep alive may differ as long as the worlds stay related. -/
theorem Alongside.pinning {ns ns' : List Node} {x : Run κ σ α} {x' : Run κ σ' α'}
    (henter : ∀ {w w'}, inv w w' →
      inv { w with pins := ns ++ w.pins } { w' with pins := ns' ++ w'.pins })
    (hleave : ∀ {w w' w₁ w₁'}, inv w w' → inv w₁ w₁' →
      inv { w₁ with pins := w.pins } { w₁' with pins := w'.pins })
    (h : Alongside inv rel x x') : Alongside inv rel (pinning ns x) (pinning ns' x') := by
  intro w w' hw
  have hx := h _ _ (henter hw)
  rw [Run.pinning, Run.pinning]
  generalize x { w with pins := ns ++ w.pins } = ran at hx ⊢
  generalize x' { w' with pins := ns' ++ w'.pins } = ran' at hx ⊢
  cases hx with
  | none => exact .none
  | some hr hw₁ => exact .some hr (hleave hw hw₁)

end Run

end ReactiveView
