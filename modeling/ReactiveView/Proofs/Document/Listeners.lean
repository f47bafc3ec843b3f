import ReactiveView.Proofs.Document.Writes

/-!
# Listeners of a document

Listeners are attached behind those that an element has, and never taken away.  A change of a
document is described by the elements that may have got more of them; no element is lost or renamed
on the way.
-/

namespace ReactiveView.Document

variable {ℓ : Type}

/-- Between `d` and `d'` no element was lost or renamed, and listeners were attached behind the
    others, at most to the elements in `busy`. -/
def Attached (busy : ElementId → Prop) (d d' : Document ℓ) : Prop :=
  ∀ e el, d.element? e = some el → ∃ el', d'.element? e = some el' ∧ el'.id = el.id ∧
    el.listeners <+: el'.listeners ∧ (¬ busy e → el'.listeners = el.listeners)

variable {busy busy' : ElementId → Prop} {d d' d'' : Document ℓ}

/-! ## 1. The relation -/

theorem Attached.refl (busy : ElementId → Prop) (d : Document ℓ) : d.Attached busy d :=
  fun _ _ h => ⟨_, h, rfl, List.prefix_rfl, fun _ => rfl⟩

theorem Attached.trans (h : d.Attached busy d') (h' : d'.Attached busy d'') :
    d.Attached busy d'' := by
  intro e el hel
  obtain ⟨el', hel', hid, hpre, hsame⟩ := h e el hel
  obtain ⟨el'', hel'', hid', hpre', hsame'⟩ := h' e el' hel'
  exact ⟨el'', hel'', hid'.trans hid, hpre.trans hpre', fun hb => (hsame' hb).trans (hsame hb)⟩

theorem Attached.mono (h : d.Attached busy d') (hb : ∀ e, busy e → busy' e) :
    d.Attached busy' d' := by
  intro e el hel
  obtain ⟨el', hel', hid, hpre, hsame⟩ := h e el hel
  exact ⟨el', hel', hid, hpre, fun hn => hsame fun he => hn (hb e he)⟩

/-! ## 2. Changes of a document -/

theorem attached_create (busy : ElementId → Prop) (d : Document ℓ) (id : String) :
    d.Attached busy (d.create id).2 :=
  fun _ _ h => ⟨_, element?_create h id, rfl, List.prefix_rfl, fun _ => rfl⟩

-- A change of one element under which its id stays and its listeners may become more.
theorem attached_modify {e : ElementId} (he : (d.element? e).isSome)
    {f : Element ℓ → Element ℓ} (hid : ∀ el, (f el).id = el.id)
    (hpre : ∀ el, el.listeners <+: (f el).listeners)
    (hb : ¬ busy e → ∀ el, (f el).listeners = el.listeners) :
    d.Attached busy (d.modify e f) := by
  intro q el hel
  by_cases hq : e = q
  · subst hq
    exact ⟨f el, by rw [element?_modify he, if_pos rfl, hel]; rfl, hid el, hpre el,
      fun hn => hb hn el⟩
  · exact ⟨el, by rw [element?_modify he, if_neg hq, hel], rfl, List.prefix_rfl, fun _ => rfl⟩

theorem attached_setMarkup (busy : ElementId → Prop) (d : Document ℓ) (e : ElementId)
    (markup : String) : d.Attached busy (d.setMarkup e markup).2 := by
  unfold setMarkup
  split
  · exact .refl busy d
  · split
    · exact .refl busy d
    · rename_i x hx
      have hsome : (element? { d with refusedWrites := d.refusedWrites.afterNext } e).isSome :=
        Option.isSome_of_eq_some hx
      have hmodify := @attached_modify _ busy _ _ hsome
        (f := fun el => { el with markup, writes := el.writes + 1 }) (fun _ => rfl)
        (fun _ => List.prefix_rfl) (fun _ _ => rfl)
      exact fun e el h => hmodify e el h

theorem attached_listen (d : Document ℓ) (e : ElementId) (type : String) (listener : ℓ) :
    d.Attached (· = e) (d.listen e type listener).2 := by
  unfold listen
  split
  · exact .refl _ d
  · split
    · exact .refl _ d
    · rename_i x hx
      have hsome : (element? { d with refusedListens := d.refusedListens.afterNext } e).isSome :=
        Option.isSome_of_eq_some hx
      have hmodify := @attached_modify _ (· = e) _ _ hsome
        (f := fun el => { el with listeners := el.listeners ++ [(type, listener)] })
        (fun _ => rfl) (fun _ => List.prefix_append _ _) (fun hn => (hn rfl).elim)
      exact fun e el h => hmodify e el h

-- A registration that is not refused.
theorem element?_listen_of_ok {e : ElementId} {type : String} {listener : ℓ}
    (h : d.listen e type listener = (.ok (), d')) {el : Element ℓ} (hel : d.element? e = some el) :
    d'.element? e = some { el with listeners := el.listeners ++ [(type, listener)] } := by
  unfold listen at h
  split at h
  · cases h
  · rw [hel] at h
    cases h
    have hsome : (element? { d with refusedListens := d.refusedListens.afterNext } e).isSome :=
      Option.isSome_of_eq_some hel
    rw [element?_modify hsome, if_pos rfl]
    exact congrArg (Option.map _) hel

/-! ## 3. Elements by their ids -/

theorem element?_of_byId?_eq_some {id : String} {e : ElementId} (h : d.byId? id = some e) :
    ∃ el, d.element? e = some el ∧ el.id = id := by
  unfold byId? at h
  obtain ⟨i, hi, rfl⟩ := Option.map_eq_some_iff.1 h
  obtain ⟨hlt, hid, -⟩ := List.findIdx?_eq_some_iff_getElem.1 hi
  refine ⟨d.elements.toList[i], ?_, by simpa using hid⟩
  show (if i + 1 = 0 then none else d.elements.get? (i + 1 - 1)) = _
  rw [if_neg (Nat.succ_ne_zero i), Nat.add_sub_cancel]
  simp only [Arena.get?, Arena.toList] at hlt ⊢
  rw [Array.getElem?_eq_getElem (by simpa using hlt), Array.getElem_toList]

end ReactiveView.Document
