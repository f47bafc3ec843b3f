import ReactiveView.Proofs.Client.Moves
import ReactiveView.Proofs.Document.Writes
import ReactiveView.Proofs.Page.Rendering

/-!
# What moves leave alone

Most moves are still: they leave tables, compilers and all markup as they are.  Those that are not
are compiles, writes of markup, new compilers and mounted views, and what all of these but the
compiles have in common is that they leave the compilers alone that are there already.
-/

namespace ReactiveView.Page

variable {κ : Type}

/-! ## 1. Still moves -/

/-- Whether a binding table is there. -/
def HasTable (p : Page κ) (t : TableId) : Prop := (p.tables.get? t.index).isSome = true

instance (p : Page κ) (t : TableId) : Decidable (p.HasTable t) :=
  inferInstanceAs (Decidable (_ = true))

/-- The page `p'` shows what `p` shows, and would show the same on every compile. -/
structure Still (p p' : Page κ) : Prop where
  store : p.store.SameData p'.store
  sound : p.store.Sound → p'.store.Sound
  only : ∀ {w x}, p'.store.watcher? w = some x →
    p.store.watcher? w = some x ∨ ∃ code, x.reaction = .client code
  compilers : p'.compilers = p.compilers
  engines : p'.engines = p.engines
  table : ∀ t, p'.table t = p.table t
  hasTable : ∀ {t}, p.HasTable t → p'.HasTable t
  entropy : p'.entropy = p.entropy
  element : ∀ {e x}, p.document.element? e = some x →
    ∃ x', p'.document.element? e = some x' ∧ x'.markup = x.markup ∧ x'.writes = x.writes
  refusedWrites : p'.document.refusedWrites = p.document.refusedWrites

theorem Still.refl (p : Page κ) : p.Still p :=
  ⟨.refl _, id, .inl, rfl, rfl, fun _ => rfl, id, rfl, fun h => ⟨_, h, rfl, rfl⟩, rfl⟩

theorem Still.trans {p p' p'' : Page κ} (h : p.Still p') (h' : p'.Still p'') : p.Still p'' := by
  refine ⟨h.store.trans h'.store, h'.sound ∘ h.sound, fun hx => ?_,
    h'.compilers.trans h.compilers, h'.engines.trans h.engines,
    fun t => (h'.table t).trans (h.table t), h'.hasTable ∘ h.hasTable,
    h'.entropy.trans h.entropy, fun hx => ?_, h'.refusedWrites.trans h.refusedWrites⟩
  · rcases h'.only hx with hx | hx
    · exact h.only hx
    · exact .inr hx
  · obtain ⟨x', hx', hm, hn⟩ := h.element hx
    obtain ⟨x'', hx'', hm', hn'⟩ := h'.element hx'
    exact ⟨x'', hx'', hm'.trans hm, hn'.trans hn⟩

-- A change of the store alone.
theorem Still.of_store {p : Page κ} {s : Store (Reaction κ)} (h : p.store.SameData s)
    (hs : p.store.Sound → s.Sound) (ho : ∀ {w x}, s.watcher? w = some x →
      p.store.watcher? w = some x ∨ ∃ code, x.reaction = .client code) :
    p.Still { p with store := s } :=
  ⟨h, hs, ho, rfl, rfl, fun _ => rfl, id, rfl, fun h => ⟨_, h, rfl, rfl⟩, rfl⟩

-- A change of the document alone.
theorem Still.of_document {p : Page κ} {d : Document (Listener κ)}
    (he : ∀ {e x}, p.document.element? e = some x →
      ∃ x', d.element? e = some x' ∧ x'.markup = x.markup ∧ x'.writes = x.writes)
    (hr : d.refusedWrites = p.document.refusedWrites) : p.Still { p with document := d } :=
  ⟨.refl _, id, .inl, rfl, rfl, fun _ => rfl, id, rfl, he, hr⟩

theorem still_watch (p : Page κ) (o : ObjectId) (key : String) (code : κ) :
    p.Still { p with store := (p.store.watch o key (.client code)).2 } := by
  refine .of_store (Store.sameData_watch _ _ _ _) (fun h => h.watch _ _ _) fun {w x} hx => ?_
  exact (Store.watcher?_watch hx).imp_right fun h => ⟨code, congrArg Watcher.reaction h.2⟩

theorem still_wrap (p : Page κ) (fields : Fields Value) :
    p.Still { p with store := (p.store.wrap fields).2 } :=
  .of_store (Store.sameData_wrap _ _) (fun h => h.wrap _) fun hx =>
    .inl ((Store.watcher?_wrap _ _ _).symm.trans hx)

theorem still_newTable (p : Page κ) : p.Still p.newTable.2 := by
  refine ⟨.refl _, id, .inl, rfl, rfl, fun t => ?_, fun {t} h => ?_, rfl,
    fun h => ⟨_, h, rfl, rfl⟩, rfl⟩
  · simp only [table, newTable, Arena.get?_push]
    split
    · rename_i h
      have hnone : p.tables.get? t.index = none := (Arena.get?_eq_none_iff _ _).2 (by omega)
      rw [hnone]
      rfl
    · rfl
  · simp only [HasTable, newTable, Arena.get?_push]
    split
    · rfl
    · exact h

theorem still_listen (p : Page κ) (e : ElementId) (type : String) (l : Listener κ) :
    p.Still { p with document := (p.document.listen e type l).2 } :=
  .of_document (fun h => Document.element?_listen h e type l)
    (Document.refusedWrites_listen _ _ _ _)

theorem still_bindTypes (p : Page κ) (root : ElementId) (t : TableId) (methods : Fields κ)
    (receiver : Receiver κ) (types : List String) :
    p.Still (p.bindTypes root t methods receiver types).2 := by
  induction types generalizing p with
  | nil => exact .refl p
  | cons type types ih =>
    have hone := still_listen p root type (.delegate t methods receiver)
    rw [bindTypes]
    split
    · rename_i error document hl
      rwa [hl] at hone
    · rename_i document hl
      rw [hl] at hone
      exact hone.trans (ih _)

theorem bind_snd (p : Page κ) (root : ElementId) (t : TableId) (methods : Fields κ)
    (receiver : Receiver κ) :
    (p.bind root t methods receiver).2 =
      (p.bindTypes root t methods receiver (p.table t).eventTypes).2 := by
  rw [bind]
  split <;> rename_i h <;> rw [h]

theorem store_bindTypes (p : Page κ) (root : ElementId) (t : TableId) (methods : Fields κ)
    (receiver : Receiver κ) (types : List String) :
    (p.bindTypes root t methods receiver types).2.store = p.store := by
  induction types generalizing p with
  | nil => rfl
  | cons type types ih =>
    rw [bindTypes]
    split
    · rfl
    · exact ih _

theorem still_bind (p : Page κ) (root : ElementId) (t : TableId) (methods : Fields κ)
    (receiver : Receiver κ) : p.Still (p.bind root t methods receiver).2 := by
  rw [bind_snd]
  exact still_bindTypes p root t methods receiver _

-- Every move is a still one, or one of five kinds.
theorem Move.cases {permits : Request κ → Prop} {p p' : Page κ} (h : p.Move permits p') :
    p.Still p' ∨
    (∃ c, (permits (.perform (.compile c)) ∨
      ∃ w x, p.store.watcher? w = some x ∧ x.reaction = .render c) ∧ p' = (p.compile c).2) ∨
    (∃ e markup, permits (.perform (.setMarkup e markup)) ∧
      p' = { p with document := (p.document.setMarkup e markup).2 }) ∨
    (∃ writes listens, permits (.perform (.refuse writes listens)) ∧
      p' = { p with document := p.document.refuse writes listens }) ∨
    (∃ template data root ids table t,
      permits (.perform (.newCompiler template data root ids table)) ∧
      p' = (p.newCompiler (Template.parse template) data root t ids).2) ∨
    ∃ vm config, permits (.perform (.mount vm config)) ∧ p' = (p.mount vm config).2 := by
  cases h with
  | read o key =>
    exact .inl (.of_store (Store.sameData_get _ _ _) (fun h => h.get _ _) fun hx =>
      .inl ((Store.watcher?_get _ _ _ _).symm.trans hx))
  | wrap fields => exact .inl (still_wrap p fields)
  | wrapIn t fields =>
    exact .inl (.of_store (Store.sameData_wrapIn _ _ _) (fun h => h.wrapIn _ _) fun hx =>
      .inl ((Store.watcher?_wrapIn _ _ _ _).symm.trans hx))
  | watch o key code _ => exact .inl (still_watch p o key code)
  | newRegistry =>
    exact .inl (.of_store (Store.sameData_newRegistry _) (fun h => h.newRegistry) fun hx => .inl hx)
  | register r w _ =>
    exact .inl (.of_store (Store.sameData_register _ _ _) (fun h => h.register _ _) fun hx =>
      .inl ((Store.watcher?_register _ _ _ _).symm.trans hx))
  | occupy t w _ _ =>
    exact .inl (.of_store (Store.sameData_occupy _ _ _) (fun h => h.occupy _ _) fun hx =>
      .inl ((Store.watcher?_occupy _ _ _ _).symm.trans hx))
  | vacate t w _ =>
    exact .inl (.of_store (Store.sameData_vacate _ _) (fun h => h.vacate _) fun hx =>
      .inl ((Store.watcher?_vacate _ _ _).symm.trans hx))
  | createElement id =>
    exact .inl (.of_document (fun h => ⟨_, Document.element?_create h id, rfl, rfl⟩)
      (Document.refusedWrites_create _ _))
  | setMarkup e markup h => exact .inr (.inr (.inl ⟨e, markup, h, rfl⟩))
  | listen e type code => exact .inl (still_listen p e type (.client code))
  | refuse writes listens h => exact .inr (.inr (.inr (.inl ⟨writes, listens, h, rfl⟩)))
  | newTable => exact .inl (still_newTable p)
  | newCompiler template data root ids table t h =>
    exact .inr (.inr (.inr (.inr (.inl ⟨template, data, root, ids, table, t, h, rfl⟩))))
  | compile c h => exact .inr (.inl ⟨c, h, rfl⟩)
  | bind root t methods receiver => exact .inl (still_bind p root t methods receiver)
  | mount vm config h => exact .inr (.inr (.inr (.inr (.inr ⟨vm, config, h, rfl⟩))))

end ReactiveView.Page
