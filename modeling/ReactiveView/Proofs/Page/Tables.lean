import ReactiveView.Proofs.Page.Growth

/-!
# Where the ids of a table come from

A table holds only ids that were drawn by the compilers that fill it.
-/

namespace ReactiveView.Page

variable {κ : Type}

theorem table_of_modify {p p' : Page κ} {u : TableId} {f : BindingTable → BindingTable}
    (h : p'.tables = p.tables.modify u.index f) (t : TableId) :
    p'.table t = if u = t ∧ p.HasTable t then f (p.table t) else p.table t := by
  obtain ⟨i⟩ := u
  obtain ⟨j⟩ := t
  simp only [table, HasTable, h, Arena.get?_modify, TableId.mk.injEq]
  by_cases hij : i = j
  · subst hij
    cases p.tables.get? i <;> simp
  · simp [hij]

/-- Every id in a table may have been given by a compiler that fills the table. -/
def Traced (p : Page κ) : Prop :=
  ∀ {t id}, id ∈ (p.table t).ids →
    ∃ c x, p.compiler? c = some x ∧ x.table = t ∧ x.ids.Given id

theorem Traced.calm {p p' : Page κ} (h : p.Traced) (hc : p.Calm p')
    (ht : ∀ t, p'.table t = p.table t) : p'.Traced := by
  intro t id hid
  rw [ht] at hid
  obtain ⟨c, x, hx, hrest⟩ := h hid
  exact ⟨c, x, hc.compiler hx, hrest⟩

theorem Traced.compile {p : Page κ} (h : p.Traced) (c : CompilerId) :
    (p.compile c).2.Traced := by
  have hgrows := (recompiled p c).grows
  have hold : ∀ {t id}, id ∈ (p.table t).ids →
      ∃ d x, (p.compile c).2.compiler? d = some x ∧ x.table = t ∧ x.ids.Given id := by
    intro t id hid
    obtain ⟨d, x, hx, ht, hgiven⟩ := h hid
    obtain ⟨x', hx', hcont⟩ := hgrows.compiler hx
    exact ⟨d, x', hx', hcont.table.trans ht, hcont.given hgiven⟩
  intro t id hid
  rcases compile_parts p c with hidle | ⟨x, y, -, hfull, hs | ⟨drawn, markup, result, hr⟩⟩
  · rw [hidle] at hid
    exact hold hid
  · rw [table, hs.tables] at hid
    exact hold hid
  · have hdrawn := hr.drawn
    split at hdrawn
    · rw [table, hdrawn.2.2.2] at hid
      exact hold hid
    · obtain ⟨i, -, hd, htables⟩ := hdrawn
      rw [table_of_modify htables] at hid
      by_cases hin : x.table = t ∧ p.HasTable t
      · rw [if_pos hin, BindingTable.ids_insert] at hid
        -- the id is an old one, or the one that this compile drew
        have hcase : id ∈ (p.table t).ids ∨ id = i := by
          split at hid
          · exact .inl hid
          · exact (List.mem_append.1 hid).imp_right List.mem_singleton.1
        rcases hcase with hid | rfl
        · exact hold hid
        · exact ⟨c, y, hr.compiler, (hr.continues hfull).table.trans hin.1, IdSource.given_draw hd⟩
      · rw [if_neg hin] at hid
        exact hold hid

theorem Move.traced {permits : Request κ → Prop} {p p' : Page κ} (h : p.Move permits p')
    (ht : p.Traced) : p'.Traced :=
  h.of_calm Traced Traced.calm Traced.compile ht

end ReactiveView.Page
