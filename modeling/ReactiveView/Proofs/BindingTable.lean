import Mathlib.Data.List.Basic
import Mathlib.Data.List.Induction
import ReactiveView.BindingTable

/-!
# Rows and event types of a binding table

What an insertion adds to the rows of a table, which id is the latest, in which order items appear
first, and which event types a table has.
-/

namespace ReactiveView.BindingTable

/-! ## 1. Rows -/

theorem mem_place {id : String} {b : Binding} {rows : List (String × Binding)}
    {row : String × Binding} (h : row ∈ place id b rows) : row = (id, b) ∨ row ∈ rows := by
  induction rows with
  | nil => exact .inl (List.mem_singleton.1 h)
  | cons head rest ih =>
    rw [place] at h
    split at h
    · rcases List.mem_cons.1 h with h | h
      · exact .inl h
      · exact .inr (List.mem_cons_of_mem _ h)
    · rcases List.mem_cons.1 h with rfl | h
      · exact .inr List.mem_cons_self
      · exact (ih h).imp_right (List.mem_cons_of_mem _)

-- A row of a table behind an insertion is the new one, or was there before.
theorem mem_rows_insert {t : BindingTable} {id : String} {b : Binding} {row : String × Binding}
    (h : row ∈ (t.insert id b).rows) : row = (id, b) ∨ row ∈ t.rows :=
  mem_place h

theorem mem_rows_of_lookup {id : String} {b : Binding} {rows : List (String × Binding)}
    (h : lookup id rows = some b) : (id, b) ∈ rows := by
  induction rows with
  | nil => cases h
  | cons head rest ih =>
    rw [lookup] at h
    split at h
    · rename_i hid
      cases h
      rw [← hid]
      exact List.mem_cons_self
    · exact List.mem_cons_of_mem _ (ih h)

theorem mem_rows_of_get? {t : BindingTable} {id : String} {b : Binding}
    (h : t.get? id = some b) : (id, b) ∈ t.rows :=
  mem_rows_of_lookup h

-- With each id once, a row is found under its id.
theorem get?_eq_some_iff {t : BindingTable} (h : t.ids.Nodup) {id : String} {b : Binding} :
    t.get? id = some b ↔ (id, b) ∈ t.rows := by
  refine ⟨mem_rows_of_get?, fun hrow => ?_⟩
  obtain ⟨rows⟩ := t
  show lookup id rows = some b
  replace h : (rows.map Prod.fst).Nodup := h
  replace hrow : (id, b) ∈ rows := hrow
  induction rows with
  | nil => cases hrow
  | cons row rest ih =>
    obtain ⟨hnew, hrest⟩ := List.nodup_cons.1 h
    rcases List.mem_cons.1 hrow with rfl | hrow
    · rw [lookup, if_pos rfl]
    · have hne : row.1 ≠ id := fun e => hnew (List.mem_map.2 ⟨(id, b), hrow, e.symm⟩)
      rw [lookup, if_neg hne]
      exact ih hrest hrow

theorem mem_rows_insert_self (t : BindingTable) (id : String) (b : Binding) :
    (id, b) ∈ (t.insert id b).rows := by
  refine mem_rows_of_get? ?_
  rw [get?_insert, if_pos rfl]

-- An insertion keeps the ids and their order.
theorem ids_prefix_insert (t : BindingTable) (id : String) (b : Binding) :
    t.ids <+: (t.insert id b).ids := by
  rw [ids_insert]
  split
  · exact List.prefix_rfl
  · exact List.prefix_append _ _

-- An id that is new to a table is the latest one once it is in.
theorem latest?_insert {t : BindingTable} {id : String} (h : id ∉ t.ids) (b : Binding) :
    (t.insert id b).latest? = some id := by
  rw [latest?, ids_insert, if_neg h, List.getLast?_concat]

-- A binding is found for its own event type only.
theorem find?_eq_some_iff {t : BindingTable} {id type : String} {b : Binding} :
    t.find? id type = some b ↔ t.get? id = some b ∧ b.eventType = type := by
  rw [find?, Option.filter_eq_some_iff, beq_iff_eq]

/-! ## 2. First appearances -/

/-- `kept` has each item of `all` once, in the order in which they first appear there. -/
structure FirstOnly (all kept : List String) : Prop where
  mem : ∀ a, a ∈ kept ↔ a ∈ all
  order : kept.Pairwise fun a b => all.idxOf a < all.idxOf b

namespace FirstOnly

variable {all kept : List String}

theorem nil : FirstOnly [] [] := ⟨fun _ => Iff.rfl, List.Pairwise.nil⟩

theorem nodup (h : FirstOnly all kept) : kept.Nodup :=
  h.order.imp fun hlt => by
    rintro rfl
    exact Nat.lt_irrefl _ hlt

-- One more item is kept if it did not appear before.
theorem concat (h : FirstOnly all kept) (a : String) :
    FirstOnly (all ++ [a]) (if a ∈ kept then kept else kept ++ [a]) := by
  have hold : ∀ x ∈ kept, (all ++ [a]).idxOf x = all.idxOf x := fun x hx =>
    List.idxOf_append_of_mem ((h.mem x).1 hx)
  have horder : kept.Pairwise fun x y => (all ++ [a]).idxOf x < (all ++ [a]).idxOf y := by
    apply h.order.imp_of_mem
    intro x y hx hy hlt
    rw [hold x hx, hold y hy]
    exact hlt
  by_cases ha : a ∈ kept
  · rw [if_pos ha]
    refine ⟨fun x => ?_, horder⟩
    rw [h.mem, List.mem_append, List.mem_singleton]
    exact ⟨.inl, fun hx => hx.elim id fun e => e ▸ (h.mem a).1 ha⟩
  · rw [if_neg ha]
    refine ⟨fun x => by rw [List.mem_append, List.mem_append, h.mem], ?_⟩
    have hnew : (all ++ [a]).idxOf a = all.length := by
      rw [List.idxOf_append_of_notMem fun hin => ha ((h.mem a).2 hin), List.idxOf_cons_self]
      rfl
    apply List.pairwise_append.2 ⟨horder, List.pairwise_singleton _ _, _⟩
    intro x hx y hy
    rw [List.mem_singleton.1 hy, hnew, hold x hx]
    exact List.idxOf_lt_length_iff.2 ((h.mem x).1 hx)

-- The last one kept is the one whose first appearance comes last.
theorem getLast?_eq_some_iff (h : FirstOnly all kept) {a : String} :
    kept.getLast? = some a ↔ a ∈ all ∧ ∀ b ∈ all, all.idxOf b ≤ all.idxOf a := by
  rw [← h.mem]
  have hmem : ∀ b, b ∈ all ↔ b ∈ kept := fun b => (h.mem b).symm
  simp only [hmem]
  rcases List.eq_nil_or_concat' kept with rfl | ⟨front, last, rfl⟩
  · simp
  · have hfront : ∀ b ∈ front, all.idxOf b < all.idxOf last := fun b hb =>
      (List.pairwise_append.1 h.order).2.2 b hb last (List.mem_singleton.2 rfl)
    rw [List.getLast?_concat, Option.some.injEq]
    constructor
    · rintro rfl
      refine ⟨List.mem_concat_self, fun b hb => ?_⟩
      rcases List.mem_append.1 hb with hb | hb
      · exact Nat.le_of_lt (hfront b hb)
      · exact Nat.le_of_eq (congrArg (all.idxOf ·) (List.mem_singleton.1 hb))
    · rintro ⟨ha, hmax⟩
      rcases List.mem_append.1 ha with ha | ha
      · have hle := hmax last List.mem_concat_self
        have hlt := hfront a ha
        omega
      · exact (List.mem_singleton.1 ha).symm

end FirstOnly

theorem firstOnly_firstSeen (items : List String) : FirstOnly items (firstSeen items) := by
  induction items using List.reverseRecOn with
  | nil => exact .nil
  | append_singleton items a ih =>
    have hseen : firstSeen (items ++ [a]) =
        if a ∈ firstSeen items then firstSeen items else firstSeen items ++ [a] := by
      rw [firstSeen, List.foldl_append]
      rfl
    rw [hseen]
    exact ih.concat a

theorem nodup_firstSeen (items : List String) : (firstSeen items).Nodup :=
  (firstOnly_firstSeen items).nodup

theorem mem_firstSeen {items : List String} {a : String} : a ∈ firstSeen items ↔ a ∈ items :=
  (firstOnly_firstSeen items).mem a

/-! ## 3. Event types -/

/-- **The event types of a table are those of its rows**, each of them once. -/
theorem mem_eventTypes {t : BindingTable} {type : String} :
    type ∈ t.eventTypes ↔ ∃ row ∈ t.rows, row.2.eventType = type :=
  mem_firstSeen.trans List.mem_map

theorem nodup_eventTypes (t : BindingTable) : t.eventTypes.Nodup := nodup_firstSeen _

end ReactiveView.BindingTable
