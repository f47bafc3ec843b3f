import Mathlib.Data.Finset.Card
import ReactiveView.Proofs.BindingTable

/-!
# Insertion order

What a binding table holds after any sequence of insertions, ids repeated in any pattern: places go
by the first insertion of an id, bindings by the last one.  The same table is reached when the
bindings are kept in a hash map and the order of the ids in a list beside it.
-/

namespace ReactiveView.BindingTable

/-! ## 1. The last entry under an id -/

/-- Entries that are recorded in turn. -/
abbrev Entries := List (String × Binding)

/-- The last one of the entries under this id has the binding `b`. -/
def LastUnder (entries : Entries) (id : String) (b : Binding) : Prop :=
  ∃ before behind, entries = before ++ (id, b) :: behind ∧ ∀ e ∈ behind, e.1 ≠ id

theorem not_lastUnder_nil (id : String) (b : Binding) : ¬ LastUnder [] id b := by
  rintro ⟨before, behind, h, -⟩
  cases before <;> cases h

theorem lastUnder_concat (entries : Entries) (e : String × Binding) (id : String) (b : Binding) :
    LastUnder (entries ++ [e]) id b ↔ if e.1 = id then e.2 = b else LastUnder entries id b := by
  constructor
  · rintro ⟨before, behind, h, hbehind⟩
    rcases List.eq_nil_or_concat' behind with rfl | ⟨front, last, rfl⟩
    · obtain ⟨-, he⟩ := List.append_inj' h rfl
      cases he
      rw [if_pos rfl]
    · rw [← List.cons_append, ← List.append_assoc] at h
      obtain ⟨hentries, he⟩ := List.append_inj' h rfl
      cases he
      rw [if_neg (hbehind e List.mem_concat_self)]
      exact ⟨before, front, hentries, fun d hd => hbehind d (List.mem_append_left _ hd)⟩
  · intro h
    split at h
    · rename_i hid
      exact ⟨entries, [], by rw [← hid, ← h], fun d hd => absurd hd List.not_mem_nil⟩
    · rename_i hid
      obtain ⟨before, behind, rfl, hbehind⟩ := h
      refine ⟨before, behind ++ [e], by rw [List.append_assoc]; rfl, fun d hd => ?_⟩
      rcases List.mem_append.1 hd with hd | hd
      · exact hbehind d hd
      · rw [List.mem_singleton.1 hd]
        exact hid

/-! ## 2. A table behind its entries -/

/-- The table in which these entries were recorded in turn. -/
def recorded (entries : Entries) : BindingTable :=
  entries.foldl (fun t e => t.insert e.1 e.2) empty

theorem recorded_concat (entries : Entries) (e : String × Binding) :
    recorded (entries ++ [e]) = (recorded entries).insert e.1 e.2 := by
  rw [recorded, List.foldl_append]
  rfl

theorem firstOnly_recorded (entries : Entries) :
    FirstOnly (entries.map Prod.fst) (recorded entries).ids := by
  induction entries using List.reverseRecOn with
  | nil => exact .nil
  | append_singleton entries e ih =>
    rw [recorded_concat, ids_insert, List.map_append]
    exact ih.concat e.1

theorem get?_recorded {entries : Entries} {id : String} {b : Binding} :
    (recorded entries).get? id = some b ↔ LastUnder entries id b := by
  induction entries using List.reverseRecOn with
  | nil => exact iff_of_false (by simp [recorded, empty, get?, lookup]) (not_lastUnder_nil id b)
  | append_singleton entries e ih =>
    rw [recorded_concat, get?_insert, lastUnder_concat]
    split
    · exact Option.some_inj
    · exact ih

/-! ## 3. The table in two parts -/

/-- Bindings in no order, and beside them their ids in the order of first insertion. -/
structure TwoPart where
  bindings : Std.HashMap String Binding
  order : List String
  nodup : order.Nodup
  mem_order : ∀ id, id ∈ order ↔ id ∈ bindings

namespace TwoPart

def empty : TwoPart := ⟨∅, [], List.nodup_nil, by simp⟩

/-- Records `b` under `id`; an id that had no binding goes to the end of the order. -/
def insert (x : TwoPart) (id : String) (b : Binding) : TwoPart where
  bindings := x.bindings.insert id b
  order := if id ∈ x.bindings then x.order else x.order ++ [id]
  nodup := by
    split
    · exact x.nodup
    · rename_i hnew
      rw [← List.concat_eq_append, List.nodup_concat]
      exact ⟨fun hid => hnew ((x.mem_order id).1 hid), x.nodup⟩
  mem_order q := by
    rw [Std.HashMap.mem_insert, beq_iff_eq, ← x.mem_order q]
    split
    · rename_i hold
      exact ⟨.inr, fun hq => hq.elim (fun e => e ▸ (x.mem_order id).2 hold) fun hq => hq⟩
    · rw [List.mem_append, List.mem_singleton, or_comm, eq_comm]

/-- The bindings with their ids, in the order of the ids. -/
def rows (x : TwoPart) : List (String × Binding) :=
  x.order.filterMap fun id => x.bindings[id]?.map fun b => (id, b)

/-- The two parts in which these entries were recorded in turn. -/
def recorded (entries : Entries) : TwoPart :=
  entries.foldl (fun x e => x.insert e.1 e.2) empty

theorem recorded_concat (entries : Entries) (e : String × Binding) :
    recorded (entries ++ [e]) = (recorded entries).insert e.1 e.2 := by
  rw [recorded, List.foldl_append]
  rfl

/-- Both tables have the same ids in the same order, with the same bindings. -/
structure Holds (x : TwoPart) (t : BindingTable) : Prop where
  order : x.order = t.ids
  get? : ∀ id, x.bindings[id]? = t.get? id

theorem Holds.insert {x : TwoPart} {t : BindingTable} (h : x.Holds t) (id : String) (b : Binding) :
    (x.insert id b).Holds (t.insert id b) := by
  constructor
  · show (if id ∈ x.bindings then x.order else x.order ++ [id]) = (t.insert id b).ids
    rw [ids_insert, ← h.order]
    exact if_congr (x.mem_order id).symm rfl rfl
  · intro q
    show (x.bindings.insert id b)[q]? = (t.insert id b).get? q
    rw [Std.HashMap.getElem?_insert, get?_insert, h.get?]
    exact if_congr beq_iff_eq rfl rfl

theorem holds_recorded (entries : Entries) :
    (recorded entries).Holds (BindingTable.recorded entries) := by
  induction entries using List.reverseRecOn with
  | nil => exact ⟨rfl, fun id => Std.HashMap.getElem?_empty⟩
  | append_singleton entries e ih =>
    rw [recorded_concat, BindingTable.recorded_concat]
    exact ih.insert e.1 e.2

-- Every id of the order has its binding, so that no row is left out.
theorem Holds.rows {x : TwoPart} {t : BindingTable} (h : x.Holds t) : x.rows = t.rows := by
  have hrow : ∀ row ∈ t.rows, (x.bindings[row.1]?.map fun b => (row.1, b)) = some row := by
    intro row hin
    rw [h.get?, (get?_eq_some_iff (h.order ▸ x.nodup)).2 hin]
    rfl
  rw [TwoPart.rows, h.order, ids, List.filterMap_map]
  exact (List.filterMap_congr hrow).trans List.filterMap_some

end TwoPart

/-! ## 4. Maps in insertion order -/

/-- What a table holds when these entries were recorded in it. -/
structure InsertionOrdered (entries : Entries) (t : BindingTable) : Prop where
  -- Each id stands once, in the order of the first insertions, with the binding of the last one.
  ids : FirstOnly (entries.map Prod.fst) (t.rows.map Prod.fst)
  rows : ∀ id b, (id, b) ∈ t.rows ↔ LastUnder entries id b
  size : t.size = (entries.map Prod.fst).toFinset.card
  get? : ∀ id b, t.get? id = some b ↔ (id, b) ∈ t.rows
  find? : ∀ id type b, t.find? id type = some b ↔ t.get? id = some b ∧ b.eventType = type
  latest? : ∀ id, t.latest? = some id ↔ id ∈ entries.map Prod.fst ∧
    ∀ q ∈ entries.map Prod.fst, (entries.map Prod.fst).idxOf q ≤ (entries.map Prod.fst).idxOf id
  -- The types are those of the bindings that are left, in the order of their first rows.
  eventTypes : FirstOnly (t.rows.map fun row => row.2.eventType) t.eventTypes
  mem_eventTypes : ∀ type, type ∈ t.eventTypes ↔
    ∃ id b, LastUnder entries id b ∧ b.eventType = type
  -- Another insertion keeps the ids and their order, and may add one at the end.
  grows : ∀ id b, t.ids <+: (t.insert id b).ids

/-- **A binding table is a map in insertion order**, whatever entries are recorded in it; kept as a
    hash map and a list of ids, its two parts stay in step and give the same rows. -/
theorem recorded_insertionOrdered (entries : Entries) :
    InsertionOrdered entries (recorded entries) ∧
      (TwoPart.recorded entries).order.Nodup ∧
      (∀ id, id ∈ (TwoPart.recorded entries).order ↔ id ∈ (TwoPart.recorded entries).bindings) ∧
      (TwoPart.recorded entries).Holds (recorded entries) ∧
      (TwoPart.recorded entries).rows = (recorded entries).rows := by
  have hids := firstOnly_recorded entries
  have hget : ∀ id b, (recorded entries).get? id = some b ↔ (id, b) ∈ (recorded entries).rows :=
    fun id b => get?_eq_some_iff hids.nodup
  have hrows : ∀ id b, (id, b) ∈ (recorded entries).rows ↔ LastUnder entries id b := fun id b =>
    (hget id b).symm.trans get?_recorded
  have hholds := TwoPart.holds_recorded entries
  refine ⟨?_, (TwoPart.recorded entries).nodup, (TwoPart.recorded entries).mem_order, hholds,
    hholds.rows⟩
  constructor
  case ids => exact hids
  case rows => exact hrows
  case size =>
    have hset : (entries.map Prod.fst).toFinset = (recorded entries).ids.toFinset :=
      Finset.ext fun id => by rw [List.mem_toFinset, List.mem_toFinset, hids.mem]
    rw [hset, List.toFinset_card_of_nodup hids.nodup, BindingTable.ids, List.length_map, size]
  case get? => exact hget
  case find? => exact fun _ _ _ => find?_eq_some_iff
  case latest? => exact fun _ => hids.getLast?_eq_some_iff
  case eventTypes => exact firstOnly_firstSeen _
  case mem_eventTypes =>
    intro type
    rw [mem_eventTypes]
    constructor
    · rintro ⟨⟨id, b⟩, hrow, htype⟩
      exact ⟨id, b, (hrows id b).1 hrow, htype⟩
    · rintro ⟨id, b, hlast, htype⟩
      exact ⟨(id, b), (hrows id b).2 hlast, htype⟩
  case grows => exact ids_prefix_insert _

-- The only `click` was replaced, and its type is gone; the id keeps its place.
example : (((empty.insert "a" ⟨"click", "open"⟩).insert "b" ⟨"keydown", "save"⟩).insert "a"
    ⟨"input", "search"⟩).eventTypes = ["input", "keydown"] := by decide

end ReactiveView.BindingTable
