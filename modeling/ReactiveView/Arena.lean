/-!
# Arenas

Tables that only grow: an entry keeps its index for ever and can be changed but not removed.
Everything with an identity lives in an arena, and its identity is its index.
-/

namespace ReactiveView

/-- A growing table of entries. -/
structure Arena (α : Type) where
  cells : Array α := #[]
  deriving Repr, Inhabited

namespace Arena

variable {α : Type}

/-! ## 1. Operations -/

def size (a : Arena α) : Nat := a.cells.size

def get? (a : Arena α) (i : Nat) : Option α := a.cells[i]?

/-- Adds an entry; its index is the size before. -/
def push (a : Arena α) (x : α) : Arena α := ⟨a.cells.push x⟩

/-- Changes the entry at `i`; nothing happens if there is none. -/
def modify (a : Arena α) (i : Nat) (f : α → α) : Arena α := ⟨a.cells.modify i f⟩

def toList (a : Arena α) : List α := a.cells.toList

/-! ## 2. What an operation does to size and look-ups -/

@[simp]
theorem size_modify (a : Arena α) (i : Nat) (f : α → α) : (a.modify i f).size = a.size := by
  simp [size, modify]

theorem get?_push (a : Arena α) (x : α) (i : Nat) :
    (a.push x).get? i = if i = a.size then some x else a.get? i :=
  Array.getElem?_push

theorem get?_modify (a : Arena α) (i : Nat) (f : α → α) (j : Nat) :
    (a.modify i f).get? j = if i = j then (a.get? j).map f else a.get? j := by
  simp [get?, modify, Array.getElem?_modify]

theorem get?_eq_none_iff (a : Arena α) (i : Nat) : a.get? i = none ↔ a.size ≤ i := by
  simp [get?, size]

theorem get?_isSome_iff (a : Arena α) (i : Nat) : (a.get? i).isSome ↔ i < a.size := by
  simp [get?, size]

theorem mem_toList_iff {a : Arena α} {x : α} : x ∈ a.toList ↔ ∃ i, a.get? i = some x := by
  rw [toList, Array.mem_toList_iff, Array.mem_iff_getElem?]
  rfl

end Arena

end ReactiveView
