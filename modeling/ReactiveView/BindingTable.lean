/-!
# Event bindings

What a rendered binding attribute declares, and the table that finds it again by the id that was
rendered with it.  The table keeps its ids in the order in which they first came in; an id that
comes in again gets the new binding at its old place.
-/

namespace ReactiveView

/-- An event type and the method that events of this type run. -/
structure Binding where
  eventType : String
  method : String
  deriving DecidableEq, Repr, Inhabited

/-- Bindings by id, in the order of their first insertion. -/
structure BindingTable where
  rows : List (String × Binding) := []
  deriving DecidableEq, Repr, Inhabited

namespace BindingTable

/-! ## 1. Insertion -/

def empty : BindingTable := ⟨[]⟩

/-- The rows with `b` under `id`: in place if the id is there, else at the end. -/
def place (id : String) (b : Binding) : List (String × Binding) → List (String × Binding)
  | [] => [(id, b)]
  | row :: rest => if row.1 = id then (id, b) :: rest else row :: place id b rest

/-- Records `b` under `id`. -/
def insert (t : BindingTable) (id : String) (b : Binding) : BindingTable :=
  ⟨place id b t.rows⟩

/-! ## 2. Look-ups -/

/-- The binding among these rows that stands under `id`. -/
def lookup (id : String) : List (String × Binding) → Option Binding
  | [] => none
  | row :: rest => if row.1 = id then some row.2 else lookup id rest

/-- The binding recorded under `id`. -/
def get? (t : BindingTable) (id : String) : Option Binding := lookup id t.rows

/-- The binding recorded under `id`, if it is one for this event type. -/
def find? (t : BindingTable) (id eventType : String) : Option Binding :=
  (t.get? id).filter fun b => b.eventType == eventType

def size (t : BindingTable) : Nat := t.rows.length

def isEmpty (t : BindingTable) : Bool := t.rows.isEmpty

def ids (t : BindingTable) : List String := t.rows.map Prod.fst

/-- The id that came in last among the first insertions. -/
def latest? (t : BindingTable) : Option String := t.ids.getLast?

/-- `items` without those that came up before, in the order of first appearance. -/
def firstSeen (items : List String) : List String :=
  items.foldl (fun seen a => if a ∈ seen then seen else seen ++ [a]) []

/-- The event types of the current bindings, each once, in the order of their first rows. -/
def eventTypes (t : BindingTable) : List String :=
  firstSeen (t.rows.map fun row => row.2.eventType)

/-! ## 3. What an insertion does to the look-ups -/

theorem lookup_place (id : String) (b : Binding) (rows : List (String × Binding)) (q : String) :
    lookup q (place id b rows) = if id = q then some b else lookup q rows := by
  induction rows with
  | nil => simp [place, lookup]
  | cons row rest ih =>
    simp only [place]
    split
    · rename_i h
      subst h
      by_cases hq : row.1 = q <;> simp [lookup, hq]
    · rename_i h
      by_cases hq : row.1 = q
      · have hne : id ≠ q := fun e => h (hq.trans e.symm)
        simp [lookup, hq, hne]
      · simp [lookup, hq, ih]

theorem get?_insert (t : BindingTable) (id : String) (b : Binding) (q : String) :
    (t.insert id b).get? q = if id = q then some b else t.get? q :=
  lookup_place id b t.rows q

-- An insertion keeps the ids and their order; a new id goes to the end.
theorem ids_insert (t : BindingTable) (id : String) (b : Binding) :
    (t.insert id b).ids = if id ∈ t.ids then t.ids else t.ids ++ [id] := by
  obtain ⟨rows⟩ := t
  simp only [ids, insert]
  induction rows with
  | nil => simp [place]
  | cons row rest ih =>
    simp only [place]
    by_cases h : row.1 = id
    · simp [h]
    · have hne : ¬ id = row.1 := fun e => h e.symm
      by_cases hm : id ∈ rest.map Prod.fst
      · simp only [h, if_false, List.map_cons, ih, hm, if_true, List.mem_cons, or_true]
      · simp [h, ih, hm, hne]

end BindingTable

end ReactiveView
