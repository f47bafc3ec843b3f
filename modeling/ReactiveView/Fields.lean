/-!
# Fields

Finite maps keyed by text, as association lists in strictly ascending key order.  The order of
text is that of its code points, which is also the order of its UTF-8 bytes.  Main statements:
`get?_insert` says what an insertion does to look-ups, `Ordered.insert` that it keeps the order,
`Ordered.ext` that the look-ups determine the map.
-/

namespace ReactiveView

/-- A map from keys to entries, as a list of pairs in ascending key order. -/
abbrev Fields (α : Type) := List (String × α)

namespace Fields

variable {α β : Type}

/-! ## 1. Operations -/

/-- Each key stands once, after the smaller ones. -/
def Ordered (fs : Fields α) : Prop :=
  (fs.map Prod.fst).Pairwise (· < ·)

/-- The entry of a key. -/
def get? : Fields α → String → Option α
  | [], _ => none
  | (k, a) :: rest, key => if k = key then some a else get? rest key

def contains (fs : Fields α) (key : String) : Bool := (get? fs key).isSome

def keys (fs : Fields α) : List String := fs.map Prod.fst

/-- Stores `a` under `key`, in place of the entry that was there, if any. -/
def insert : Fields α → String → α → Fields α
  | [], key, a => [(key, a)]
  | (k, b) :: rest, key, a =>
    if key < k then (key, a) :: (k, b) :: rest
    else if key = k then (key, a) :: rest
    else (k, b) :: insert rest key a

/-- Removes the entry of `key`. -/
def erase (fs : Fields α) (key : String) : Fields α :=
  fs.filter fun e => e.1 ≠ key

/-- The map holding these entries; a later entry replaces an earlier one of the same key. -/
def ofList (entries : List (String × α)) : Fields α :=
  entries.foldl (fun fs e => insert fs e.1 e.2) []

/-- Changes every entry and keeps the keys. -/
def mapValues (f : α → β) (fs : Fields α) : Fields β :=
  fs.map fun e => (e.1, f e.2)

/-! ## 2. Look-ups after an operation -/

theorem get?_insert (fs : Fields α) (key : String) (a : α) (q : String) :
    get? (insert fs key a) q = if key = q then some a else get? fs q := by
  induction fs with
  | nil => simp [insert, get?]
  | cons e rest ih =>
    obtain ⟨k, b⟩ := e
    simp only [insert]
    split
    · simp [get?]
    · split
      · rename_i h
        subst h
        by_cases hq : key = q <;> simp [get?, hq]
      · rename_i h
        by_cases hq : k = q
        · have hne : key ≠ q := fun e => h (e.trans hq.symm)
          simp [get?, hq, hne]
        · simp [get?, hq, ih]

theorem get?_mapValues (f : α → β) (fs : Fields α) (q : String) :
    get? (mapValues f fs) q = (get? fs q).map f := by
  induction fs with
  | nil => rfl
  | cons e rest ih =>
    by_cases hq : e.1 = q
    · simp [mapValues, get?, hq]
    · simpa [mapValues, get?, hq] using ih

theorem mapValues_insert (f : α → β) (fs : Fields α) (key : String) (a : α) :
    mapValues f (insert fs key a) = insert (mapValues f fs) key (f a) := by
  induction fs with
  | nil => rfl
  | cons e rest ih =>
    obtain ⟨k, b⟩ := e
    change mapValues f (insert ((k, b) :: rest) key a) =
      insert ((k, f b) :: mapValues f rest) key (f a)
    simp only [insert]
    split
    · rfl
    · split
      · rfl
      · rw [← ih]
        rfl

theorem mem_of_get? {fs : Fields α} {key : String} {a : α} (h : get? fs key = some a) :
    (key, a) ∈ fs := by
  induction fs with
  | nil => cases h
  | cons e rest ih =>
    obtain ⟨k, b⟩ := e
    rw [get?] at h
    split at h
    · rename_i hk
      cases h
      rw [hk]
      exact List.mem_cons_self
    · exact List.mem_cons_of_mem _ (ih h)

/-! ## 3. Order -/

theorem ordered_nil : Ordered ([] : Fields α) := List.Pairwise.nil

theorem ordered_cons {k : String} {a : α} {rest : Fields α} :
    Ordered ((k, a) :: rest) ↔ (∀ e ∈ rest, k < e.1) ∧ Ordered rest := by
  simp only [Ordered, List.map_cons, List.pairwise_cons, List.mem_map]
  exact and_congr_left fun _ =>
    ⟨fun h e he => h _ ⟨e, he, rfl⟩, fun h _ ⟨e, he, hk⟩ => hk ▸ h e he⟩

theorem mem_insert {fs : Fields α} {key : String} {a : α} {e : String × α}
    (h : e ∈ insert fs key a) : e = (key, a) ∨ e ∈ fs := by
  induction fs with
  | nil => simpa [insert] using h
  | cons d rest ih =>
    obtain ⟨k, b⟩ := d
    simp only [insert] at h
    split at h
    · simpa using h
    · split at h
      · rcases List.mem_cons.1 h with h | h
        · exact .inl h
        · exact .inr (List.mem_cons_of_mem _ h)
      · rcases List.mem_cons.1 h with h | h
        · exact .inr (h ▸ List.mem_cons_self)
        · exact (ih h).imp_right (List.mem_cons_of_mem _)

/-- **Insertion keeps the keys ascending.** -/
theorem Ordered.insert {fs : Fields α} (h : Ordered fs) (key : String) (a : α) :
    Ordered (Fields.insert fs key a) := by
  induction fs with
  | nil => simp [Fields.insert, Ordered]
  | cons d rest ih =>
    obtain ⟨k, b⟩ := d
    have hc := ordered_cons.1 h
    simp only [Fields.insert]
    split
    · rename_i hlt
      refine ordered_cons.2 ⟨fun e he => ?_, h⟩
      rcases List.mem_cons.1 he with rfl | he
      · exact hlt
      · exact String.lt_trans hlt (hc.1 e he)
    · split
      · rename_i heq
        subst heq
        exact ordered_cons.2 hc
      · rename_i hnlt hne
        refine ordered_cons.2 ⟨fun e he => ?_, ih hc.2⟩
        rcases mem_insert he with rfl | he
        · exact String.not_le.1 fun hle => hne (String.le_antisymm hle (String.not_lt.1 hnlt))
        · exact hc.1 e he

theorem ordered_ofList (entries : List (String × α)) : Ordered (ofList entries) := by
  suffices h : ∀ (es : List (String × α)) (fs : Fields α), Ordered fs →
      Ordered (es.foldl (fun fs e => insert fs e.1 e.2) fs) from h entries [] ordered_nil
  intro es
  induction es with
  | nil => exact fun _ h => h
  | cons e es ih => exact fun fs h => ih _ (h.insert e.1 e.2)

theorem get?_of_lt {fs : Fields α} {key : String} (h : ∀ e ∈ fs, key < e.1) :
    get? fs key = none := by
  induction fs with
  | nil => rfl
  | cons e rest ih =>
    have hne : ¬ e.1 = key := fun he => String.lt_irrefl key (he ▸ h e List.mem_cons_self)
    rw [get?, if_neg hne]
    exact ih fun d hd => h d (List.mem_cons_of_mem _ hd)

theorem Ordered.get?_of_mem {fs : Fields α} (h : Ordered fs) {key : String} {a : α}
    (hm : (key, a) ∈ fs) : get? fs key = some a := by
  induction fs with
  | nil => cases hm
  | cons e rest ih =>
    obtain ⟨k, b⟩ := e
    have hc := ordered_cons.1 h
    rcases List.mem_cons.1 hm with he | hm
    · cases he
      rw [get?, if_pos rfl]
    · have hne : ¬ k = key := fun he => String.lt_irrefl k (he ▸ hc.1 _ hm)
      rw [get?, if_neg hne]
      exact ih hc.2 hm

-- No key comes before the first one.
theorem Ordered.head_le {k l : String} {a b : α} {fs : Fields α} (h : Ordered ((k, a) :: fs))
    (hl : get? ((k, a) :: fs) l = some b) : k ≤ l := by
  apply String.not_lt.1
  intro hlt
  rw [get?_of_lt] at hl
  · cases hl
  · intro e he
    rcases List.mem_cons.1 he with rfl | he
    · exact hlt
    · exact String.lt_trans hlt ((ordered_cons.1 h).1 e he)

/-- **Maps with the same look-ups are the same list.** -/
theorem Ordered.ext {fs gs : Fields α} (hf : Ordered fs) (hg : Ordered gs)
    (h : ∀ key, get? fs key = get? gs key) : fs = gs := by
  induction fs generalizing gs with
  | nil =>
    cases gs with
    | nil => rfl
    | cons e rest => simpa [get?] using h e.1
  | cons d fs ih =>
    obtain ⟨k, a⟩ := d
    cases gs with
    | nil => simpa [get?] using h k
    | cons e gs =>
      obtain ⟨l, b⟩ := e
      have hk : get? ((l, b) :: gs) k = some a := (h k).symm.trans (by rw [get?, if_pos rfl])
      have hl : get? ((k, a) :: fs) l = some b := (h l).trans (by rw [get?, if_pos rfl])
      obtain rfl : k = l := String.le_antisymm (hf.head_le hl) (hg.head_le hk)
      rw [get?, if_pos rfl] at hk
      rw [Option.some.inj hk, ih (ordered_cons.1 hf).2 (ordered_cons.1 hg).2 fun key => ?_]
      by_cases hkey : k = key
      · subst hkey
        rw [get?_of_lt (ordered_cons.1 hf).1, get?_of_lt (ordered_cons.1 hg).1]
      · have hrest := h key
        rwa [get?, if_neg hkey, get?, if_neg hkey] at hrest

theorem Ordered.mapValues {fs : Fields α} (h : Ordered fs) (f : α → β) :
    Ordered (Fields.mapValues f fs) := by
  simpa [Ordered, Fields.mapValues, Function.comp_def] using h

end Fields

end ReactiveView
