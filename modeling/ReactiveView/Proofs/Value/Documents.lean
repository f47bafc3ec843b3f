import Mathlib
import ReactiveView.Json

/-!
# Values and their documents

A value loses nothing in its JSON document but `undefined` and the numbers that are not finite.
What is read from a document has neither, so that its own document gives it back.  An array is read
as an object: the positions in decimal are different texts, and no item takes the place of another,
although as texts they stand in another order.
-/

namespace ReactiveView

/-! ## 1. Maps of entries with different keys -/

namespace Fields

variable {α : Type}

-- A new key adds one entry, wherever the order puts it.
theorem insert_perm {fs : Fields α} {key : String} (h : key ∉ keys fs) (a : α) :
    (insert fs key a).Perm ((key, a) :: fs) := by
  induction fs with
  | nil => exact .refl _
  | cons e rest ih =>
    have hne : key ≠ e.1 := fun heq => h (heq ▸ List.mem_cons_self)
    have hrest : key ∉ keys rest := fun hin => h (List.mem_cons_of_mem _ hin)
    rw [insert]
    by_cases hlt : key < e.1
    · rw [if_pos hlt]
    · rw [if_neg hlt, if_neg hne]
      exact ((ih hrest).cons e).trans (.swap (key, a) e rest)

theorem ofList_perm {entries : List (String × α)} (h : (entries.map Prod.fst).Nodup) :
    (ofList entries).Perm entries := by
  induction entries using List.reverseRecOn with
  | nil => exact .refl _
  | append_singleton entries e ih =>
    rw [List.map_append] at h
    obtain ⟨hnodup, -, hnew⟩ := List.nodup_append.1 h
    have hkey : e.1 ∉ keys (ofList entries) := by
      intro hin
      have hold : e.1 ∈ entries.map Prod.fst := ((ih hnodup).map Prod.fst).mem_iff.1 hin
      exact hnew e.1 hold e.1 (List.mem_singleton.2 rfl) rfl
    rw [ofList, List.foldl_append]
    calc List.Perm (insert (ofList entries) e.1 e.2) (e :: ofList entries) := insert_perm hkey e.2
      List.Perm _ (e :: entries) := (ih hnodup).cons e
      List.Perm _ (entries ++ [e]) := (List.perm_append_singleton e entries).symm

end Fields

/-! ## 2. Inside a value -/

/-- The document `w` is the whole one, or stands at some depth inside it. -/
inductive Json.Inside (w : Json) : Json → Prop where
  | self : Inside w w
  | item {items j} (hmem : j ∈ items) (h : Inside w j) : Inside w (.array items)
  | field {fields k j} (hmem : (k, j) ∈ fields) (h : Inside w j) : Inside w (.object fields)

/-- No number of the document is a NaN or infinite. -/
def Json.Finite (j : Json) : Prop := ∀ n, Inside (.number n) j → n.isFinite

namespace Value

/-- The value `w` is the whole one, or stands at some depth inside it. -/
inductive Inside (w : Value) : Value → Prop where
  | self : Inside w w
  | field {fields k v} (hmem : (k, v) ∈ fields) (h : Inside w v) : Inside w (object fields)

mutual

/-- Changes every scalar, at any depth, and keeps the keys. -/
def mapScalars (f : Value → Value) : Value → Value
  | object fields => object (mapScalarsIn f fields)
  | v => f v

/-- Changes every scalar in the entries of a field list. -/
def mapScalarsIn (f : Value → Value) : List (String × Value) → List (String × Value)
  | [] => []
  | (k, v) :: rest => (k, mapScalars f v) :: mapScalarsIn f rest

end

/-- `null` in place of `undefined` and of a number that is not finite. -/
def orNull : Value → Value
  | undefined => null
  | number n => if n.isFinite then number n else null
  | v => v

/-- The value is neither `undefined` nor a number that is not finite. -/
def Kept : Value → Prop
  | undefined => False
  | number n => n.isFinite
  | _ => True

theorem kept_iff {v : Value} : v.Kept ↔ v ≠ undefined ∧ ∀ n, v = number n → n.isFinite := by
  cases v <;> simp [Kept]

theorem Kept.orNull {v : Value} (h : v.Kept) : v.orNull = v := by
  cases v with
  | undefined => exact h.elim
  | number n => exact if_pos h
  | _ => rfl

mutual

theorem mapScalars_orNull : ∀ v : Value, (∀ w, Inside w v → w.Kept) → v.mapScalars orNull = v
  | undefined, h => (h _ .self).elim
  | null, _ => rfl
  | bool _, _ => rfl
  | number _, h => (h _ .self).orNull
  | text _, _ => rfl
  | object fields, h =>
    congrArg object (mapScalarsIn_orNull fields fun _ _ hmem w hw => h w (.field hmem hw))

theorem mapScalarsIn_orNull : ∀ fields : List (String × Value),
    (∀ k v, (k, v) ∈ fields → ∀ w, Inside w v → w.Kept) → mapScalarsIn orNull fields = fields
  | [], _ => rfl
  | (k, v) :: rest, h => by
    rw [mapScalarsIn, mapScalars_orNull v (h k v List.mem_cons_self),
      mapScalarsIn_orNull rest fun _ _ hmem => h _ _ (List.mem_cons_of_mem _ hmem)]

end

/-! ## 3. There and back -/

mutual

theorem ofJson_toJson : ∀ v : Value, ofJson v.toJson = v.mapScalars orNull
  | undefined => rfl
  | null => rfl
  | bool _ => rfl
  | number n => by
    rw [toJson, mapScalars, orNull]
    · split <;> rfl
    · intro _ h
      cases h
  | text _ => rfl
  | object fields => congrArg object (fieldsOfJson_fieldsToJson fields)

theorem fieldsOfJson_fieldsToJson : ∀ fields : List (String × Value),
    fieldsOfJson (fieldsToJson fields) = mapScalarsIn orNull fields
  | [] => rfl
  | (k, v) :: rest => by
    rw [fieldsToJson, fieldsOfJson, mapScalarsIn, ofJson_toJson v, fieldsOfJson_fieldsToJson rest]

end

/-! ## 4. Arrays -/

theorem itemsOfJson_eq (items : List Json) : itemsOfJson items = items.map ofJson := by
  induction items with
  | nil => rfl
  | cons j rest ih => rw [itemsOfJson, ih, List.map_cons]

theorem positioned_eq (i : Nat) (vs : List Value) :
    positioned i vs = (vs.zipIdx i).map fun p => (p.2.repr, p.1) := by
  induction vs generalizing i with
  | nil => rfl
  | cons v rest ih => rw [positioned, ih, List.zipIdx_cons, List.map_cons]

theorem keys_positioned (vs : List Value) :
    (positioned 0 vs).map Prod.fst = (List.range vs.length).map Nat.repr := by
  rw [positioned_eq, List.map_map, List.range_eq_range', ← List.zipIdx_map_snd 0 vs, List.map_map]
  rfl

theorem mem_positioned {vs : List Value} {k : String} {v : Value} :
    (k, v) ∈ positioned 0 vs ↔ ∃ i : Nat, vs[i]? = some v ∧ i.repr = k := by
  rw [positioned_eq, List.mem_map]
  constructor
  · rintro ⟨⟨u, i⟩, hmem, heq⟩
    cases heq
    exact ⟨i, List.mem_zipIdx_iff_getElem?.1 hmem, rfl⟩
  · rintro ⟨i, hget, hk⟩
    exact ⟨(v, i), List.mem_zipIdx_iff_getElem?.2 hget, by rw [← hk]⟩

/-- **No item of an array is overwritten**: the positions in decimal are different keys. -/
theorem perm_positioned (vs : List Value) :
    (Fields.ofList (positioned 0 vs)).Perm (positioned 0 vs) := by
  apply Fields.ofList_perm
  rw [keys_positioned]
  exact List.Nodup.map (fun _ _ h => Nat.repr_injective h) List.nodup_range

/-- An array of `n` items becomes an object with the keys from 0 to `n - 1` in decimal, each of them
    once and with its own item. -/
theorem ofJson_array (items : List Json) :
    ∃ fields, ofJson (.array items) = object fields ∧ Fields.Ordered fields ∧
      (Fields.keys fields).Perm ((List.range items.length).map Nat.repr) ∧
      ∀ i (h : i < items.length), Fields.get? fields i.repr = some (ofJson items[i]) := by
  have hperm := perm_positioned (items.map ofJson)
  have hordered := Fields.ordered_ofList (positioned 0 (items.map ofJson))
  refine ⟨Fields.ofList (positioned 0 (items.map ofJson)), ?_, hordered, ?_, fun i h => ?_⟩
  · rw [ofJson, itemsOfJson_eq, ofFields]
  · have hkeys := hperm.map Prod.fst
    rw [keys_positioned, List.length_map] at hkeys
    exact hkeys
  · apply hordered.get?_of_mem
    apply hperm.mem_iff.2
    apply mem_positioned.2
    exact ⟨i, by rw [List.getElem?_map, List.getElem?_eq_getElem h, Option.map_some], rfl⟩

/-! ## 5. What is read from a document -/

mutual

theorem kept_ofJson : ∀ j : Json, j.Finite → ∀ w, Inside w (ofJson j) → w.Kept
  | .null, _, _, .self => trivial
  | .bool _, _, _, .self => trivial
  | .number n, hfin, _, .self => hfin n .self
  | .text _, _, _, .self => trivial
  | .array items, hfin, w, h => by
    rw [ofJson, ofFields] at h
    cases h with
    | self => trivial
    | field hmem h =>
      -- sorting the positions as texts brings in no other entry
      obtain ⟨i, hget, -⟩ := mem_positioned.1 ((perm_positioned _).mem_iff.1 hmem)
      exact kept_itemsOfJson items (fun j hj n hn => hfin n (.item hj hn)) _
        (List.mem_of_getElem? hget) w h
  | .object fields, hfin, w, h => by
    rw [ofJson] at h
    cases h with
    | self => trivial
    | field hmem h =>
      exact kept_fieldsOfJson fields (fun k j hj n hn => hfin n (.field hj hn)) _ _ hmem w h

theorem kept_itemsOfJson : ∀ items : List Json, (∀ j ∈ items, j.Finite) →
    ∀ v ∈ itemsOfJson items, ∀ w, Inside w v → w.Kept
  | j :: rest, hfin, v, hv, w, h => by
    rcases List.mem_cons.1 hv with rfl | hv
    · exact kept_ofJson j (hfin j List.mem_cons_self) w h
    · exact kept_itemsOfJson rest (fun i hi => hfin i (List.mem_cons_of_mem _ hi)) v hv w h

theorem kept_fieldsOfJson : ∀ fields : List (String × Json), (∀ k j, (k, j) ∈ fields → j.Finite) →
    ∀ k v, (k, v) ∈ fieldsOfJson fields → ∀ w, Inside w v → w.Kept
  | (l, j) :: rest, hfin, k, v, hv, w, h => by
    rcases List.mem_cons.1 hv with heq | hv
    · cases heq
      exact kept_ofJson j (hfin l j List.mem_cons_self) w h
    · exact kept_fieldsOfJson rest (fun _ i hi => hfin _ i (List.mem_cons_of_mem _ hi)) k v hv w h

end

/-- **Documents lose nothing but `undefined` and numbers that are not finite**: these become `null`
    at any depth, and everything else comes back as it was.  What is read from a document has none
    of them at any depth, its arrays are objects keyed by position, and it comes back unchanged. -/
theorem json_conversion :
    (∀ v : Value, ofJson v.toJson = v.mapScalars orNull) ∧
      (∀ j : Json, j.Finite →
        (∀ w, Inside w (ofJson j) → w ≠ undefined ∧ ∀ n, w = number n → n.isFinite) ∧
          ofJson (ofJson j).toJson = ofJson j) ∧
      ∀ items : List Json, ∃ fields, ofJson (.array items) = object fields ∧
        Fields.Ordered fields ∧
        (Fields.keys fields).Perm ((List.range items.length).map Nat.repr) ∧
        ∀ i (h : i < items.length), Fields.get? fields i.repr = some (ofJson items[i]) := by
  refine ⟨ofJson_toJson, fun j hfin => ?_, ofJson_array⟩
  have hkept := kept_ofJson j hfin
  refine ⟨fun w hw => kept_iff.1 (hkept w hw), ?_⟩
  rw [ofJson_toJson, mapScalars_orNull _ hkept]

/-- An array of eleven items, with a negative zero in a nested one. -/
def eleven : Json := .array (.array [.number (.zero true)] :: List.replicate 10 .null)

theorem finite_eleven : eleven.Finite := by
  intro n h
  cases h with
  | item hmem h =>
    rcases List.mem_cons.1 hmem with rfl | hmem
    · cases h with
      | item hmem h =>
        rw [List.mem_singleton.1 hmem] at h
        cases h
        rfl
    · rw [List.eq_of_mem_replicate hmem] at h
      cases h

-- As texts, the position 10 stands between 1 and 2.
theorem json_conversion_eleven :
    (eleven.Finite ∧ ofJson (ofJson eleven).toJson = ofJson eleven) ∧
      ofJson eleven = object [("0", object [("0", number (.zero true))]), ("1", null), ("10", null),
        ("2", null), ("3", null), ("4", null), ("5", null), ("6", null), ("7", null), ("8", null),
        ("9", null)] :=
  ⟨⟨finite_eleven, (json_conversion.2.1 eleven finite_eleven).2⟩, rfl⟩

end Value

end ReactiveView
