import ReactiveView.Document.IdAttribute
import ReactiveView.Proofs.Text.Base36

/-!
# Where ids are read

The id attributes that are read in a piece of markup, with their positions.  What is read behind a
place depends on the markup before it only through an attribute that lies across the place; so an id
that is written into markup is read there if no attribute lies across its beginning, and if what
follows it cannot go on with it.
-/

namespace ReactiveView.IdAttribute

/-! ## 1. Readings -/

/-- An id attribute that is read: where it begins, how long it is, and its value. -/
structure Reading where
  position : Nat
  length : Nat
  value : String
  deriving DecidableEq, Repr

/-- The attributes of a piece of markup that begins at `position`, of which the first `skip`
    characters belong to an attribute already read. -/
def readingsFrom : (start : Bool) → (skip position : Nat) → List Char → List Reading
  | _, _, _, [] => []
  | _, skip + 1, position, _ :: rest => readingsFrom false skip (position + 1) rest
  | start, 0, position, c :: rest =>
    match at? start (c :: rest) with
    | some v => ⟨position, v.2, String.ofList v.1⟩ :: readingsFrom false (v.2 - 1) (position + 1) rest
    | none => readingsFrom false 0 (position + 1) rest

/-- The id attributes of `markup`, in order. -/
def readings (markup : String) : List Reading := readingsFrom true 0 0 markup.toList

theorem valuesFrom_eq (start : Bool) (skip position : Nat) (cs : List Char) :
    valuesFrom start skip cs = (readingsFrom start skip position cs).map (·.value) := by
  induction cs generalizing start skip position with
  | nil => cases skip <;> rfl
  | cons c rest ih =>
    cases skip with
    | succ skip => exact ih false skip (position + 1)
    | zero =>
      rw [valuesFrom, readingsFrom]
      cases at? start (c :: rest) with
      | none => exact ih false 0 (position + 1)
      | some v => exact congrArg (_ :: ·) (ih false (v.2 - 1) (position + 1))

/-- **The values are those of the readings.** -/
theorem values_eq (markup : String) : values markup = (readings markup).map (·.value) :=
  valuesFrom_eq _ _ _ _

-- A reading is what stands at its position.
theorem mem_readingsFrom {start : Bool} {skip position : Nat} {cs : List Char} {r : Reading}
    (h : r ∈ readingsFrom start skip position cs) :
    ∃ b u v value, cs = u ++ v ∧ r.position = position + u.length ∧
      (b = true → start = true ∧ u = []) ∧ at? b v = some (value, r.length) ∧
      r.value = String.ofList value := by
  induction cs generalizing start skip position with
  | nil => cases skip <;> cases h
  | cons c rest ih =>
    -- a reading of the rest
    have hrest : ∀ {skip}, r ∈ readingsFrom false skip (position + 1) rest →
        ∃ b u v value, c :: rest = u ++ v ∧ r.position = position + u.length ∧
          (b = true → start = true ∧ u = []) ∧ at? b v = some (value, r.length) ∧
          r.value = String.ofList value := by
      intro skip h
      obtain ⟨b, u, v, value, rfl, hposition, hb, hat, hvalue⟩ := ih h
      refine ⟨b, c :: u, v, value, rfl, ?_, fun h => (Bool.false_ne_true (hb h).1).elim, hat, hvalue⟩
      rw [hposition, List.length_cons]
      omega
    cases skip with
    | succ skip => exact hrest h
    | zero =>
      rw [readingsFrom] at h
      cases hat : at? start (c :: rest) with
      | none =>
        rw [hat] at h
        exact hrest h
      | some v =>
        rw [hat] at h
        rcases List.mem_cons.1 h with rfl | h
        · exact ⟨start, [], c :: rest, v.1, rfl, rfl, fun h => ⟨h, rfl⟩, hat, rfl⟩
        · exact hrest h

/-! ## 2. Places that no attribute lies across -/

/-- No attribute begins before the `n`-th character of the markup and ends behind its
    beginning. -/
def ClearAt (markup : String) (n : Nat) : Prop :=
  ∀ r ∈ readings markup, r.position < n → r.position + r.length ≤ n

instance (markup : String) (n : Nat) : Decidable (ClearAt markup n) :=
  inferInstanceAs (Decidable (∀ _ ∈ _, _))

-- Reading begins anew at such a place.
theorem readingsFrom_append {start : Bool} {skip position : Nat} (u v : List Char)
    (hskip : skip ≤ u.length)
    (h : ∀ r ∈ readingsFrom start skip position (u ++ v), r.position < position + u.length →
      r.position + r.length ≤ position + u.length) :
    ∃ b before, readingsFrom start skip position (u ++ v) =
      before ++ readingsFrom b 0 (position + u.length) v := by
  induction u generalizing start skip position with
  | nil =>
    obtain rfl := Nat.le_zero.1 hskip
    exact ⟨start, [], rfl⟩
  | cons c u ih =>
    have hlength : position + (c :: u).length = position + 1 + u.length := by
      rw [List.length_cons]
      omega
    rw [hlength] at h ⊢
    rw [List.cons_append] at h ⊢
    cases skip with
    | succ skip => exact ih (Nat.le_of_succ_le_succ hskip) h
    | zero =>
      rw [readingsFrom] at h ⊢
      cases hat : at? start (c :: (u ++ v)) with
      | none =>
        rw [hat] at h
        exact ih (Nat.zero_le _) h
      | some w =>
        rw [hat] at h
        have hfits := h _ List.mem_cons_self (by dsimp only; omega)
        obtain ⟨b, before, hrest⟩ := ih (by dsimp only at hfits; omega)
          fun r hr => h r (List.mem_cons_of_mem _ hr)
        exact ⟨b, _ :: before, congrArg (_ :: ·) hrest⟩

/-! ## 3. An id that is written into markup -/

theorem takeWhile_bare {id after : List Char} (hid : ∀ c ∈ id, isBareChar c = true)
    (hafter : ∀ c ∈ after.head?, isBareChar c = false) :
    (id ++ after).takeWhile isBareChar = id := by
  rw [List.takeWhile_append_of_pos hid]
  cases after with
  | nil => exact List.append_nil id
  | cons c after =>
    rw [List.takeWhile_cons_of_neg (by rw [hafter c rfl]; exact Bool.false_ne_true),
      List.append_nil]

-- The attribute that a written id gives, where nothing behind it can go on with the id.
theorem at?_written {id after : List Char} (hne : id ≠ []) (hid : ∀ c ∈ id, isBareChar c = true)
    (hafter : ∀ c ∈ after.head?, isBareChar c = false) (start : Bool) :
    at? start (' ' :: 'i' :: 'd' :: '=' :: (id ++ after)) = some (id, id.length + 4) := by
  have hvalue : value? (id ++ after) = some (id, id.length) := by
    have htake := takeWhile_bare hid hafter
    cases id with
    | nil => exact (hne rfl).elim
    | cons c id =>
      have hquote : ¬ (c = '"' ∨ c = '\x27') := by
        have hc := hid c List.mem_cons_self
        rintro (rfl | rfl) <;> revert hc <;> decide
      rw [List.cons_append] at htake ⊢
      rw [value?, if_neg hquote, htake]
      rfl
  have hnamed : named? ('i' :: 'd' :: '=' :: (id ++ after)) = some (id, id.length + 3) := by
    rw [named?, hvalue]
    rfl
  have hblank : Text.isBlank ' ' = true := by decide
  have hnone : named? (' ' :: 'i' :: 'd' :: '=' :: (id ++ after)) = none := rfl
  rw [at?, hnone, if_pos hblank, hnamed]
  cases start <;> rfl

/-- The id that was written at the `n`-th character can be read: no attribute lies across the
    beginning of its own, and the character behind it cannot go on with it. -/
structure LegibleAt (markup : String) (n : Nat) (id : String) : Prop where
  clear : ClearAt markup n
  -- The attribute begins with a blank, its name and a sign of equality.
  ends : ∀ c ∈ markup.toList[n + (4 + id.toList.length)]?, isBareChar c = false

instance (markup : String) (n : Nat) (id : String) : Decidable (LegibleAt markup n id) :=
  decidable_of_iff (ClearAt markup n ∧
      (markup.toList[n + (4 + id.toList.length)]?.all fun c => !isBareChar c) = true) <| by
    simp only [Option.all_eq_true, Bool.not_eq_true']
    exact ⟨fun h => ⟨h.1, h.2⟩, fun h => ⟨h.clear, h.ends⟩⟩

/-- **A written id is read** where it can be. -/
theorem mem_values_of_legible {before after : List Char} {markup id : String}
    (hmarkup : markup.toList = before ++ (' ' :: 'i' :: 'd' :: '=' :: (id.toList ++ after)))
    (hne : id.toList ≠ []) (hid : ∀ c ∈ id.toList, isBareChar c = true)
    (h : LegibleAt markup before.length id) : id ∈ values markup := by
  have hafter : ∀ c ∈ after.head?, isBareChar c = false := by
    intro c hc
    refine h.ends c ?_
    rw [hmarkup, List.getElem?_append_right (by omega), Nat.add_sub_cancel_left, Nat.add_comm]
    show (id.toList ++ after)[id.toList.length]? = some c
    rw [List.getElem?_append_right (Nat.le_refl _), Nat.sub_self, ← List.head?_eq_getElem?]
    exact hc
  have hclear := h.clear
  rw [ClearAt, readings, hmarkup] at hclear
  obtain ⟨b, read, hread⟩ := readingsFrom_append before _ (Nat.zero_le _) fun r hr => by
    rw [Nat.zero_add]
    exact hclear r hr
  rw [values_eq, readings, hmarkup, hread, List.map_append, readingsFrom,
    at?_written hne hid hafter b]
  refine List.mem_append_right _ ?_
  rw [List.map_cons, String.ofList_toList]
  exact List.mem_cons_self

/-! ## 4. Ids that were written earlier -/

theorem isBareChar_of_digitValue? {c : Char} {d : Nat} (h : Text.Base36.digitValue? c = some d) :
    isBareChar c = true := by
  have hrange : (48 ≤ c.toNat ∧ c.toNat < 58) ∨ (97 ≤ c.toNat ∧ c.toNat < 123) := by
    unfold Text.Base36.digitValue? at h
    dsimp only at h
    split at h
    · exact .inl ‹_›
    · split at h
      · exact .inr ‹_›
      · cases h
  have hblank : Text.isBlank c = false := by
    simp only [Text.isBlank, Bool.or_eq_false_iff, Bool.and_eq_false_iff, decide_eq_false_iff_not,
      beq_eq_false_iff_ne]
    omega
  have hmark : ['>', '"', '\x27', '/'].contains c = false := by
    have hall : ∀ e ∈ ['>', '"', '\x27', '/'], ¬ ((48 ≤ e.toNat ∧ e.toNat < 58) ∨
        (97 ≤ e.toNat ∧ e.toNat < 123)) := by
      intro e he
      simp only [List.mem_cons, List.not_mem_nil, or_false] at he
      rcases he with rfl | rfl | rfl | rfl <;> decide
    cases hc : ['>', '"', '\x27', '/'].contains c with
    | false => rfl
    | true => exact (hall c (List.contains_iff_mem.1 hc) hrange).elim
  rw [isBareChar, hblank, hmark]
  rfl

theorem isBareChar_of_mem_encode {n : Nat} {c : Char}
    (h : c ∈ (Text.Base36.encode n).toList) : isBareChar c = true :=
  let ⟨_, hd⟩ := Text.Base36.digits_of_decodeFrom (Text.Base36.decodeFrom_encode n) c h
  isBareChar_of_digitValue? hd

theorem not_isBareChar_quote {c : Char} (h : c = '"' ∨ c = '\x27') : isBareChar c = false := by
  rcases h with rfl | rfl <;> decide

/-- **A written id is never read as an earlier one**, whatever follows it: neither within quotes,
    nor shortened, nor with something behind it. -/
theorem value?_ne_earlier {stem : List Char} {m n : Nat} (h : m < n) (after : List Char) (k : Nat) :
    value? (stem ++ (Text.Base36.encode n).toList ++ after) ≠
      some (stem ++ (Text.Base36.encode m).toList, k) := by
  intro hread
  have hdigits := @isBareChar_of_mem_encode n
  cases hcs : stem ++ (Text.Base36.encode n).toList with
  | nil => exact Text.Base36.encode_ne_nil n (List.append_eq_nil_iff.1 hcs).2
  | cons c rest =>
    rw [hcs, List.cons_append, value?] at hread
    by_cases hquote : c = '"' ∨ c = '\x27'
    · -- the value between quotes does not begin with a quote, as the earlier id does
      rw [if_pos hquote] at hread
      obtain ⟨value, hvalue, hpair⟩ := Option.map_eq_some_iff.1 hread
      obtain rfl : value = _ := congrArg Prod.fst hpair
      cases stem with
      | nil =>
        have hc := hdigits (hcs ▸ List.mem_cons_self)
        rw [not_isBareChar_quote hquote] at hc
        cases hc
      | cons c' stem =>
        obtain ⟨rfl, -⟩ := List.cons.inj hcs
        unfold quotedValue? at hvalue
        dsimp only at hvalue
        split at hvalue
        · cases hvalue
        · have hhead := Option.some.inj hvalue
          have hin : c' ∈ (rest ++ after).takeWhile (· != c') := by
            rw [hhead]
            exact List.mem_cons_self
          have hc := List.all_eq_true.1 List.all_takeWhile c' hin
          simp at hc
    · rw [if_neg hquote] at hread
      dsimp only at hread
      split at hread
      · cases hread
      · -- without quotes the whole id is read, and perhaps more
        have hvalue := congrArg Prod.fst (Option.some.inj hread)
        change (c :: (rest ++ after)).takeWhile isBareChar = _ at hvalue
        rw [← List.cons_append, ← hcs] at hvalue
        have hstem : ∀ e ∈ stem, isBareChar e = true := by
          intro e he
          have hin : e ∈ (stem ++ (Text.Base36.encode n).toList ++ after).takeWhile isBareChar := by
            rw [hvalue]
            exact List.mem_append_left _ he
          exact List.all_eq_true.1 List.all_takeWhile e hin
        rw [List.append_assoc, List.takeWhile_append_of_pos hstem, List.append_cancel_left_eq,
          List.takeWhile_append_of_pos fun e he => hdigits he] at hvalue
        exact Text.Base36.encode_append_ne h _ hvalue

/-! ## 5. Names of attributes -/

/-- How often the text `id=` occurs. -/
def nameCount : List Char → Nat
  | [] => 0
  | c :: rest => (if ['i', 'd', '='].isPrefixOf (c :: rest) then 1 else 0) + nameCount rest

theorem nameCount_append_le (u v : List Char) : nameCount v ≤ nameCount (u ++ v) := by
  induction u with
  | nil => exact Nat.le_refl _
  | cons c u ih =>
    rw [List.cons_append, nameCount]
    omega

-- Two occurrences are counted twice.
theorem two_le_nameCount {u v u' v' : List Char} (hlt : u.length < u'.length)
    (h : u ++ 'i' :: 'd' :: '=' :: v = u' ++ 'i' :: 'd' :: '=' :: v') :
    2 ≤ nameCount (u ++ 'i' :: 'd' :: '=' :: v) := by
  induction u generalizing u' with
  | nil =>
    cases u' with
    | nil => exact (Nat.lt_irrefl _ hlt).elim
    | cons c u' =>
      rw [List.nil_append, List.cons_append] at h
      obtain ⟨rfl, htail⟩ := List.cons.inj h
      have hone : 1 ≤ nameCount ('i' :: 'd' :: '=' :: v') := by
        rw [nameCount, if_pos (by simp)]
        omega
      have hmore := nameCount_append_le u' ('i' :: 'd' :: '=' :: v')
      rw [List.nil_append, nameCount, if_pos (by simp), htail]
      omega
  | cons c u ih =>
    cases u' with
    | nil => exact (Nat.not_lt_zero _ hlt).elim
    | cons c' u' =>
      rw [List.cons_append, List.cons_append] at h
      obtain ⟨rfl, htail⟩ := List.cons.inj h
      have hmore := ih (Nat.lt_of_succ_lt_succ hlt) htail
      rw [List.cons_append, nameCount]
      omega

-- What is read begins with a name.
theorem named?_eq_some {cs : List Char} {v : List Char × Nat} (h : named? cs = some v) :
    ∃ rest n, cs = 'i' :: 'd' :: '=' :: rest ∧ value? rest = some (v.1, n) := by
  unfold named? at h
  split at h
  · rename_i rest
    obtain ⟨w, hw, rfl⟩ := Option.map_eq_some_iff.1 h
    exact ⟨rest, w.2, rfl, hw⟩
  · cases h

-- An attribute begins with its name at the start of the markup, and with a blank otherwise.
theorem at?_eq_some {start : Bool} {cs : List Char} {v : List Char × Nat}
    (h : at? start cs = some v) :
    (start = true ∧ ∃ rest n, cs = 'i' :: 'd' :: '=' :: rest ∧ value? rest = some (v.1, n)) ∨
      ∃ c rest n, cs = c :: 'i' :: 'd' :: '=' :: rest ∧ value? rest = some (v.1, n) := by
  rcases Option.or_eq_some_iff.1 h with h | ⟨-, h⟩
  · split at h
    · exact .inl ⟨‹_›, named?_eq_some h⟩
    · cases h
  · cases cs with
    | nil => cases h
    | cons c rest =>
      dsimp only at h
      split at h
      · obtain ⟨w, hw, rfl⟩ := Option.map_eq_some_iff.1 h
        obtain ⟨rest, n, rfl, hvalue⟩ := named?_eq_some hw
        exact .inr ⟨c, rest, n, rfl, hvalue⟩
      · cases h

-- So each reading has a name, right behind its beginning or at the start of the markup.
theorem name_of_reading {markup : String} {r : Reading} (h : r ∈ readings markup) :
    ∃ u rest, markup.toList = u ++ 'i' :: 'd' :: '=' :: rest ∧
      (u.length = 0 ∧ r.position = 0 ∨ u.length = r.position + 1) := by
  obtain ⟨b, u, v, value, hsplit, hposition, hb, hat, -⟩ := mem_readingsFrom h
  rw [Nat.zero_add] at hposition
  rcases at?_eq_some hat with ⟨hstart, rest, n, rfl, -⟩ | ⟨c, rest, n, rfl, -⟩
  · obtain ⟨-, rfl⟩ := hb hstart
    exact ⟨[], rest, hsplit, .inl ⟨rfl, hposition⟩⟩
  · refine ⟨u ++ [c], rest, ?_, .inr ?_⟩
    · rw [hsplit, List.append_assoc]
      rfl
    · rw [List.length_append, List.length_singleton, hposition]

/-- **The only attribute is the one that was written**, where its name occurs only once. -/
theorem position_eq_of_nameCount {before after : List Char} {markup : String}
    (hmarkup : markup.toList = before ++ (' ' :: 'i' :: 'd' :: '=' :: after))
    (hcount : nameCount markup.toList ≤ 1) {r : Reading} (h : r ∈ readings markup) :
    r.position = before.length := by
  obtain ⟨u, rest, hsplit, hlength⟩ := name_of_reading h
  have hwritten : markup.toList = (before ++ [' ']) ++ 'i' :: 'd' :: '=' :: after := by
    rw [hmarkup, List.append_assoc]
    rfl
  -- an occurrence of the name elsewhere would be a second one
  have hsame : u.length = before.length + 1 := by
    rcases Nat.lt_trichotomy u.length (before ++ [' ']).length with hlt | heq | hlt
    · have htwo := two_le_nameCount hlt (hsplit.symm.trans hwritten)
      rw [← hsplit] at htwo
      omega
    · rw [heq, List.length_append]
      rfl
    · have htwo := two_le_nameCount hlt (hwritten.symm.trans hsplit)
      rw [← hwritten] at htwo
      omega
  omega

-- A name that begins before a blank ends before it.
theorem name_before {before after u rest : List Char} (hlength : u.length ≤ before.length)
    (h : before ++ ' ' :: after = u ++ 'i' :: 'd' :: '=' :: rest) :
    ∃ middle, before = u ++ 'i' :: 'd' :: '=' :: middle := by
  rcases List.append_eq_append_iff.1 h with ⟨a, rfl, ha⟩ | ⟨a, rfl, ha⟩
  · have hnil : a = [] := by
      rw [List.length_append] at hlength
      exact List.length_eq_zero_iff.1 (by omega)
    subst hnil
    cases (List.cons.inj ha).1
  · rcases a with _ | ⟨_, _ | ⟨_, _ | ⟨_, middle⟩⟩⟩
    · cases (List.cons.inj ha).1
    · cases (List.cons.inj (List.cons.inj ha).2).1
    · cases (List.cons.inj (List.cons.inj (List.cons.inj ha).2).2).1
    · cases ha
      exact ⟨middle, rfl⟩

/-- **An id that is written into plain text** can be read there if the text has no id attributes of
    its own and goes on with something else. -/
theorem legibleAt_of_plain {before after : List Char} {markup id : String}
    (hmarkup : markup.toList = before ++ (' ' :: 'i' :: 'd' :: '=' :: (id.toList ++ after)))
    (hcount : nameCount (before ++ after) = 0) (hafter : ∀ c ∈ after.head?, isBareChar c = false) :
    LegibleAt markup before.length id := by
  refine ⟨fun r hr hlt => ?_, fun c hc => hafter c ?_⟩
  · obtain ⟨u, rest, hsplit, hlength⟩ := name_of_reading hr
    obtain ⟨middle, rfl⟩ := name_before (by omega) (hmarkup.symm.trans hsplit)
    have hmore := nameCount_append_le u ('i' :: 'd' :: '=' :: (middle ++ after))
    rw [List.append_assoc] at hcount
    rw [nameCount, if_pos (by simp)] at hmore
    simp only [List.cons_append] at hcount
    omega
  · rw [hmarkup, List.getElem?_append_right (by omega), Nat.add_sub_cancel_left, Nat.add_comm]
      at hc
    change (id.toList ++ after)[id.toList.length]? = some c at hc
    rw [List.getElem?_append_right (Nat.le_refl _), Nat.sub_self] at hc
    rw [List.head?_eq_getElem?]
    exact hc

/-- **An earlier id is read only elsewhere**: not where a later one was written. -/
theorem value_ne_earlier {stem : List Char} {m n : Nat} (hlt : m < n) {before after : List Char}
    {markup : String} (hmarkup : markup.toList = before ++
      (' ' :: 'i' :: 'd' :: '=' :: (stem ++ (Text.Base36.encode n).toList ++ after)))
    {r : Reading} (h : r ∈ readings markup) (hposition : r.position = before.length) :
    r.value ≠ String.ofList (stem ++ (Text.Base36.encode m).toList) := by
  obtain ⟨b, u, v, value, hsplit, hu, hb, hat, hvalue⟩ := mem_readingsFrom h
  rw [Nat.zero_add, hposition] at hu
  rw [hmarkup] at hsplit
  obtain ⟨-, rfl⟩ := List.append_inj hsplit hu
  intro heq
  rw [hvalue] at heq
  obtain rfl : value = _ := String.ofList_injective heq
  rcases at?_eq_some hat with ⟨-, rest, k, hrest, -⟩ | ⟨c, rest, k, hrest, hread⟩
  · cases (List.cons.inj hrest).1
  · cases hrest
    exact value?_ne_earlier hlt after k hread

end ReactiveView.IdAttribute
