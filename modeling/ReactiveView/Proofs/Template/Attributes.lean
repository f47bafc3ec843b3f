import Mathlib.Data.List.Induction
import Mathlib.Data.List.TakeWhile
import ReactiveView.Proofs.Template.Segmentation

/-!
# Binding attributes

Where binding attributes stand in a text, which of them are inside a tag, and which are read.  The
attributes of a text are read from left to right without overlaps, so that one that is read hides
those that begin in its method.
-/

namespace ReactiveView

/-! ## 1. Binding attributes -/

namespace Binding

/-- The attribute that declares a binding, as it is written. -/
def written (b : Binding) : List Char :=
  '@' :: (b.eventType.toList ++ '=' :: '"' :: (b.method.toList ++ ['"']))

/-- An attribute can declare the binding. -/
structure Writable (b : Binding) : Prop where
  named : b.eventType.toList ≠ []
  type : ∀ c ∈ b.eventType.toList, BindingSite.isTypeChar c = true
  method : '"' ∉ b.method.toList

theorem length_written (b : Binding) :
    b.written.length = b.eventType.toList.length + b.method.toList.length + 4 := by
  simp only [written, List.length_cons, List.length_append, List.length_nil]
  omega

-- An attribute ends with a quote.
theorem quote_mem (b : Binding) {u v : List Char} (h : b.written = u ++ v) (hv : v ≠ []) :
    '"' ∈ v := by
  rcases List.eq_nil_or_concat v with rfl | ⟨v, c, rfl⟩
  · exact (hv rfl).elim
  · have hsplit : ('@' :: (b.eventType.toList ++ '=' :: '"' :: b.method.toList)) ++ ['"'] =
        (u ++ v) ++ [c] := by
      simpa [written] using h
    rw [List.singleton_inj.1 (List.append_inj' hsplit rfl).2]
    simp

-- The quotes of an attribute are those around the method.
theorem Writable.count_quote {b : Binding} (h : b.Writable) : b.written.count '"' = 2 := by
  have htype : b.eventType.toList.count '"' = 0 := by
    rw [List.count_eq_zero]
    intro hmem
    have hchar := h.type _ hmem
    revert hchar
    decide
  simp [written, List.count_append, htype, List.count_eq_zero.2 h.method]

-- An attribute begins a tag in its method only.
theorem Writable.mem_method_of_open {b : Binding} (h : b.Writable) (hmem : '<' ∈ b.written) :
    '<' ∈ b.method.toList := by
  simp only [written, List.mem_cons, List.mem_append, List.not_mem_nil, Char.reduceEq, false_or,
    or_false] at hmem
  rcases hmem with hmem | hmem
  · have hchar := h.type _ hmem
    rw [show BindingSite.isTypeChar '<' = false by decide] at hchar
    cases hchar
  · exact hmem

end Binding

namespace BindingSite

variable {cs : List Char} {n m : Nat} {a b : Binding}

theorem takeWhile_stop {p : Char → Bool} {u v : List Char} {c : Char} (hu : ∀ x ∈ u, p x = true)
    (hc : p c = false) :
    (u ++ c :: v).takeWhile p = u ∧ (u ++ c :: v).dropWhile p = c :: v := by
  rw [List.takeWhile_append_of_pos hu, List.dropWhile_append_of_pos hu,
    List.takeWhile_cons_of_neg (by simp [hc]), List.dropWhile_cons_of_neg (by simp [hc]),
    List.append_nil]
  exact ⟨rfl, rfl⟩

theorem attributeAt?_written (h : b.Writable) (after : List Char) :
    attributeAt? (b.written ++ after) = some ⟨b, b.written.length⟩ := by
  obtain ⟨htake, hdrop⟩ := takeWhile_stop (v := '"' :: (b.method.toList ++ '"' :: after)) h.type
    (show isTypeChar '=' = false by decide)
  have hmethod : ∀ x ∈ b.method.toList, (x != '"') = true := fun x hx => by
    rw [bne_iff_ne]
    rintro rfl
    exact h.method hx
  obtain ⟨hvalue, -⟩ := takeWhile_stop (v := after) hmethod (show ('"' != '"') = false by decide)
  have hnamed : b.eventType.toList.isEmpty = false := by simpa using h.named
  have hwritten : b.written ++ after =
      '@' :: (b.eventType.toList ++ '=' :: '"' :: (b.method.toList ++ '"' :: after)) := by
    simp [Binding.written]
  rw [hwritten, attributeAt?]
  simp only [htake, hdrop, hvalue, hnamed, Bool.false_or, List.length_append, List.length_cons]
  rw [if_neg (by simp), String.ofList_toList, String.ofList_toList, Binding.length_written]

theorem written_of_attributeAt? {x : Attribute} (h : attributeAt? cs = some x) :
    x.binding.Writable ∧ x.binding.written <+: cs ∧ x.length = x.binding.written.length := by
  unfold attributeAt? at h
  split at h
  · rename_i rest
    dsimp only at h
    split at h
    · rename_i value hdrop
      split at h
      · cases h
      · rename_i hboth
        cases h
        simp only [Bool.or_eq_true, not_or, List.isEmpty_iff, beq_iff_eq] at hboth
        -- the method ends at a quote, not with the text
        have hquote : ∃ after, value.dropWhile (· != '"') = '"' :: after := by
          have hsplit := List.takeWhile_append_dropWhile (p := (· != '"')) (l := value)
          have hhead := List.head?_dropWhile_not (· != '"') value
          cases hrest : value.dropWhile (· != '"') with
          | nil =>
            rw [hrest, List.append_nil] at hsplit
            exact (hboth.2 (congrArg List.length hsplit)).elim
          | cons c after =>
            rw [hrest] at hhead
            simp only [List.head?_cons, bne_eq_false_iff_eq] at hhead
            exact ⟨after, by rw [hhead]⟩
        obtain ⟨after, hafter⟩ := hquote
        refine ⟨⟨by simpa using hboth.1, fun c hc => ?_, fun hmem => ?_⟩, ⟨after, ?_⟩, ?_⟩
        · rw [String.toList_ofList] at hc
          exact List.mem_takeWhile_imp hc
        · rw [String.toList_ofList] at hmem
          have hne := List.mem_takeWhile_imp hmem
          revert hne
          decide
        · have hvalue : value.takeWhile (· != '"') ++ '"' :: after = value := by
            rw [← hafter, List.takeWhile_append_dropWhile]
          have hrest : rest.takeWhile isTypeChar ++ '=' :: '"' :: value = rest := by
            rw [← hdrop, List.takeWhile_append_dropWhile]
          simp only [Binding.written, String.toList_ofList, List.cons_append, List.append_assoc,
            List.nil_append, hvalue, hrest]
        · rw [Binding.length_written, String.toList_ofList, String.toList_ofList]
    · cases h
  · cases h

/-- The attribute of `b` stands at the character number `n` of `cs`. -/
def AttributeAt (cs : List Char) (n : Nat) (b : Binding) : Prop :=
  b.Writable ∧ b.written <+: cs.drop n

theorem AttributeAt.scanned (h : AttributeAt cs n b) :
    attributeAt? (cs.drop n) = some ⟨b, b.written.length⟩ := by
  obtain ⟨hb, after, hafter⟩ := h
  rw [← hafter]
  exact attributeAt?_written hb after

-- There is one attribute at a place at most.
theorem AttributeAt.unique (h : AttributeAt cs n a) (h' : AttributeAt cs n b) : a = b :=
  (Attribute.mk.inj (Option.some.inj (h.scanned.symm.trans h'.scanned))).1

theorem AttributeAt.le_length (h : AttributeAt cs n b) : n + b.written.length ≤ cs.length := by
  have hfront := h.2.length_le
  have hpos := b.length_written
  rw [List.length_drop] at hfront
  omega

theorem AttributeAt.append (h : AttributeAt cs n b) (u v : List Char) :
    AttributeAt (u ++ cs ++ v) (u.length + n) b := by
  have hle := h.le_length
  refine ⟨h.1, h.2.trans ?_⟩
  rw [List.append_assoc, List.drop_length_add_append, List.drop_append_of_le_length (by omega)]
  exact List.prefix_append _ _

/-! ## 2. Tags -/

/-- A tag is open at the end of `cs`: there is a `<` in it with no `>` behind. -/
def TagOpen (cs : List Char) : Prop := ∃ u v, cs = u ++ '<' :: v ∧ '>' ∉ v

/-- What stands between `before` and `after` is inside a tag. -/
def InsideTag (before after : List Char) : Prop := TagOpen before ∧ '>' ∈ after

theorem tagOpen_concat (cs : List Char) (c : Char) :
    TagOpen (cs ++ [c]) ↔ c = '<' ∨ (c ≠ '>' ∧ TagOpen cs) := by
  constructor
  · rintro ⟨u, v, heq, hv⟩
    rcases List.eq_nil_or_concat v with rfl | ⟨v, d, rfl⟩
    · exact .inl (List.singleton_inj.1 (List.append_inj' heq rfl).2)
    · rw [List.concat_eq_append] at hv heq
      rw [← List.cons_append, ← List.append_assoc] at heq
      obtain ⟨rfl, hd⟩ := List.append_inj' heq rfl
      obtain rfl := List.singleton_inj.1 hd
      rw [List.mem_append, not_or] at hv
      exact .inr ⟨fun hc => hv.2 (by simp [hc]), u, v, rfl, hv.1⟩
  · rintro (rfl | ⟨hc, u, v, rfl, hv⟩)
    · exact ⟨cs, [], rfl, List.not_mem_nil⟩
    · refine ⟨u, v ++ [c], by simp, fun hmem => ?_⟩
      rcases List.mem_append.1 hmem with hmem | hmem
      · exact hv hmem
      · exact hc (List.mem_singleton.1 hmem).symm

theorem openAfterAll_concat (isOpen : Bool) (cs : List Char) (c : Char) :
    openAfterAll isOpen (cs ++ [c]) = openAfter (openAfterAll isOpen cs) c := by
  rw [openAfterAll, List.foldl_append]
  rfl

theorem openAfterAll_append (isOpen : Bool) (u v : List Char) :
    openAfterAll isOpen (u ++ v) = openAfterAll (openAfterAll isOpen u) v :=
  List.foldl_append

theorem openAfterAll_iff (cs : List Char) : openAfterAll false cs = true ↔ TagOpen cs := by
  induction cs using List.reverseRecOn with
  | nil =>
    constructor
    · intro h
      cases h
    · rintro ⟨u, v, heq, -⟩
      simp at heq
  | append_singleton cs c ih =>
    rw [openAfterAll_concat, openAfter, tagOpen_concat, ← ih]
    split
    · simp [*]
    · split <;> simp [*]

-- A tag is opened by a `<`.
theorem TagOpen.of_append {u v : List Char} (h : TagOpen (u ++ v)) (hv : '<' ∉ v) : TagOpen u := by
  induction v using List.reverseRecOn with
  | nil => rwa [List.append_nil] at h
  | append_singleton v c ih =>
    rw [List.mem_append, not_or, List.mem_singleton] at hv
    rw [← List.append_assoc, tagOpen_concat] at h
    rcases h with rfl | ⟨-, h⟩
    · exact (hv.2 rfl).elim
    · exact ih h hv.1

/-! ## 3. Reading from left to right -/

/-- No attribute that is read before the character number `n` reaches over it. -/
def Clear (cs : List Char) (n : Nat) : Prop :=
  ∀ m b, m < n → AttributeAt cs m b → Clear cs m → m + b.written.length ≤ n
termination_by n

/-- The attribute of `b` is read at the character number `n`. -/
def Read (cs : List Char) (n : Nat) (b : Binding) : Prop := AttributeAt cs n b ∧ Clear cs n

theorem Clear.zero : Clear cs 0 := by
  rw [Clear]
  intro m b hm
  omega

theorem Clear.succ (h : Clear cs n) (hnone : ∀ b, ¬ AttributeAt cs n b) : Clear cs (n + 1) := by
  rw [Clear] at h ⊢
  intro m b hm hb hclear
  rcases Nat.lt_succ_iff_lt_or_eq.1 hm with hm | rfl
  · exact Nat.le_succ_of_le (h m b hm hb hclear)
  · exact (hnone b hb).elim

-- An attribute that is read hides what begins in it.
theorem Read.not_clear (h : Read cs n b) (hlt : n < m) (hm : m < n + b.written.length) :
    ¬ Clear cs m := by
  intro hclear
  rw [Clear] at hclear
  have hle := hclear n b hlt h.1 h.2
  omega

theorem Read.clear (h : Read cs n b) : Clear cs (n + b.written.length) := by
  have hclear := h.2
  rw [Clear] at hclear ⊢
  intro m a hm ha hm'
  rcases Nat.lt_trichotomy m n with hlt | rfl | hgt
  · have hle := hclear m a hlt ha hm'
    omega
  · rw [ha.unique h.1]
  · exact (h.not_clear hgt hm hm').elim

-- What is not read is hidden.
theorem AttributeAt.hidden (hnot : ¬ Clear cs n) :
    ∃ m a, Read cs m a ∧ m < n ∧ n < m + a.written.length := by
  rw [Clear] at hnot
  push Not at hnot
  obtain ⟨m, a, hm, ha, hclear, hlt⟩ := hnot
  exact ⟨m, a, ⟨ha, hclear⟩, hm, hlt⟩

-- An attribute does not end behind one that begins in it.
theorem AttributeAt.stop_le (ha : AttributeAt cs m a) (hb : AttributeAt cs n b) (hmn : m ≤ n)
    (hlt : n < m + a.written.length) : m + a.written.length ≤ n + b.written.length := by
  apply Nat.le_of_not_lt
  intro hstop
  obtain ⟨k, rfl⟩ := Nat.exists_eq_add_of_le hmn
  obtain ⟨hwritable, after, hafter⟩ := ha
  obtain ⟨v, hv⟩ : b.written <+: a.written.drop k := by
    have hfront := hb.2
    rw [← List.drop_drop, ← hafter, List.drop_append_of_le_length (by omega)] at hfront
    refine List.prefix_of_prefix_length_le hfront (List.prefix_append _ _) ?_
    rw [List.length_drop]
    omega
  -- `a` has the two quotes of `b`, and one more at its end
  have hsplit : a.written = a.written.take k ++ b.written ++ v := by
    rw [List.append_assoc, hv, List.take_append_drop]
  have hquote : '"' ∈ v := by
    refine a.quote_mem hsplit fun hnil => ?_
    have hlength := congrArg List.length hv
    rw [hnil, List.append_nil, List.length_drop] at hlength
    omega
  have hcount := hwritable.count_quote
  rw [hsplit, List.count_append, List.count_append, hb.1.count_quote] at hcount
  have hpos := List.count_pos_iff.2 hquote
  omega

/-- An attribute inside a tag that is hidden by another one shows the other one inside a tag too, if
    the tag does not begin in the method of that one. -/
theorem InsideTag.of_hidden {before after : List Char} (ha : AttributeAt cs m a)
    (hb : AttributeAt cs n b) (hmn : m < n) (hlt : n < m + a.written.length)
    (hmethod : '<' ∉ a.method.toList)
    (h : InsideTag (before ++ cs.take n) (cs.drop (n + b.written.length) ++ after)) :
    InsideTag (before ++ cs.take m) (cs.drop (m + a.written.length) ++ after) := by
  obtain ⟨hopen, hclose⟩ := h
  constructor
  · obtain ⟨k, rfl⟩ := Nat.exists_eq_add_of_le hmn.le
    rw [List.take_add, ← List.append_assoc] at hopen
    refine hopen.of_append fun hmem => hmethod (ha.1.mem_method_of_open ?_)
    have hfront : (cs.drop m).take k <+: a.written := by
      refine List.prefix_of_prefix_length_le (List.take_prefix _ _) ha.2 ?_
      rw [List.length_take]
      omega
    exact hfront.subset hmem
  · rw [List.mem_append] at hclose ⊢
    exact hclose.imp_left fun hmem => List.drop_subset_drop_left cs
      (ha.stop_le hb hmn.le hlt) hmem

end BindingSite

end ReactiveView
