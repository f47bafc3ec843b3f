import Mathlib.Data.List.Pairwise
import Mathlib.Data.List.TakeWhile
import ReactiveView.Document
import ReactiveView.Proofs.Document.Reading

/-!
# The grammar of id attributes

How an id attribute is written, and which of the attributes of a piece of markup are read: the
leftmost ones without overlaps.  A piece of markup has just one such list, so that the ids that a
document shows are determined by the grammar.
-/

namespace ReactiveView

namespace IdAttribute

/-! ## 1. Attributes -/

/-- A character that can go on with a bare value. -/
def Bare (c : Char) : Prop :=
  Text.isBlank c = false ∧ c ≠ '>' ∧ c ≠ '"' ∧ c ≠ '\x27' ∧ c ≠ '/'

/-- How a value is written in front of `after`: between two quotes of a kind that it does not hold,
    or bare, which it then is as far as it can go on. -/
inductive Spelled (value : List Char) : (form after : List Char) → Prop where
  | quoted {quote : Char} {after : List Char} (hquote : quote = '"' ∨ quote = '\x27')
    (hvalue : quote ∉ value) : Spelled value (quote :: (value ++ [quote])) after
  | bare {after : List Char} (hne : value ≠ []) (hvalue : ∀ c ∈ value, Bare c)
    (hafter : ∀ c ∈ after.head?, ¬ Bare c) : Spelled value value after

/-- What stands in front of the name of an attribute: a blank, or nothing at the start of the
    markup. -/
def Lead (start : Prop) (lead : List Char) : Prop :=
  (start ∧ lead = []) ∨ ∃ c, Text.isBlank c = true ∧ lead = [c]

/-- The reading is one of an id attribute of the markup. -/
def AttributeIn (cs : List Char) (r : Reading) : Prop :=
  ∃ lead value form after,
    cs.drop r.position = lead ++ 'i' :: 'd' :: '=' :: (form ++ after) ∧
      Lead (r.position = 0) lead ∧ Spelled value form after ∧
      r.length = lead.length + (3 + form.length) ∧ r.value = String.ofList value

/-! ## 2. What the scanner accepts at a place -/

theorem isBareChar_iff {c : Char} : isBareChar c = true ↔ Bare c := by
  simp [isBareChar, Bare]

theorem quotedValue?_eq_some_iff {quote : Char} {cs value : List Char} :
    quotedValue? quote cs = some value ↔ quote ∉ value ∧ ∃ after, cs = value ++ quote :: after := by
  have hkept : ∀ value : List Char, quote ∉ value → ∀ c ∈ value, (c != quote) = true := by
    intro value hvalue c hc
    rw [bne_iff_ne]
    rintro rfl
    exact hvalue hc
  unfold quotedValue?
  dsimp only
  constructor
  · intro h
    split at h
    · cases h
    · rename_i hlength
      cases h
      refine ⟨fun hmem => by simpa using List.mem_takeWhile_imp hmem, ?_⟩
      -- what follows the value begins with the quote
      have hsplit := List.takeWhile_append_dropWhile (p := (· != quote)) (l := cs)
      have hhead := List.head?_dropWhile_not (· != quote) cs
      cases hrest : cs.dropWhile (· != quote) with
      | nil =>
        rw [hrest, List.append_nil] at hsplit
        exact (hlength (by rw [hsplit, beq_self_eq_true])).elim
      | cons c after =>
        rw [hrest] at hhead hsplit
        simp only [List.head?_cons, bne_eq_false_iff_eq] at hhead
        subst hhead
        exact ⟨after, hsplit.symm⟩
  · rintro ⟨hvalue, after, rfl⟩
    have htake : (value ++ quote :: after).takeWhile (· != quote) = value := by
      rw [List.takeWhile_append_of_pos (hkept value hvalue), List.takeWhile_cons_of_neg (by simp),
        List.append_nil]
    rw [htake, if_neg (by simp)]

/-- **The scanner reads just the written values.** -/
theorem value?_eq_some_iff {cs value : List Char} {n : Nat} :
    value? cs = some (value, n) ↔
      ∃ form after, cs = form ++ after ∧ Spelled value form after ∧ n = form.length := by
  constructor
  · intro h
    cases cs with
    | nil => cases h
    | cons c rest =>
      rw [value?] at h
      split at h
      · rename_i hquote
        obtain ⟨v, hv, hpair⟩ := Option.map_eq_some_iff.1 h
        cases hpair
        obtain ⟨hnot, after, rfl⟩ := quotedValue?_eq_some_iff.1 hv
        exact ⟨c :: (value ++ [c]), after, by simp, .quoted hquote hnot, by simp⟩
      · dsimp only at h
        split at h
        · cases h
        · rename_i hne
          cases h
          refine ⟨_, (c :: rest).dropWhile isBareChar, List.takeWhile_append_dropWhile.symm,
            .bare (by simpa using hne) (fun d hd => isBareChar_iff.1 (List.mem_takeWhile_imp hd))
              fun d hd => ?_, rfl⟩
          have hhead := List.head?_dropWhile_not isBareChar (c :: rest)
          rw [Option.mem_def.1 hd] at hhead
          rw [← isBareChar_iff, hhead]
          exact Bool.false_ne_true
  · rintro ⟨form, after, rfl, hform, rfl⟩
    cases hform with
    | @quoted quote after hquote hvalue =>
      have hread := quotedValue?_eq_some_iff.2 ⟨hvalue, after, rfl⟩
      rw [List.cons_append, List.append_assoc, value?, if_pos hquote]
      show (quotedValue? quote (value ++ quote :: after)).map _ = _
      rw [hread]
      simp
    | bare hne hvalue hafter =>
      have htake := takeWhile_bare (fun c hc => isBareChar_iff.2 (hvalue c hc))
        fun c hc => Bool.eq_false_iff.2 fun h => hafter c hc (isBareChar_iff.1 h)
      cases value with
      | nil => exact (hne rfl).elim
      | cons c value =>
        have hquote : ¬ (c = '"' ∨ c = '\x27') := by
          obtain ⟨-, -, hdouble, hsingle, -⟩ := hvalue c List.mem_cons_self
          exact not_or.2 ⟨hdouble, hsingle⟩
        rw [List.cons_append] at htake ⊢
        rw [value?, if_neg hquote, htake]
        rfl

theorem named?_eq_some_iff {cs value : List Char} {n : Nat} :
    named? cs = some (value, n) ↔ ∃ form after, cs = 'i' :: 'd' :: '=' :: (form ++ after) ∧
      Spelled value form after ∧ n = 3 + form.length := by
  constructor
  · intro h
    obtain ⟨rest, k, rfl, -⟩ := named?_eq_some h
    obtain ⟨w, hw, hpair⟩ := Option.map_eq_some_iff.1 h
    cases hpair
    obtain ⟨form, after, rfl, hform, hlength⟩ := value?_eq_some_iff.1 hw
    exact ⟨form, after, rfl, hform, by omega⟩
  · rintro ⟨form, after, rfl, hform, rfl⟩
    rw [named?, value?_eq_some_iff.2 ⟨form, after, rfl, hform, rfl⟩]
    exact congrArg (fun k => some (value, k)) (Nat.add_comm _ _)

/-- **The scanner reads just the written attributes.** -/
theorem at?_eq_some_iff {start : Bool} {cs value : List Char} {n : Nat} :
    at? start cs = some (value, n) ↔
      ∃ lead form after, cs = lead ++ 'i' :: 'd' :: '=' :: (form ++ after) ∧
        Lead (start = true) lead ∧ Spelled value form after ∧
        n = lead.length + (3 + form.length) := by
  constructor
  · intro h
    rcases Option.or_eq_some_iff.1 h with h | ⟨-, h⟩
    · split at h
      · obtain ⟨form, after, rfl, hform, rfl⟩ := named?_eq_some_iff.1 h
        exact ⟨[], form, after, rfl, .inl ⟨‹_›, rfl⟩, hform, by simp⟩
      · cases h
    · cases cs with
      | nil => cases h
      | cons c rest =>
        dsimp only at h
        split at h
        · rename_i hblank
          obtain ⟨⟨v, k⟩, hv, hpair⟩ := Option.map_eq_some_iff.1 h
          cases hpair
          obtain ⟨form, after, rfl, hform, rfl⟩ := named?_eq_some_iff.1 hv
          exact ⟨[c], form, after, rfl, .inr ⟨c, hblank, rfl⟩, hform, Nat.add_comm _ _⟩
        · cases h
  · rintro ⟨lead, form, after, rfl, hlead, hform, rfl⟩
    have hnamed := named?_eq_some_iff.2 ⟨form, after, rfl, hform, rfl⟩
    rcases hlead with ⟨rfl, rfl⟩ | ⟨c, hblank, rfl⟩
    · rw [List.nil_append, at?, if_pos rfl, hnamed]
      simp
    · -- a name does not begin with a blank
      have hname : c ≠ 'i' := by
        rintro rfl
        revert hblank
        decide
      have hnone : named? ([c] ++ 'i' :: 'd' :: '=' :: (form ++ after)) = none := by
        simp [named?, hname]
      rw [at?.eq_def, hnone, ite_self, Option.none_or]
      show (if Text.isBlank c = true then _ else none) = _
      rw [if_pos hblank]
      show Option.map _ (named? ('i' :: 'd' :: '=' :: (form ++ after))) = _
      rw [hnamed]
      exact congrArg (fun k => some (value, k)) (Nat.add_comm _ _)

-- An attribute of the markup is what the scanner accepts at its place.
theorem attributeIn_iff {cs : List Char} {r : Reading} :
    AttributeIn cs r ↔ ∃ value, at? (r.position == 0) (cs.drop r.position) =
      some (value, r.length) ∧ r.value = String.ofList value := by
  simp only [AttributeIn, at?_eq_some_iff, beq_iff_eq]
  constructor
  · rintro ⟨lead, value, form, after, h, hlead, hform, hlength, hvalue⟩
    exact ⟨value, ⟨lead, form, after, h, hlead, hform, hlength⟩, hvalue⟩
  · rintro ⟨value, ⟨lead, form, after, h, hlead, hform, hlength⟩, hvalue⟩
    exact ⟨lead, value, form, after, h, hlead, hform, hlength, hvalue⟩

theorem AttributeIn.length_pos {cs : List Char} {r : Reading} (h : AttributeIn cs r) :
    0 < r.length := by
  obtain ⟨lead, value, form, after, -, -, -, hlength, -⟩ := h
  omega

/-! ## 3. The leftmost attributes -/

/-- The readings are those of the leftmost attributes of the markup, without overlaps. -/
structure Leftmost (cs : List Char) (rs : List Reading) : Prop where
  written : ∀ r ∈ rs, AttributeIn cs r
  ordered : rs.Pairwise fun a b => a.position + a.length ≤ b.position
  -- An attribute that is left out begins inside one that is read.
  complete : ∀ r, AttributeIn cs r →
    r ∈ rs ∨ ∃ a ∈ rs, a.position < r.position ∧ r.position < a.position + a.length

-- Readings do not begin in what has been read already, and so follow one another.
theorem le_of_mem_readingsFrom {start : Bool} {skip position : Nat} {cs : List Char} {r : Reading}
    (h : r ∈ readingsFrom start skip position cs) : position + skip ≤ r.position := by
  induction cs generalizing start skip position with
  | nil => cases skip <;> cases h
  | cons c rest ih =>
    cases skip with
    | succ skip =>
      have hrest := ih h
      omega
    | zero =>
      rw [readingsFrom] at h
      cases hat : at? start (c :: rest) with
      | none =>
        rw [hat] at h
        have hrest := ih h
        omega
      | some w =>
        rw [hat] at h
        rcases List.mem_cons.1 h with rfl | h
        · exact Nat.le_refl _
        · have hrest := ih h
          omega

theorem pairwise_readingsFrom (start : Bool) (skip position : Nat) (cs : List Char) :
    (readingsFrom start skip position cs).Pairwise fun a b => a.position + a.length ≤ b.position := by
  induction cs generalizing start skip position with
  | nil => cases skip <;> exact List.Pairwise.nil
  | cons c rest ih =>
    cases skip with
    | succ skip => exact ih false skip (position + 1)
    | zero =>
      rw [readingsFrom]
      cases at? start (c :: rest) with
      | none => exact ih false 0 (position + 1)
      | some w =>
        refine List.pairwise_cons.2 ⟨fun r hr => ?_, ih false (w.2 - 1) (position + 1)⟩
        have hle := le_of_mem_readingsFrom hr
        show position + w.2 ≤ r.position
        omega

-- What the scanner accepts somewhere is read, or lies where something is read already.
theorem readingsFrom_complete {start b : Bool} {skip position n : Nat} {u v value : List Char}
    (hat : at? b v = some (value, n)) (hb : b = true → start = true ∧ u = [])
    (hskip : skip ≤ u.length) :
    ⟨position + u.length, n, String.ofList value⟩ ∈ readingsFrom start skip position (u ++ v) ∨
      ∃ a ∈ readingsFrom start skip position (u ++ v),
        a.position < position + u.length ∧ position + u.length < a.position + a.length := by
  induction u generalizing start skip position with
  | nil =>
    obtain rfl := Nat.le_zero.1 hskip
    -- whatever is accepted behind a blank is also accepted at the start
    have hstart : at? start v = some (value, n) := by
      obtain ⟨lead, form, after, hv, hlead, hform, hn⟩ := at?_eq_some_iff.1 hat
      exact at?_eq_some_iff.2 ⟨lead, form, after, hv,
        hlead.imp_left fun h => ⟨(hb h.1).1, h.2⟩, hform, hn⟩
    cases v with
    | nil => cases start <;> cases hstart
    | cons c rest =>
      rw [List.nil_append, readingsFrom, hstart]
      exact .inl List.mem_cons_self
  | cons c u ih =>
    have hb' : b = true → false = true ∧ u = [] := fun h => by cases (hb h).2
    have hlength : position + (c :: u).length = position + 1 + u.length := by
      rw [List.length_cons]
      omega
    rw [hlength, List.cons_append]
    cases skip with
    | succ skip => exact ih hb' (Nat.le_of_succ_le_succ hskip)
    | zero =>
      rw [readingsFrom]
      cases at? start (c :: (u ++ v)) with
      | none => exact ih hb' (Nat.zero_le _)
      | some w =>
        by_cases hw : w.2 - 1 ≤ u.length
        · rcases @ih false (w.2 - 1) (position + 1) hb' hw with hr | ⟨a, ha, hcover⟩
          · exact .inl (List.mem_cons_of_mem _ hr)
          · exact .inr ⟨a, List.mem_cons_of_mem _ ha, hcover⟩
        · refine .inr ⟨_, List.mem_cons_self, ?_, ?_⟩ <;> dsimp only <;> omega

/-- **The scanner reads the leftmost attributes.** -/
theorem leftmost_readings (markup : String) : Leftmost markup.toList (readings markup) := by
  refine ⟨fun r hr => ?_, pairwise_readingsFrom _ _ _ _, fun r hr => ?_⟩
  · obtain ⟨b, u, v, value, hsplit, hposition, hb, hat, hvalue⟩ := mem_readingsFrom hr
    obtain ⟨lead, form, after, hv, hlead, hform, hlength⟩ := at?_eq_some_iff.1 hat
    rw [Nat.zero_add] at hposition
    refine ⟨lead, value, form, after, ?_, hlead.imp_left fun h => ⟨?_, h.2⟩, hform, hlength, hvalue⟩
    · rw [hsplit, hposition, List.drop_left, hv]
    · rw [hposition, (hb h.1).2, List.length_nil]
  · obtain ⟨value, hat, hvalue⟩ := attributeIn_iff.1 hr
    have hsplit := List.take_append_drop r.position markup.toList
    have hle : r.position ≤ markup.toList.length := by
      apply Nat.le_of_not_lt
      intro hlt
      rw [List.drop_of_length_le (Nat.le_of_lt hlt)] at hat
      cases hzero : (r.position == 0) <;> rw [hzero] at hat <;> cases hat
    have hlength : (markup.toList.take r.position).length = r.position := by
      rw [List.length_take]
      omega
    have hread := @readingsFrom_complete true _ 0 0 _ (markup.toList.take r.position) _ _ hat
      (fun h => ⟨rfl, by rw [beq_iff_eq.1 h, List.take_zero]⟩) (Nat.zero_le _)
    rw [hsplit, Nat.zero_add, hlength] at hread
    obtain ⟨position, length, _⟩ := r
    cases hvalue
    exact hread

variable {cs : List Char} {rs rs' : List Reading}

-- Nothing that is read begins inside something else that is.
theorem Leftmost.apart (h : Leftmost cs rs) {a r : Reading} (ha : a ∈ rs) (hr : r ∈ rs)
    (hlt : a.position < r.position) : a.position + a.length ≤ r.position := by
  have hforth : rs.Pairwise fun a b =>
      a.position < b.position → a.position + a.length ≤ b.position :=
    h.ordered.imp fun {a b} hle (_ : a.position < b.position) => hle
  have hback : rs.Pairwise fun a b =>
      b.position < a.position → b.position + b.length ≤ a.position :=
    h.ordered.imp fun {a b} hle hlt => by omega
  exact hforth.forall_of_forall_of_flip (fun _ _ hself => (Nat.lt_irrefl _ hself).elim) hback
    ha hr hlt

-- The induction is on the place: whether an attribute is read depends on those in front of it.
theorem Leftmost.subset (h : Leftmost cs rs) (h' : Leftmost cs rs') {r : Reading} (hr : r ∈ rs) :
    r ∈ rs' := by
  induction hn : r.position using Nat.strong_induction_on generalizing rs rs' r with
  | h n ih =>
    rcases h'.complete r (h.written r hr) with hr' | ⟨a, ha, hbefore, hinside⟩
    · exact hr'
    · have hread : a ∈ rs := ih a.position (hn ▸ hbefore) h' h ha rfl
      have hle := h.apart hread hr hbefore
      omega

theorem Leftmost.nodup (h : Leftmost cs rs) : rs.Nodup :=
  h.ordered.imp_of_mem fun ha _ hle he => by
    have hpos := (h.written _ ha).length_pos
    subst he
    omega

/-- **A piece of markup has just one list of leftmost attributes.** -/
theorem Leftmost.unique (h : Leftmost cs rs) (h' : Leftmost cs rs') : rs = rs' := by
  have hperm := (List.perm_ext_iff_of_nodup h.nodup h'.nodup).2
    fun r => ⟨h.subset h', h'.subset h⟩
  refine hperm.eq_of_pairwise (fun a b ha _ hab hba => ?_) h.ordered h'.ordered
  have hpos := (h.written a ha).length_pos
  omega

/-! ## 4. Unclosed quotes -/

/-- At the place `n` an attribute begins, up to a quote that is not closed. -/
def UnclosedAt (cs : List Char) (n : Nat) : Prop :=
  ∃ lead quote after, cs.drop n = lead ++ 'i' :: 'd' :: '=' :: quote :: after ∧
    Lead (n = 0) lead ∧ (quote = '"' ∨ quote = '\x27') ∧ quote ∉ after

-- A name does not begin with a blank.
theorem Lead.unique {p q : Prop} {lead lead' rest rest' : List Char} (h : Lead p lead)
    (h' : Lead q lead') (heq : lead ++ 'i' :: rest = lead' ++ 'i' :: rest') :
    lead = lead' ∧ rest = rest' := by
  have hname : ¬ Text.isBlank 'i' = true := by decide
  rcases h with ⟨-, rfl⟩ | ⟨c, hc, rfl⟩ <;> rcases h' with ⟨-, rfl⟩ | ⟨d, hd, rfl⟩
  · exact ⟨rfl, (List.cons.inj heq).2⟩
  · obtain ⟨rfl, -⟩ := List.cons.inj heq
    exact (hname hd).elim
  · obtain ⟨rfl, -⟩ := List.cons.inj heq
    exact (hname hc).elim
  · obtain ⟨rfl, htail⟩ := List.cons.inj heq
    exact ⟨rfl, (List.cons.inj htail).2⟩

-- A quote that is not closed begins no value.
theorem Spelled.closed {value form rest after : List Char} {quote : Char}
    (h : Spelled value form rest) (hquote : quote = '"' ∨ quote = '\x27')
    (heq : quote :: after = form ++ rest) : quote ∈ after := by
  cases h with
  | quoted _ _ =>
    obtain ⟨rfl, rfl⟩ := List.cons.inj heq
    simp
  | bare hne hvalue _ =>
    cases value with
    | nil => exact (hne rfl).elim
    | cons c value =>
      obtain ⟨rfl, -⟩ := List.cons.inj heq
      obtain ⟨-, -, hdouble, hsingle, -⟩ := hvalue _ List.mem_cons_self
      exact (hquote.elim hdouble hsingle).elim

theorem UnclosedAt.not_attributeIn {n : Nat} (h : UnclosedAt cs n) {r : Reading}
    (hr : AttributeIn cs r) : r.position ≠ n := by
  rintro rfl
  obtain ⟨lead, quote, after, hcs, hlead, hquote, hopen⟩ := h
  obtain ⟨lead', value, form, rest, hcs', hlead', hform, -, -⟩ := hr
  obtain ⟨-, htail⟩ := hlead.unique hlead' (hcs.symm.trans hcs')
  exact hopen (hform.closed hquote (List.cons.inj (List.cons.inj htail).2).2)

/-- **The scan goes on behind an unclosed quote**: the next attribute is read, if nothing that is
    read before the quote reaches as far. -/
theorem Leftmost.next_of_unclosed {n : Nat} (h : Leftmost cs rs) (hopen : UnclosedAt cs n)
    {r : Reading} (hr : AttributeIn cs r)
    (hbefore : ∀ a ∈ rs, a.position < n → a.position + a.length ≤ r.position)
    (hnext : ∀ a, AttributeIn cs a → n < a.position → r.position ≤ a.position) : r ∈ rs := by
  rcases h.complete r hr with hmem | ⟨a, ha, hlt, hinside⟩
  · exact hmem
  · have hattribute := h.written a ha
    rcases Nat.lt_trichotomy a.position n with hfront | hsame | hbehind
    · have hle := hbefore a ha hfront
      omega
    · exact (hopen.not_attributeIn hattribute hsame).elim
    · have hle := hnext a hattribute hbehind
      omega

end IdAttribute

/-! ## 5. The ids that a document shows -/

/-- **The grammar of the ids that a document shows**: for an element that is there, they are the
    values of the leftmost id attributes of its markup, of which there is just one list.  At a quote
    that is not closed there is no attribute, and the scan goes on behind it. -/
theorem Document.renderedIds_leftmost :
    (∀ {ℓ : Type} {d : Document ℓ} {e : ElementId} {ids : List String},
      d.renderedIds e = .ok ids ↔ ∃ el rs, d.element? e = some el ∧
        IdAttribute.Leftmost el.markup.toList rs ∧ ids = rs.map (·.value)) ∧
    (∀ markup : String, ∃! rs, IdAttribute.Leftmost markup.toList rs) ∧
    ∀ {cs : List Char} {rs : List IdAttribute.Reading} {n : Nat}, IdAttribute.Leftmost cs rs →
      IdAttribute.UnclosedAt cs n →
        (∀ r, IdAttribute.AttributeIn cs r → r.position ≠ n) ∧
        ∀ r, IdAttribute.AttributeIn cs r →
          (∀ a ∈ rs, a.position < n → a.position + a.length ≤ r.position) →
          (∀ a, IdAttribute.AttributeIn cs a → n < a.position → r.position ≤ a.position) →
            r ∈ rs := by
  refine ⟨fun {ℓ d e ids} => ?_, fun markup => ?_, fun h hopen => ?_⟩
  · rw [renderedIds, find]
    constructor
    · intro h
      cases hel : d.element? e with
      | none =>
        rw [hel] at h
        cases h
      | some el =>
        rw [hel] at h
        cases h
        exact ⟨el, _, rfl, IdAttribute.leftmost_readings _, IdAttribute.values_eq _⟩
    · rintro ⟨el, rs, hel, hrs, rfl⟩
      obtain rfl := hrs.unique (IdAttribute.leftmost_readings _)
      simp only [hel, IdAttribute.values_eq]
  · exact ⟨_, IdAttribute.leftmost_readings markup,
      fun rs hrs => hrs.unique (IdAttribute.leftmost_readings markup)⟩
  · exact ⟨fun r hr => hopen.not_attributeIn hr,
      fun r hr hbefore hnext => h.next_of_unclosed hopen hr hbefore hnext⟩

/-- A document whose markup opens a quote and does not close it. -/
def halfQuoted : Document Unit :=
  ((Document.ofIds ["root"]).setMarkup ⟨1⟩ " id=\"x id=y").2

theorem renderedIds_leftmost_halfQuoted :
    ∃ el rs, halfQuoted.element? ⟨1⟩ = some el ∧ IdAttribute.Leftmost el.markup.toList rs ∧
      ["y"] = rs.map (·.value) ∧ ⟨6, 5, "y"⟩ ∈ rs := by
  obtain ⟨hids, -, hgoes⟩ := Document.renderedIds_leftmost
  have hshown : halfQuoted.renderedIds ⟨1⟩ = .ok ["y"] := by decide +kernel
  obtain ⟨el, rs, hel, hrs, hvalues⟩ := hids.1 hshown
  have hmarkup : (halfQuoted.element? ⟨1⟩).map (·.markup.toList) =
      some [' ', 'i', 'd', '=', '"', 'x', ' ', 'i', 'd', '=', 'y'] := by decide +kernel
  rw [hel] at hmarkup
  have hcs := Option.some.inj hmarkup
  refine ⟨el, rs, hel, hrs, hvalues, ?_⟩
  rw [show el.markup.toList = _ from hcs] at hrs
  have hopen : IdAttribute.UnclosedAt _ 0 :=
    ⟨[' '], '"', ['x', ' ', 'i', 'd', '=', 'y'], rfl, .inr ⟨' ', by decide, rfl⟩, .inl rfl,
      by decide⟩
  have hnone : ∀ k < 6, 0 < k → IdAttribute.at? (k == 0)
      ([' ', 'i', 'd', '=', '"', 'x', ' ', 'i', 'd', '=', 'y'].drop k) = none := by decide
  refine (hgoes hrs hopen).2 _ (IdAttribute.attributeIn_iff.2 ⟨['y'], by decide, rfl⟩)
    (fun a _ hlt => (Nat.not_lt_zero _ hlt).elim) fun a ha hlt => Nat.le_of_not_lt fun hsmall => ?_
  obtain ⟨value, hat, -⟩ := IdAttribute.attributeIn_iff.1 ha
  rw [hnone a.position hsmall hlt] at hat
  cases hat

end ReactiveView
