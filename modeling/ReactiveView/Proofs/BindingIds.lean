import ReactiveView.BindingTable
import ReactiveView.Config
import ReactiveView.Proofs.Text.Base36

/-!
# Ids that are drawn and recorded

Which ids a source gives in a sequence of calls, some of which may fail, and what the table is after
they were recorded.  Sequential ids never repeat.
-/

namespace ReactiveView

namespace IdSource

/-! ## 1. Sources that never fail -/

/-- The source never fails. -/
def Endless : IdSource → Prop
  | .listed _ => False
  | _ => True

theorem Endless.draw {s : IdSource} (h : s.Endless) (e : Entropy) :
    ∃ id ids e', s.draw e = (.ok id, ids, e') ∧ ids.Endless := by
  cases s with
  | random => exact ⟨_, _, _, rfl, trivial⟩
  | sequential stem next => exact ⟨_, _, _, rfl, trivial⟩
  | listed ids => exact h.elim

theorem endless_source (strategy : IdStrategy) : strategy.source.Endless := by
  cases strategy <;> trivial

/-! ## 2. Several calls -/

/-- The calls that lead from one source and stream to the other gave these ids in turn, and failed
    in between. -/
inductive Draws (s : IdSource) (e : Entropy) : List String → IdSource → Entropy → Prop where
  | none : Draws s e [] s e
  | ok {ids s' e' id s'' e''} (h : Draws s e ids s' e') (hd : s'.draw e' = (.ok id, s'', e'')) :
    Draws s e (ids ++ [id]) s'' e''
  | failed {ids s' e' error s'' e''} (h : Draws s e ids s' e')
    (hd : s'.draw e' = (.error error, s'', e'')) : Draws s e ids s'' e''

/-- No id is given twice. -/
def NeverRepeats (s : IdSource) (e : Entropy) : Prop :=
  ∀ {ids s' e'}, Draws s e ids s' e' → ids.Nodup

theorem Draws.endless {s s' : IdSource} {e e' : Entropy} {ids : List String} (hs : s.Endless)
    (h : Draws s e ids s' e') : s'.Endless := by
  induction h with
  | none => exact hs
  | ok _ hd ih =>
    obtain ⟨id, s'', e'', hok, hends⟩ := ih.draw _
    rw [hok] at hd
    cases hd
    exact hends
  | failed _ hd ih =>
    obtain ⟨id, s'', e'', hok, -⟩ := ih.draw _
    rw [hok] at hd
    cases hd

-- The ids of calls that do not fail are the first ones of the source.
theorem Draws.firstIds {s s' : IdSource} {e e' : Entropy} {ids : List String} (hs : s.Endless)
    (h : Draws s e ids s' e') : ids = IdSource.firstIds ids.length s e := by
  -- stronger than needed, so that the induction can go on behind the last call
  have hadd : ∀ n, IdSource.firstIds (ids.length + n) s e = ids ++ IdSource.firstIds n s' e' := by
    induction h with
    | none =>
      intro n
      rw [List.length_nil, Nat.zero_add, List.nil_append]
    | ok h hd ih =>
      intro n
      rw [List.length_append, List.length_singleton, Nat.add_assoc, ih, List.append_assoc,
        Nat.add_comm 1 n]
      simp only [IdSource.firstIds, hd, List.singleton_append]
    | failed h hd ih =>
      obtain ⟨id, s'', e'', hok, -⟩ := (h.endless hs).draw _
      rw [hok] at hd
      cases hd
  have hzero := hadd 0
  rw [Nat.add_zero, IdSource.firstIds, List.append_nil] at hzero
  exact hzero.symm

theorem firstIds_prefix {m n : Nat} (h : m ≤ n) (s : IdSource) (e : Entropy) :
    IdSource.firstIds m s e <+: IdSource.firstIds n s e := by
  induction m generalizing n s e with
  | zero => exact List.nil_prefix
  | succ m ih =>
    obtain ⟨n, rfl⟩ := Nat.exists_eq_add_of_lt h
    rw [IdSource.firstIds, IdSource.firstIds]
    split
    · exact List.cons_prefix_cons.2 ⟨rfl, ih (by omega) _ _⟩
    · exact List.prefix_rfl

/-- The source and the stream behind `n` calls. -/
def after (s : IdSource) (e : Entropy) : Nat → IdSource × Entropy
  | 0 => (s, e)
  | n + 1 => ((s.after e n).1.draw (s.after e n).2).2

-- An endless source has another id behind those that it gave.
theorem Draws.next {s s' : IdSource} {e e' : Entropy} {ids : List String} (hs : s.Endless)
    (h : Draws s e ids s' e') : ∃ id s'' e'', s'.draw e' = (.ok id, s'', e'') ∧
      Draws s e (ids ++ [id]) s'' e'' ∧ s.firstIds (ids.length + 1) e = ids ++ [id] := by
  obtain ⟨id, s'', e'', hd, -⟩ := (h.endless hs).draw e'
  have hnext := Draws.ok h hd
  have hfirst := hnext.firstIds hs
  rw [List.length_append, List.length_singleton] at hfirst
  exact ⟨id, s'', e'', hd, hnext, hfirst.symm⟩

theorem Endless.draws_firstIds {s : IdSource} (h : s.Endless) (e : Entropy) (n : Nat) :
    Draws s e (s.firstIds n e) (s.after e n).1 (s.after e n).2 ∧ (s.firstIds n e).length = n := by
  induction n with
  | zero => exact ⟨.none, rfl⟩
  | succ n ih =>
    obtain ⟨hdraws, hlength⟩ := ih
    obtain ⟨id, s', e', hd, hnext, hfirst⟩ := hdraws.next h
    rw [hlength] at hfirst
    rw [after, hd, hfirst]
    exact ⟨hnext, by rw [List.length_append, List.length_singleton, hlength]⟩

-- A source that has given `n + 1` ids gave `n` of them before the last one.
theorem length_firstIds_of_succ {s : IdSource} {e : Entropy} {n : Nat}
    (h : (s.firstIds (n + 1) e).length = n + 1) : (s.firstIds n e).length = n := by
  induction n generalizing s e with
  | zero => rfl
  | succ n ih =>
    rw [firstIds] at h ⊢
    split at h
    · exact congrArg (· + 1) (ih (Nat.succ.inj h))
    · cases h

theorem after_succ_of_ok {s s' : IdSource} {e e' : Entropy} {id : String}
    (h : s.draw e = (.ok id, s', e')) (n : Nat) : s.after e (n + 1) = s'.after e' n := by
  induction n with
  | zero => rw [after, after, after, h]
  | succ n ih => rw [after, ih, after]

-- The id that such a source gives last.
theorem draw_after_of_length {s : IdSource} {e : Entropy} {n : Nat}
    (h : (s.firstIds (n + 1) e).length = n + 1) :
    ∃ id, (s.after e n).1.draw (s.after e n).2 =
        (.ok id, (s.after e (n + 1)).1, (s.after e (n + 1)).2) ∧
      s.firstIds (n + 1) e = s.firstIds n e ++ [id] := by
  induction n generalizing s e with
  | zero =>
    rw [firstIds] at h ⊢
    split at h
    · rename_i id s' e' hd
      exact ⟨id, by simp only [after, hd], rfl⟩
    · cases h
  | succ n ih =>
    rw [firstIds] at h
    split at h
    · rename_i id s' e' hd
      obtain ⟨last, hlast, hfirst⟩ := ih (Nat.succ.inj h)
      refine ⟨last, ?_, ?_⟩
      · rw [after_succ_of_ok hd, after_succ_of_ok hd]
        exact hlast
      · rw [firstIds, hd, firstIds, hd]
        exact congrArg (id :: ·) hfirst
    · cases h

theorem Endless.draw_after {s : IdSource} (h : s.Endless) (e : Entropy) (n : Nat) :
    ∃ id, (s.after e n).1.draw (s.after e n).2 =
        (.ok id, (s.after e (n + 1)).1, (s.after e (n + 1)).2) ∧
      s.firstIds (n + 1) e = s.firstIds n e ++ [id] :=
  draw_after_of_length (h.draws_firstIds e (n + 1)).2

/-- The next `n` ids are different ones, and none of them is among `taken`. -/
def NewAmong (s : IdSource) (e : Entropy) (n : Nat) (taken : List String) : Prop :=
  (firstIds n s e).Nodup ∧ ∀ id ∈ firstIds n s e, id ∉ taken

/-! ## 3. Sequential ids -/

/-- The source may have given this id: for a sequential one, with an earlier number. -/
def Given (s : IdSource) (id : String) : Prop :=
  match s with
  | .sequential stem next => ∃ i < next, id = stem ++ Text.Base36.encode i
  | _ => True

theorem Given.draw {s s' : IdSource} {e e' : Entropy} {r : Except EngineError String} {id : String}
    (h : s.Given id) (hd : s.draw e = (r, s', e')) : s'.Given id := by
  unfold IdSource.draw at hd
  split at hd <;> cases hd
  · trivial
  · obtain ⟨i, hi, hid⟩ := h
    exact ⟨i, Nat.lt_succ_of_lt hi, hid⟩
  all_goals trivial

theorem given_draw {s s' : IdSource} {e e' : Entropy} {id : String}
    (hd : s.draw e = (.ok id, s', e')) : s'.Given id := by
  unfold IdSource.draw at hd
  split at hd <;> cases hd
  · trivial
  · exact ⟨_, Nat.lt_succ_self _, rfl⟩
  · trivial

theorem sequential_inj {stem : String} {i j : Nat}
    (h : stem ++ Text.Base36.encode i = stem ++ Text.Base36.encode j) : i = j :=
  Text.Base36.encode_injective ((String.append_right_inj stem).1 h)

/-- **Sequential ids never repeat**, and none of them was given before. -/
theorem Draws.sequential {stem : String} {next : Nat} {s' : IdSource} {e e' : Entropy}
    {ids : List String} (h : Draws (.sequential stem next) e ids s' e') :
    ids.Nodup ∧ (∀ id ∈ ids, ¬ (IdSource.sequential stem next).Given id) ∧
      (∀ id ∈ ids, s'.Given id) ∧ ∃ n, next ≤ n ∧ s' = .sequential stem n := by
  induction h with
  | none => exact ⟨List.nodup_nil, by simp, by simp, next, Nat.le_refl _, rfl⟩
  | ok h hd ih =>
    obtain ⟨hnodup, hnew, hgiven, n, hn, rfl⟩ := ih
    have hlater := given_draw hd
    cases hd
    have hlast : ¬ (IdSource.sequential stem n).Given (stem ++ Text.Base36.encode n) := by
      rintro ⟨i, hi, hid⟩
      have hin := sequential_inj hid
      omega
    refine ⟨?_, fun id hid => ?_, fun id hid => ?_, n + 1, by omega, rfl⟩
    · refine List.nodup_append.2 ⟨hnodup, by simp, ?_⟩
      intro a ha b hb hab
      rw [List.mem_singleton.1 hb] at hab
      exact hlast (hab ▸ hgiven a ha)
    · rcases List.mem_append.1 hid with hid | hid
      · exact hnew id hid
      · rw [List.mem_singleton.1 hid]
        rintro ⟨i, hi, hid⟩
        have hin := sequential_inj hid
        omega
    · rcases List.mem_append.1 hid with hid | hid
      · obtain ⟨i, hi, hid⟩ := hgiven id hid
        exact ⟨i, by omega, hid⟩
      · rw [List.mem_singleton.1 hid]
        exact hlater
  | failed h hd ih =>
    obtain ⟨-, -, -, n, -, rfl⟩ := ih
    cases hd

theorem firstIds_sequential (stem : String) (next n : Nat) (e : Entropy) :
    (sequential stem next).firstIds n e =
      (List.range' next n).map fun i => stem ++ Text.Base36.encode i := by
  induction n generalizing next with
  | zero => rfl
  | succ n ih =>
    show _ :: (sequential stem (next + 1)).firstIds n e = _
    rw [ih, List.range'_succ, List.map_cons]

/-! ## 4. Listed ids -/

theorem Draws.listed {l : List (Option String)} {s' : IdSource} {e e' : Entropy}
    {ids : List String} (h : Draws (.listed l) e ids s' e') :
    ∃ rest, s' = .listed rest ∧ l.filterMap id = ids ++ rest.filterMap id := by
  induction h with
  | none => exact ⟨l, rfl, rfl⟩
  | ok h hd ih =>
    obtain ⟨rest, rfl, hl⟩ := ih
    match rest with
    | [] => cases hd
    | Option.none :: rest => cases hd
    | some id :: rest =>
      cases hd
      refine ⟨rest, rfl, ?_⟩
      rw [hl, List.append_assoc]
      rfl
  | failed h hd ih =>
    obtain ⟨rest, rfl, hl⟩ := ih
    match rest with
    | [] =>
      cases hd
      exact ⟨[], rfl, hl⟩
    | Option.none :: rest =>
      cases hd
      exact ⟨rest, rfl, hl⟩
    | some id :: rest => cases hd

-- A list without repeats gives no id twice, wherever it has gaps.
theorem neverRepeats_listed {l : List (Option String)} (h : (l.filterMap id).Nodup) (e : Entropy) :
    (IdSource.listed l).NeverRepeats e := by
  intro ids s' e' hd
  obtain ⟨rest, -, hl⟩ := hd.listed
  rw [hl] at h
  exact (List.nodup_append.1 h).1

end IdSource

/-! ## 5. Recording -/

namespace BindingTable

/-- Records `b` under each of the ids in turn. -/
def insertAll (t : BindingTable) (ids : List String) (b : Binding) : BindingTable :=
  ids.foldl (fun t id => t.insert id b) t

theorem insertAll_concat (t : BindingTable) (ids : List String) (id : String) (b : Binding) :
    t.insertAll (ids ++ [id]) b = (t.insertAll ids b).insert id b := by
  rw [insertAll, List.foldl_append]
  rfl

theorem rows_insert {t : BindingTable} {id : String} (h : id ∉ t.ids) (b : Binding) :
    (t.insert id b).rows = t.rows ++ [(id, b)] := by
  obtain ⟨rows⟩ := t
  show place id b rows = rows ++ [(id, b)]
  induction rows with
  | nil => rfl
  | cons row rest ih =>
    have hrow : ¬ row.1 = id := fun e => h (by rw [← e]; exact List.mem_cons_self)
    rw [place, if_neg hrow, ih fun hm => h (List.mem_cons_of_mem _ hm)]
    rfl

/-- **New ids go to the end of the table, in the order in which they come.** -/
theorem rows_insertAll {t : BindingTable} {ids : List String} (hn : ids.Nodup)
    (h : ∀ id ∈ ids, id ∉ t.ids) (b : Binding) :
    (t.insertAll ids b).rows = t.rows ++ ids.map fun id => (id, b) := by
  induction ids generalizing t with
  | nil => exact (List.append_nil _).symm
  | cons id ids ih =>
    have hrows := rows_insert (h id List.mem_cons_self) b
    have hids : (t.insert id b).ids = t.ids ++ [id] := by
      rw [BindingTable.ids, hrows, List.map_append]
      rfl
    obtain ⟨hid, hn⟩ := List.nodup_cons.1 hn
    have hrest : ∀ q ∈ ids, q ∉ (t.insert id b).ids := by
      intro q hq hm
      rw [hids] at hm
      rcases List.mem_append.1 hm with hm | hm
      · exact h q (List.mem_cons_of_mem _ hq) hm
      · rw [List.mem_singleton.1 hm] at hq
        exact hid hq
    show ((t.insert id b).insertAll ids b).rows = _
    rw [ih hn hrest, hrows, List.append_assoc]
    rfl

theorem size_insertAll {t : BindingTable} {ids : List String} (hn : ids.Nodup)
    (h : ∀ id ∈ ids, id ∉ t.ids) (b : Binding) :
    (t.insertAll ids b).size = t.size + ids.length := by
  rw [size, rows_insertAll hn h, List.length_append, List.length_map, size]

theorem latest?_insertAll {ids : List String} (hn : ids.Nodup) (b : Binding) :
    (empty.insertAll ids b).latest? = ids.getLast? := by
  have hids : (empty.insertAll ids b).ids = ids := by
    rw [BindingTable.ids, rows_insertAll hn fun _ _ => List.not_mem_nil]
    simp [empty, Function.comp_def]
  rw [latest?, hids]

theorem get?_insertAll (t : BindingTable) (ids : List String) (b : Binding) (q : String) :
    (t.insertAll ids b).get? q = if q ∈ ids then some b else t.get? q := by
  induction ids generalizing t with
  | nil => rfl
  | cons id ids ih =>
    show ((t.insert id b).insertAll ids b).get? q = _
    rw [ih, get?_insert]
    by_cases hq : q ∈ ids
    · simp [hq]
    · simp [hq, eq_comm]

end BindingTable

end ReactiveView
