import ReactiveView.Proofs.Page.Showing
import ReactiveView.Proofs.Page.Tables
import ReactiveView.Proofs.Store.Reading

/-!
# Compiling over and over

A compiler that makes no more watchers can compile any number of times.  Where nobody is collecting
in the tree of its data, nothing comes of that but writes to its element and, for a template with a
binding, new ids in its table; and the markups differ in their ids only.
-/

namespace ReactiveView

variable {κ : Type}

/-- The texts that a template shows of plain data. -/
def Template.textsOf (t : Template) (data : Value) : List String := t.slots.map data.displayAt

namespace Page

variable {p q q' : Page κ} {c : CompilerId} {x y y' : Compiler} {n : Nat}

theorem texts_of_forest (hf : p.store.Forest) (x : Compiler) :
    p.texts x = x.template.textsOf (p.store.snapshot x.data) :=
  List.map_congr_left fun key _ => hf.display_field x.data key

/-! ## 1. Compilers that can go on -/

/-- The compiler `c` is `x`.  It makes no more watchers, and its data, its element and its table are
    there. -/
structure Equipped (p : Page κ) (c : CompilerId) (x : Compiler) : Prop where
  found : p.compiler? c = some x
  settled : x.Settled
  object : (p.store.object? x.data).isSome
  element : (p.document.element? x.root).isSome
  table : p.HasTable x.table

theorem Mounted.equipped {e : Engine κ} (hm : p.Mounted e x) : p.Equipped e.compiler x :=
  ⟨hm.found, hm.settled, hm.object, hm.element, hm.table⟩

/-- The page after `n` compiles in a row. -/
def compiles (p : Page κ) (c : CompilerId) : (n : Nat) → Page κ
  | 0 => p
  | n + 1 => ((p.compiles c n).compile c).2

/-- The ids that the next `n` renders of `x` ask for. -/
def nextIds (p : Page κ) (x : Compiler) (n : Nat) : List String :=
  match x.template.binding? with
  | none => []
  | some _ => x.ids.firstIds n p.entropy

/-- The document takes the next `n` writes, and the source of `x` gives all ids that `n` renders ask
    for, each of them new. -/
structure Unfailing (p : Page κ) (x : Compiler) (n : Nat) : Prop where
  takes : ∀ i < n, p.document.refusedWrites.refuses i = false
  gives : (p.nextIds x n).length = if x.template.binding?.isSome then n else 0
  new : (p.nextIds x n).Nodup ∧ ∀ id ∈ p.nextIds x n, id ∉ (p.table x.table).ids

theorem nextIds_of_none (h : x.template.binding? = none) (p : Page κ) (n : Nat) :
    p.nextIds x n = [] := by
  rw [nextIds, h]

theorem nextIds_of_some {b : Binding} (h : x.template.binding? = some b) (p : Page κ) (n : Nat) :
    p.nextIds x n = x.ids.firstIds n p.entropy := by
  rw [nextIds, h]

theorem Unfailing.pred (h : p.Unfailing x (n + 1)) : p.Unfailing x n := by
  refine ⟨fun i hi => h.takes i (Nat.lt_succ_of_lt hi), ?_, ?_⟩
  · have hgives := h.gives
    cases hb : x.template.binding? with
    | none => rw [nextIds_of_none hb]; rfl
    | some b =>
      rw [nextIds_of_some hb, hb] at hgives
      rw [nextIds_of_some hb]
      exact IdSource.length_firstIds_of_succ hgives
  · cases hb : x.template.binding? with
    | none =>
      rw [nextIds_of_none hb]
      exact ⟨List.nodup_nil, fun _ hid => nomatch hid⟩
    | some b =>
      obtain ⟨hnodup, hnew⟩ := h.new
      rw [nextIds_of_some hb] at hnodup hnew ⊢
      have hfirst := IdSource.firstIds_prefix (Nat.le_succ n) x.ids p.entropy
      exact ⟨hfirst.sublist.nodup hnodup, fun id hid => hnew id (hfirst.subset hid)⟩

theorem Unfailing.mono {m : Nat} (hm : m ≤ n) (h : p.Unfailing x n) : p.Unfailing x m := by
  induction hm with
  | refl => exact h
  | step _ ih => exact ih h.pred

-- The ids of fewer renders are the first ones.
theorem Unfailing.getElem?_nextIds (h : p.Unfailing x n) {i : Nat} (hi : i < n) :
    (p.nextIds x (i + 1))[i]? = (p.nextIds x n)[i]? := by
  cases hb : x.template.binding? with
  | none => rw [nextIds_of_none hb, nextIds_of_none hb]
  | some b =>
    have hlength := (h.mono hi).gives
    rw [nextIds_of_some hb, hb] at hlength
    rw [nextIds_of_some hb, nextIds_of_some hb]
    obtain ⟨later, hlater⟩ := IdSource.firstIds_prefix hi x.ids p.entropy
    rw [← hlater, List.getElem?_append_left]
    exact Nat.lt_of_lt_of_eq (Nat.lt_succ_self i) hlength.symm

-- An endless source gives as many ids as one likes.
theorem length_nextIds (h : x.ids.Endless) (p : Page κ) (n : Nat) :
    (p.nextIds x n).length = if x.template.binding?.isSome then n else 0 := by
  cases hb : x.template.binding? with
  | none => rw [nextIds_of_none hb]; rfl
  | some b =>
    rw [nextIds_of_some hb]
    exact (h.draws_firstIds p.entropy n).2

/-! ## 2. Ids -/

/-- What `n` renders of `x`, which is now `y`, have drawn and recorded on the way from `p` to `q`. -/
structure Recorded (p : Page κ) (x : Compiler) (n : Nat) (q : Page κ) (y : Compiler) : Prop where
  source : (y.ids, q.entropy) =
    match x.template.binding? with
    | none => (x.ids, p.entropy)
    | some _ => x.ids.after p.entropy n
  table : q.table x.table =
    match x.template.binding? with
    | none => p.table x.table
    | some b => (p.table x.table).insertAll (p.nextIds x n) b
  otherTables : ∀ t, t ≠ x.table → q.table t = p.table t
  hasTable : q.HasTable x.table

theorem Recorded.refl (h : p.HasTable x.table) : p.Recorded x 0 p x := by
  refine ⟨?_, ?_, fun _ _ => rfl, h⟩
  · split <;> rfl
  · split
    · rfl
    · rename_i b hb
      rw [nextIds_of_some hb]
      rfl

-- A further render does not fail for want of an id.
theorem Recorded.not_error (h : p.Recorded x n q y) (ht : y.template = x.template)
    (hw : p.Unfailing x (n + 1)) (hb : y.template.binding? ≠ none) {error : EngineError}
    {s : IdSource} {e : Entropy} : y.ids.draw q.entropy ≠ (.error error, s, e) := by
  rw [ht] at hb
  obtain ⟨b, hb⟩ := Option.ne_none_iff_exists'.1 hb
  have hsource := h.source
  have hgives := hw.gives
  simp only [hb, nextIds_of_some hb] at hsource hgives
  obtain ⟨id, hd, -⟩ := IdSource.draw_after_of_length hgives
  rw [← hsource] at hd
  rw [hd]
  exact fun hno => nomatch hno

-- The id of a further render is the next one.
theorem Recorded.again (h : p.Recorded x n q y) (ht : y.template = x.template)
    (htable : y.table = x.table) (hw : p.Unfailing x (n + 1)) {id : Option String}
    {markup : String} {result : Except DocumentError Unit}
    (hr : q.Rendered c y id markup result y' q') :
    p.Recorded x (n + 1) q' y' ∧ (p.nextIds x (n + 1))[n]? = id ∧
      (x.template.binding? = none → id = none) := by
  have hsource := h.source
  have hold := h.table
  have hdrawn := hr.drawn
  have hthere := hr.hasTable h.hasTable
  rw [ht] at hdrawn
  cases hb : x.template.binding? with
  | none =>
    simp only [hb] at hsource hold hdrawn
    obtain ⟨rfl, hids, hentropy, htables⟩ := hdrawn
    refine ⟨⟨?_, ?_, fun t hne => ?_, hthere⟩, ?_, fun _ => rfl⟩
    · simp only [hb]
      rw [hids, hentropy, hsource]
    · simp only [hb]
      rw [Page.table, htables]
      exact hold
    · rw [Page.table, htables]
      exact h.otherTables t hne
    · rw [nextIds_of_none hb]
      rfl
  | some b =>
    have hgives := hw.gives
    simp only [hb, nextIds_of_some hb] at hsource hold hdrawn hgives
    obtain ⟨i, rfl, hd, htables⟩ := hdrawn
    obtain ⟨last, hlast, hfirst⟩ := IdSource.draw_after_of_length hgives
    rw [← hsource, hd] at hlast
    obtain ⟨hid, hafter⟩ := Prod.mk.inj hlast
    obtain rfl : i = last := Except.ok.inj hid
    have hlength : (x.ids.firstIds n p.entropy).length = n := by
      have hgiven := hw.pred.gives
      rw [nextIds_of_some hb, hb] at hgiven
      exact hgiven
    refine ⟨⟨?_, ?_, fun t hne => ?_, hthere⟩, ?_, fun hnone => by cases hnone⟩
    · simp only [hb]
      exact hafter
    · simp only [hb]
      rw [nextIds_of_some hb, table_of_modify htables, htable, if_pos ⟨rfl, h.hasTable⟩, hold,
        hfirst, BindingTable.insertAll_concat]
    · rw [table_of_modify htables, if_neg fun he => hne (he.1.symm.trans htable)]
      exact h.otherTables t hne
    · rw [nextIds_of_some hb, hfirst, List.getElem?_append_right (Nat.le_of_eq hlength), hlength,
        Nat.sub_self]
      rfl

/-! ## 3. Renders in a row -/

/-- On the way from `p` to `q` the compiler `c`, which was `x` and is `y` now, compiled `n` times. -/
structure Repeated (p : Page κ) (c : CompilerId) (x : Compiler) (n : Nat) (q : Page κ)
    (y : Compiler) : Prop extends Recorded p x n q y where
  found : q.compiler? c = some y
  continues : x.Continues y
  renders : y.renders = x.renders + n
  others : ∀ d, d ≠ c → q.compiler? d = p.compiler? d
  engines : q.engines = p.engines
  tidy : q.store.Tidy
  store : p.store.SameData q.store
  undisturbed : p.store.Undisturbed q.store
  refusals : q.document.refusedWrites = p.document.refusedWrites.skip n
  element : ∀ {el}, p.document.element? x.root = some el →
    q.document.element? x.root = some { el with
      markup := if n = 0 then el.markup
        else x.template.marked (p.texts x) (p.nextIds x n)[n - 1]?
      writes := el.writes + n }
  otherElements : ∀ e, e ≠ x.root → q.document.element? e = p.document.element? e

theorem Repeated.refl (hx : p.Equipped c x) (ht : p.store.Tidy) : p.Repeated c x 0 p x :=
  ⟨.refl hx.table, hx.found, .refl x, rfl, fun _ _ => rfl, rfl, ht, .refl _, .refl _, rfl, fun h => h,
    fun _ _ => rfl⟩

-- Every render shows the same texts.
theorem Repeated.markup (h : p.Repeated c x n q y) (ho : (p.store.object? x.data).isSome)
    (hparsed : ∃ source, x.template = Template.parse source) {id : Option String}
    (hid : x.template.binding? = none → id = none) {markup : String}
    {result : Except DocumentError Unit} (hr : q.Rendered c y id markup result y' q') :
    markup = x.template.marked (p.texts x) id := by
  have hmarkup := hr.markup (by rw [h.continues.data]; exact h.store.object?_isSome ho)
  rw [h.continues.template, h.continues.data, (h.store.alike ho).render x.template id] at hmarkup
  obtain ⟨source, hsource⟩ := hparsed
  rw [hmarkup, Template.render, texts]
  rw [hsource] at hid ⊢
  exact Template.fill_eq_marked hid _

theorem Repeated.template_isEmpty (h : p.Repeated c x n q y)
    (hfull : x.template.isEmpty = false) : y.template.isEmpty = false := by
  rw [h.continues.template, hfull]

theorem Repeated.initialized (h : p.Repeated c x n q y) (hx : p.Equipped c x)
    (hfull : x.template.isEmpty = false) : y.initialized = true :=
  (h.continues.settled hx.settled).resolve_left
    (by rw [h.template_isEmpty hfull]; exact Bool.false_ne_true)

theorem Repeated.refusesNext (h : p.Repeated c x n q y) (hw : p.Unfailing x (n + 1)) :
    q.document.refusedWrites.refusesNext = false := by
  rw [h.refusals]
  exact hw.takes n (Nat.lt_succ_self n)

-- Nothing is in the way of a further compile.
theorem Repeated.rendered (h : p.Repeated c x n q y) (hx : p.Equipped c x)
    (hfull : x.template.isEmpty = false) (hw : p.Unfailing x (n + 1)) :
    ∃ id markup y' q', q.compile c = (.ok (), q') ∧
      q.Rendered c y id markup (.ok ()) y' q' := by
  rcases compile_cases h.found (h.template_isEmpty hfull) with
    ⟨error, y', q', -, -, hstopped⟩ | ⟨id, markup, result, y', q', hrun, hr⟩
  · rcases hstopped.cause with ⟨hno, -⟩ | ⟨hb, error, hd⟩
    · rw [h.initialized hx hfull] at hno
      cases hno
    · exact (h.not_error h.continues.template hw hb hd).elim
  · obtain ⟨el, hel⟩ := Option.isSome_iff_exists.1 hx.element
    have hroot : (q.document.element? y.root).isSome := by
      rw [h.continues.root, h.element hel]
      rfl
    have hdoc := hr.document
    rw [Document.setMarkup_of_taken (h.refusesNext hw) hroot] at hdoc
    obtain rfl : result = .ok () := (congrArg Prod.fst hdoc).symm
    exact ⟨id, markup, y', q', hrun, hr⟩

/-- **What a further render leaves.** -/
theorem Repeated.again (h : p.Repeated c x n q y) (hx : p.Equipped c x)
    (hfull : x.template.isEmpty = false) (hparsed : ∃ source, x.template = Template.parse source)
    (ha : p.store.active x.data.tree = none) (hw : p.Unfailing x (n + 1)) {id : Option String}
    {markup : String} (hr : q.Rendered c y id markup (.ok ()) y' q') :
    p.Repeated c x (n + 1) q' y' := by
  have hroot := h.continues.root
  have hdoc := hr.document
  obtain ⟨hrecorded, hid, hnone⟩ :=
    h.toRecorded.again h.continues.template h.continues.table hw hr
  have hmarkup := h.markup hx.object hparsed hnone hr
  have hactive : q.store.active y.data.tree = none := by
    rw [h.continues.data, h.undisturbed.active]
    exact ha
  obtain ⟨hquiet, htidy⟩ := Store.undisturbed_getTexts h.tidy hactive y.template.slots
  rw [← hr.reads (h.initialized hx hfull)] at hquiet htidy
  refine ⟨hrecorded, hr.compiler, h.continues.trans (hr.continues (h.template_isEmpty hfull)), ?_,
    fun d hd => (hr.others d hd).trans (h.others d hd), hr.engines.trans h.engines, htidy,
    h.store.trans hr.store, h.undisturbed.trans hquiet, ?_, fun {el} hel => ?_, fun e he => ?_⟩
  · have hcount : y'.renders = y.renders + 1 := by rw [hr.frame]
    rw [hcount, h.renders, Nat.add_assoc]
  · have hskipped := Document.refusedWrites_setMarkup q.document y.root markup
    rw [hdoc, h.refusals] at hskipped
    exact hskipped
  · have hwritten :=
      Document.element?_setMarkup_of_taken (h.refusesNext hw) (h.element hel) markup
    rw [← hroot, hdoc, hroot] at hwritten
    rw [hwritten, hmarkup, if_neg (Nat.succ_ne_zero n), Nat.add_sub_cancel, hid]
    rfl
  · have hkept := Document.element?_setMarkup_of_ne (d := q.document)
      (show e ≠ y.root by rw [hroot]; exact he) markup
    rw [hdoc] at hkept
    exact hkept.trans (h.otherElements e he)

-- What one compile keeps, a number of them in a row keeps.
theorem repeated_compiles (hx : p.Equipped c x) (ht : p.store.Tidy)
    (hfull : x.template.isEmpty = false) (hparsed : ∃ source, x.template = Template.parse source)
    (ha : p.store.active x.data.tree = none) (hw : p.Unfailing x n) :
    (∀ i < n, ((p.compiles c i).compile c).1 = .ok ()) ∧
      ∃ y, p.Repeated c x n (p.compiles c n) y := by
  induction n with
  | zero => exact ⟨fun i hi => absurd hi (Nat.not_lt_zero i), x, .refl hx ht⟩
  | succ n ih =>
    obtain ⟨hok, y, hy⟩ := ih hw.pred
    obtain ⟨id, markup, z, q, hrun, hr⟩ := hy.rendered hx hfull hw
    refine ⟨fun i hi => ?_, z, ?_⟩
    · rcases Nat.lt_succ_iff_lt_or_eq.1 hi with hi | rfl
      · exact hok i hi
      · rw [hrun]
    · rw [compiles, hrun]
      exact hy.again hx hfull hparsed ha hw hr

theorem compiles_of_isEmpty (hx : p.compiler? c = some x) (ht : x.template.isEmpty = true)
    (n : Nat) : p.compiles c n = p := by
  induction n with
  | zero => rfl
  | succ n ih => rw [compiles, ih, compile_of_isEmpty hx ht]

/-! ## 4. What a number of compiles comes to -/

/-- Compiling `c`, which is `x`, any number of times up to `n` differs from leaving it alone in the
    writes to its element and the rows of its table, and the markups differ in their ids. -/
structure Repeats (p : Page κ) (c : CompilerId) (x : Compiler) (n : Nat) : Prop where
  succeeds : ∀ i < n, ((p.compiles c i).compile c).1 = .ok ()
  store : p.store.Undisturbed (p.compiles c n).store
  watchers : ∀ d, ((p.compiles c n).compiler? d).map Compiler.watchers =
    (p.compiler? d).map Compiler.watchers
  rows : ((p.compiles c n).table x.table).rows = (p.table x.table).rows ++
    match x.template.binding? with
    | none => []
    | some b => (p.nextIds x n).map fun id => (id, b)
  size : ((p.compiles c n).table x.table).size =
    (p.table x.table).size + if x.template.binding?.isSome then n else 0
  otherTables : ∀ t, t ≠ x.table → (p.compiles c n).table t = p.table t
  otherElements : ∀ e, e ≠ x.root →
    (p.compiles c n).document.element? e = p.document.element? e
  writes : ((p.compiles c n).document.element? x.root).map Element.writes =
    (p.document.element? x.root).map fun el => el.writes + n
  markups : ∀ i < n, ((p.compiles c (i + 1)).document.element? x.root).map Element.markup =
    some (x.template.marked (x.template.textsOf (p.store.snapshot x.data)) (p.nextIds x n)[i]?)

-- The rows that a number of renders adds.
theorem Recorded.rows (h : p.Recorded x n q y) (hw : p.Unfailing x n) :
    (q.table x.table).rows = (p.table x.table).rows ++
      match x.template.binding? with
      | none => []
      | some b => (p.nextIds x n).map fun id => (id, b) := by
  obtain ⟨hnodup, hnew⟩ := hw.new
  have htable := h.table
  cases hb : x.template.binding? with
  | none =>
    simp only [hb] at htable
    rw [htable, List.append_nil]
  | some b =>
    simp only [hb] at htable
    rw [htable, BindingTable.rows_insertAll hnodup hnew]

theorem Recorded.size (h : p.Recorded x n q y) (hw : p.Unfailing x n) :
    (q.table x.table).size =
      (p.table x.table).size + if x.template.binding?.isSome then n else 0 := by
  rw [BindingTable.size, h.rows hw, List.length_append, ← hw.gives, BindingTable.size]
  cases hb : x.template.binding? with
  | none => rw [nextIds_of_none hb]; rfl
  | some b => rw [List.length_map]

/-- **Compiling again changes nothing but the id.** -/
theorem Equipped.repeats (hx : p.Equipped c x) (ht : p.store.Tidy)
    (hfull : x.template.isEmpty = false) (hparsed : ∃ source, x.template = Template.parse source)
    (ha : p.store.active x.data.tree = none) (hw : p.Unfailing x n) : p.Repeats c x n := by
  obtain ⟨hok, y, hy⟩ := repeated_compiles hx ht hfull hparsed ha hw
  obtain ⟨el, hel⟩ := Option.isSome_iff_exists.1 hx.element
  refine ⟨hok, hy.undisturbed, fun d => ?_, hy.rows hw, hy.size hw, hy.otherTables,
    hy.otherElements, ?_, fun i hi => ?_⟩
  · by_cases hd : d = c
    · rw [hd, hy.found, hx.found, Option.map_some, Option.map_some,
        hy.continues.watchers hx.settled]
    · rw [hy.others d hd]
  · rw [hy.element hel, hel, Option.map_some, Option.map_some]
  · have hfirst : p.Unfailing x (i + 1) := hw.mono hi
    obtain ⟨-, z, hz⟩ := repeated_compiles hx ht hfull hparsed ha hfirst
    rw [hz.element hel, Option.map_some, if_neg (Nat.succ_ne_zero i), Nat.add_sub_cancel,
      hw.getElem?_nextIds hi, texts_of_forest ht.forest]

end Page

end ReactiveView
