import Mathlib.Data.List.Nodup
import ReactiveView.Proofs.Text.Base36.Words
import ReactiveView.Proofs.View.Clickable

/-!
# Binding ids never repeat

A sequential source numbers its ids.  The numerals of different numbers differ, and so do the ids;
a view that fills its table alone has one row in it for each of its renders, in their order, and none
is ever replaced.
-/

namespace ReactiveView

/-! ## 1. Counting in 64 bits -/

/-- The ids of `m` calls of a counter of 64 bits, which goes around behind its last number. -/
def IdSource.wordIds (stem : String) : (m : Nat) → (next : UInt64) → List String
  | 0, _ => []
  | m + 1, next => (stem ++ Text.Base36.encodeWord next) :: wordIds stem m (next + 1)

-- As long as the counter does not go around, it counts like the numbers.
theorem IdSource.wordIds_eq {stem : String} {m : Nat} {next : UInt64}
    (h : next.toNat + m < 2 ^ 64) :
    wordIds stem m next =
      (List.range' next.toNat m).map fun i => stem ++ Text.Base36.encode i := by
  induction m generalizing next with
  | zero => rfl
  | succ m ih =>
    have hnext : (next + 1).toNat = next.toNat + 1 := by
      rw [UInt64.toNat_add]
      exact Nat.mod_eq_of_lt (by omega : next.toNat + 1 < 2 ^ 64)
    rw [wordIds, Text.Base36.encodeWord_eq, ih (by omega), hnext, List.range'_succ, List.map_cons]

theorem IdSource.nodup_numbered (stem : String) (first m : Nat) :
    ((List.range' first m).map fun i => stem ++ Text.Base36.encode i).Nodup :=
  List.Nodup.map (fun _ _ h => sequential_inj h) List.nodup_range'

theorem IdSource.draw_of_random {s : IdSource} {e e' : Entropy} {r : Except EngineError String}
    (h : IdSource.random.draw e = (r, s, e')) : s = .random ∧ r.isOk := by
  cases h
  exact ⟨rfl, rfl⟩

namespace Page

variable {κ : Type} {p q : Page κ} {c d : CompilerId} {x y : Compiler} {stem : String} {b : Binding}

/-! ## 2. One row for each render -/

/-- The rows of the first `n` sequential ids, for the binding `b`. -/
def countedRows (stem : String) (b : Binding) (n : Nat) : List (String × Binding) :=
  (List.range' 1 n).map fun i => (stem ++ Text.Base36.encode i, b)

theorem mem_ids_countedRows {id : String} {n : Nat} :
    id ∈ (countedRows stem b n).map Prod.fst ↔
      ∃ i, 1 ≤ i ∧ i ≤ n ∧ stem ++ Text.Base36.encode i = id := by
  rw [countedRows, List.map_map, List.mem_map]
  constructor
  · rintro ⟨i, hi, rfl⟩
    rw [List.mem_range'_1] at hi
    exact ⟨i, hi.1, by omega, rfl⟩
  · rintro ⟨i, hpos, hle, rfl⟩
    refine ⟨i, ?_, rfl⟩
    rw [List.mem_range'_1]
    omega

theorem countedRows_succ (stem : String) (b : Binding) (n : Nat) :
    countedRows stem b (n + 1) =
      countedRows stem b n ++ [(stem ++ Text.Base36.encode (n + 1), b)] := by
  rw [countedRows, List.range'_concat, List.map_append, Nat.one_mul, Nat.add_comm 1 n]
  rfl

theorem length_countedRows (stem : String) (b : Binding) (n : Nat) :
    (countedRows stem b n).length = n := by
  rw [countedRows, List.length_map, List.length_range']

theorem countedRows_add (stem : String) (b : Binding) (m n : Nat) :
    countedRows stem b (m + n) = countedRows stem b m ++
      (List.range' (m + 1) n).map fun i => (stem ++ Text.Base36.encode i, b) := by
  rw [countedRows, countedRows, ← List.range'_append_1, Nat.add_comm 1 m, List.map_append]

/-- The compiler `c` is `x` and binds `b`.  Its table holds one row for each of its renders, under
    the sequential ids from the first one on. -/
structure Counted (p : Page κ) (c : CompilerId) (x : Compiler) (stem : String) (b : Binding) :
    Prop where
  found : p.compiler? c = some x
  binding : x.template.binding? = some b
  hasTable : p.HasTable x.table
  source : x.ids = .sequential stem (x.renders + 1)
  rows : (p.table x.table).rows = countedRows stem b x.renders

/-! ## 3. What keeps it -/

theorem Counted.later (h : p.Counted c x stem b) (hx : q.compiler? c = some x)
    (ht : q.HasTable x.table) (htable : q.table x.table = p.table x.table) :
    q.Counted c x stem b :=
  ⟨hx, h.binding, ht, h.source, by rw [htable]; exact h.rows⟩

-- A render draws the next id, which is new to the table.
theorem Counted.rendered (h : p.Counted c x stem b) {id : Option String} {markup : String}
    {result : Except DocumentError Unit} (hr : p.Rendered c x id markup result y q) :
    q.Counted c y stem b := by
  have hframe := hr.frame
  have htemplate : y.template = x.template := by rw [hframe]
  have htable : y.table = x.table := by rw [hframe]
  have hrenders : y.renders = x.renders + 1 := by rw [hframe]
  have hdrawn := hr.drawn
  rw [h.binding] at hdrawn
  obtain ⟨i, -, hd, htables⟩ := hdrawn
  rw [h.source] at hd
  obtain ⟨hi, hrest⟩ := Prod.mk.inj hd
  obtain ⟨hsource, -⟩ := Prod.mk.inj hrest
  obtain rfl : stem ++ Text.Base36.encode (x.renders + 1) = i := Except.ok.inj hi
  have hnew : stem ++ Text.Base36.encode (x.renders + 1) ∉ (p.table x.table).ids := by
    intro hin
    rw [BindingTable.ids, h.rows] at hin
    obtain ⟨j, -, hj, heq⟩ := mem_ids_countedRows.1 hin
    have hsame := IdSource.sequential_inj heq
    omega
  constructor
  case found => exact hr.compiler
  case binding => rw [htemplate, h.binding]
  case hasTable =>
    rw [htable]
    exact hr.hasTable h.hasTable
  case source => rw [← hsource, hrenders]
  case rows =>
    rw [htable, table_of_modify htables, if_pos ⟨rfl, h.hasTable⟩, BindingTable.rows_insert hnew,
      h.rows, hrenders, countedRows_succ]

theorem Counted.compile (h : p.Counted c x stem b) :
    ∃ y, (p.compile c).2.Counted c y stem b ∧ x.renders ≤ y.renders := by
  rcases compile_found h.found with hidle | ⟨-, y, hs | ⟨id, markup, result, hr⟩⟩
  · rw [hidle]
    exact ⟨x, h, Nat.le_refl _⟩
  · have hframe := hs.frame
    have htable : y.table = x.table := by rw [hframe]
    have hrenders : y.renders = x.renders := by rw [hframe]
    have hids : y.ids = x.ids := by
      rcases hs.cause with ⟨-, -, hids, -⟩ | ⟨-, error, hd⟩
      · exact hids
      · -- a sequential source does not fail
        rw [h.source] at hd
        cases hd
    refine ⟨y, ⟨hs.compiler, ?_, ?_, ?_, ?_⟩, Nat.le_of_eq hrenders.symm⟩
    · rw [hframe]
      exact h.binding
    · rw [HasTable, hs.tables, htable]
      exact h.hasTable
    · rw [hids, h.source, hrenders]
    · rw [htable, Page.table, hs.tables, hrenders]
      exact h.rows
  · refine ⟨y, h.rendered hr, ?_⟩
    rw [hr.frame]
    exact Nat.le_succ _

-- A compile of another compiler, which fills another table.
theorem Counted.compile_other (h : p.Counted c x stem b) (hdc : d ≠ c) (hown : p.OwnsTable c x) :
    (p.compile d).2.Counted c x stem b := by
  have hre := recompiled p d
  refine h.later ((hre.others c hdc.symm).trans h.found) (hre.hasTable h.hasTable) ?_
  rcases tables_compile p d with htables | ⟨y, b', id, hy, -, htables⟩
  · rw [table, htables]
    rfl
  · rw [table_of_modify htables, if_neg]
    exact fun hsame => hdc (hown hy hsame.1)

-- A source that is random stays so.
theorem random_compile (hx : p.compiler? c = some x) (hids : x.ids = .random)
    (hy : (p.compile c).2.compiler? c = some y) : y.ids = .random := by
  rcases compile_found hx with hidle | ⟨-, z, hs | ⟨id, markup, result, hr⟩⟩
  · rw [hidle, hx] at hy
    rw [← Option.some.inj hy, hids]
  · obtain rfl : z = y := Option.some.inj (hs.compiler.symm.trans hy)
    rcases hs.cause with ⟨-, -, hsame, -⟩ | ⟨-, error, hd⟩
    · exact hsame.trans hids
    · rw [hids] at hd
      exact (IdSource.draw_of_random hd).1
  · obtain rfl : z = y := Option.some.inj (hr.compiler.symm.trans hy)
    have hdrawn := hr.drawn
    split at hdrawn
    · exact hdrawn.2.1.trans hids
    · obtain ⟨i, -, hd, -⟩ := hdrawn
      rw [hids] at hd
      exact (IdSource.draw_of_random hd).1

-- A mount does not touch the tables that are there.
theorem table_mount {t : TableId} (h : p.HasTable t) (vm : ViewModel κ) (config : Config) :
    (p.mount vm config).2.table t = p.table t := by
  rcases mount_cases p vm config with hp | ⟨root, q, q', -, hq, hstill, hp⟩
  · rw [hp]
  · have hlt : t.index < p.tables.size := by
      rw [← Arena.get?_isSome_iff]
      exact h
    have hstaged : (p.staged vm config root).table t = p.table t := by
      show ((p.tables.push BindingTable.empty).get? t.index).getD .empty = _
      rw [Arena.get?_push, if_neg (by omega)]
      rfl
    have hcompiled : q.table t = p.table t := by
      rw [← hq]
      rcases tables_compile (p.staged vm config root) ⟨p.compilers.size⟩ with
        htables | ⟨y, b', id, hy, -, htables⟩
      · rw [table, htables]
        exact hstaged
      · rw [table_of_modify htables, if_neg, hstaged]
        rintro ⟨hsame, -⟩
        rw [compiler?_staged] at hy
        have hindex := congrArg TableId.index hsame
        rw [← Option.some.inj hy] at hindex
        exact Nat.lt_irrefl _ (hindex ▸ hlt)
    have hbound : q'.table t = p.table t := (hstill.table t).trans hcompiled
    rcases hp with hp | ⟨-, types, hp⟩
    · rw [hp]
      exact hbound
    · rw [hp]
      exact hbound

-- A compiler with a new table has not rendered yet.
theorem counted_staged {vm : ViewModel κ} {config : Config} (root : ElementId)
    (hb : (Template.parse vm.template).binding? = some b)
    (hids : config.ids.source = .startingAt stem) :
    (p.staged vm config root).Counted ⟨p.compilers.size⟩ (p.stagedCompiler vm config root) stem
      b := by
  refine ⟨compiler?_staged p vm config root, hb, hasTable_staged p vm config root, hids, ?_⟩
  show (((p.tables.push BindingTable.empty).get? p.tables.size).getD .empty).rows = _
  rw [Arena.get?_push, if_pos rfl]
  rfl

/-! ## 4. Every view -/

-- Every move is a compile, or leaves the compilers and the tables that are there as they are.
theorem Move.compile_or_kept {permits : Request κ → Prop} (h : p.Move permits q) :
    (∃ d, q = (p.compile d).2) ∨
      p.Calm q ∧ ∀ t, p.HasTable t → q.table t = p.table t := by
  rcases h.cases with h | ⟨c, -, rfl⟩ | ⟨w, markup, -, rfl⟩ | ⟨writes, listens, -, rfl⟩ |
    ⟨template, data, root, ids, table, t, -, rfl⟩ | ⟨vm, config, -, rfl⟩
  · exact .inr ⟨h.calm, fun t _ => h.table t⟩
  · exact .inl ⟨c, rfl⟩
  · exact .inr ⟨calm_document p fun he => Document.element?_setMarkup_isSome he w markup,
      fun _ _ => rfl⟩
  · exact .inr ⟨calm_document p id, fun _ _ => rfl⟩
  · exact .inr ⟨calm_newCompiler p _ _ _ _ _, fun _ _ => rfl⟩
  · exact .inr ⟨calm_mount p vm config, fun t ht => table_mount ht vm config⟩

-- Who fills a table alone did so before.
theorem OwnsTable.of_grows (h : q.OwnsTable c y) (hg : p.Grows q) (hx : p.compiler? c = some x)
    (hy : q.compiler? c = some y) : p.OwnsTable c x := by
  obtain ⟨y', hy', hcont⟩ := hg.compiler hx
  obtain rfl : y' = y := Option.some.inj (hy'.symm.trans hy)
  intro d z hz hsame
  obtain ⟨z', hz', hzcont⟩ := hg.compiler hz
  apply h hz'
  rw [hzcont.table, hcont.table, hsame]

theorem Move.counted {permits : Request κ → Prop} (h : p.Move permits q)
    (hx : p.Counted c x stem b) (hy : q.compiler? c = some y) (hown : q.OwnsTable c y) :
    q.Counted c y stem b ∧ x.renders ≤ y.renders := by
  have hthen : p.OwnsTable c x := hown.of_grows h.grows hx.found hy
  rcases h.compile_or_kept with ⟨d, rfl⟩ | ⟨hcalm, htable⟩
  · by_cases hdc : d = c
    · subst hdc
      obtain ⟨z, hz, hle⟩ := hx.compile
      obtain rfl : z = y := Option.some.inj (hz.found.symm.trans hy)
      exact ⟨hz, hle⟩
    · have hz := hx.compile_other hdc hthen
      obtain rfl : x = y := Option.some.inj (hz.found.symm.trans hy)
      exact ⟨hz, Nat.le_refl _⟩
  · obtain rfl : x = y := Option.some.inj ((hcalm.compiler hx.found).symm.trans hy)
    exact ⟨hx.later hy (hcalm.hasTable hx.hasTable) (htable _ hx.hasTable), Nat.le_refl _⟩

theorem Move.random {permits : Request κ → Prop} (h : p.Move permits q)
    (hx : p.compiler? c = some x) (hids : x.ids = .random) (hy : q.compiler? c = some y) :
    y.ids = .random := by
  rcases h.compile_or_kept with ⟨d, rfl⟩ | ⟨hcalm, -⟩
  · by_cases hdc : d = c
    · subst hdc
      exact random_compile hx hids hy
    · rw [(recompiled p d).others c (Ne.symm hdc), hx] at hy
      rw [← Option.some.inj hy, hids]
  · rw [hcalm.compiler hx] at hy
    rw [← Option.some.inj hy, hids]

-- A view that has just been mounted has rendered once.
theorem counted_mount {vm : ViewModel κ} {config : Config} {e : EngineId} {engine : Engine κ}
    (hnew : p.engine? e = none) (he : (p.mount vm config).2.engine? e = some engine)
    (hx : (p.mount vm config).2.compiler? engine.compiler = some x)
    (hb : x.template.binding? = some b) :
    x.ids = .random ∨ ∃ stem, (p.mount vm config).2.Counted engine.compiler x stem b := by
  obtain ⟨root, q, q', hrun, hq, hcont, hstill, -, hmounted⟩ := compiled_mount hnew he hx
  have hstaged := compiler?_staged p vm config root
  have hcompiled : ((p.staged vm config root).compile ⟨p.compilers.size⟩).2 = q := by rw [hrun]
  rw [hcont.template] at hb
  cases hids : config.ids with
  | random =>
    left
    apply random_compile hstaged
    · exact congrArg IdStrategy.source hids
    · rw [hcompiled]
      exact hq
  | sequential stem =>
    right
    have hsource : config.ids.source = .startingAt stem := by
      rw [hids]
      rfl
    obtain ⟨y, hy, -⟩ := (counted_staged (p := p) root hb hsource).compile
    rw [hcompiled] at hy
    obtain rfl : y = x := Option.some.inj (hy.found.symm.trans hq)
    have hengine : engine.compiler = ⟨p.compilers.size⟩ := by
      rcases (mounting p vm config).engine? he with hold | ⟨-, _, _, _, _, -, -, -, rfl, -⟩
      · rw [hnew] at hold
        cases hold
      · rfl
    rw [hengine]
    refine ⟨stem, hy.later ?_ ?_ ?_⟩
    · rw [← hengine]
      exact hx
    · rw [hmounted]
      exact hstill.hasTable hy.hasTable
    · rw [hmounted]
      exact hstill.table _

/-- Every view that binds an event draws random ids, or has one row for each render in its table, if
    it fills that alone. -/
def Tallied (p : Page κ) : Prop :=
  ∀ {e engine x b}, p.engine? e = some engine → p.compiler? engine.compiler = some x →
    x.template.binding? = some b → p.OwnsTable engine.compiler x →
    x.ids = .random ∨ ∃ stem, p.Counted engine.compiler x stem b

theorem Move.tallied {permits : Request κ → Prop} (h : p.Move permits q) (hp : p.Regular)
    (ht : p.Tallied) : q.Tallied := by
  intro e engine y b he hy hb hown
  -- a view that was there before
  have hold : p.engine? e = some engine →
      y.ids = .random ∨ ∃ stem, q.Counted engine.compiler y stem b := by
    intro hthere
    obtain ⟨x, hx⟩ := hp.mounted hthere
    obtain ⟨y', hy', hcont⟩ := h.grows.compiler hx.found
    obtain rfl : y' = y := Option.some.inj (hy'.symm.trans hy)
    rw [hcont.template] at hb
    rcases ht hthere hx.found hb (hown.of_grows h.grows hx.found hy) with hids | ⟨stem, hcounted⟩
    · exact .inl (h.random hx.found hids hy)
    · exact .inr ⟨stem, (h.counted hcounted hy hown).1⟩
  rcases h.engines_or_mount with hengines | ⟨vm, config, -, rfl⟩
  · rw [engine?, hengines] at he
    exact hold he
  · rcases hthere : p.engine? e with _ | engine'
    · exact counted_mount hthere he hy hb
    · have hkept := (calm_mount p vm config).engine hthere
      rw [he] at hkept
      cases hkept
      exact hold hthere

/-! ## 5. Every page that can be reached -/

theorem Leads.tallied {permits : Request κ → Prop} {document : Document (Listener κ)}
    {entropy : Entropy} (h : Leads permits (fun _ => False) { document, entropy } p) :
    p.Tallied := by
  refine (h.all (fun q => q.Regular ∧ q.Tallied)
    (fun ⟨hq, ht⟩ hmove => ⟨hmove.regular hq, hmove.tallied hq ht⟩)
    (fun {q} o key v ⟨hq, ht⟩ => ⟨hq.write o key v, fun he hx hb hown => ?_⟩)
    ⟨regular_of_document document entropy, fun h => nomatch h⟩).2
  -- a write of data touches no table
  rcases ht he hx hb hown with hrandom | ⟨stem, hcounted⟩
  · exact .inl hrandom
  · exact .inr ⟨stem, hcounted.later hx hcounted.hasTable rfl⟩

theorem Leads.counted {permits : Request κ → Prop} (h : p.Leads permits (fun _ => False) q)
    (hx : p.Counted c x stem b) (hy : q.compiler? c = some y) (hown : q.OwnsTable c y) :
    q.Counted c y stem b ∧ x.renders ≤ y.renders := by
  refine (h.all (fun r => p.Grows r ∧ ∀ {z}, r.compiler? c = some z → r.OwnsTable c z →
    r.Counted c z stem b ∧ x.renders ≤ z.renders) (fun {r r'} ⟨hg, hr⟩ hmove => ?_)
    (fun o key v ⟨hg, hr⟩ => ⟨hg.trans (grows_write _ o key v), fun hz hown => ?_⟩)
    ⟨(Calm.refl p).grows, fun hz _ => ?_⟩).2 hy hown
  · refine ⟨hg.trans hmove.grows, fun {z'} hz' hown' => ?_⟩
    obtain ⟨z, hz, -⟩ := hg.compiler hx.found
    obtain ⟨hcounted, hle⟩ := hr hz (hown'.of_grows hmove.grows hz hz')
    obtain ⟨hcounted', hle'⟩ := hmove.counted hcounted hz' hown'
    exact ⟨hcounted', Nat.le_trans hle hle'⟩
  · obtain ⟨hcounted, hle⟩ := hr hz hown
    exact ⟨hcounted.later hz hcounted.hasTable rfl, hle⟩
  · obtain rfl := Option.some.inj (hx.found.symm.trans hz)
    exact ⟨hx, Nat.le_refl _⟩

theorem Leads.random {permits : Request κ → Prop} (h : p.Leads permits (fun _ => False) q)
    (hx : p.compiler? c = some x) (hids : x.ids = .random) :
    ∃ y, q.compiler? c = some y ∧ y.ids = .random := by
  refine h.all (fun r => ∃ z, r.compiler? c = some z ∧ z.ids = .random)
    (fun ⟨z, hz, hrandom⟩ hmove => ?_) (fun _ _ _ hr => hr) ⟨x, hx, hids⟩
  obtain ⟨z', hz', -⟩ := hmove.grows.compiler hz
  exact ⟨z', hz', hmove.random hz hrandom hz'⟩

/-- **The table of a view grows by one row for each render**, and keeps those that it has. -/
theorem Tallied.grown (hp : p.Tallied) {permits : Request κ → Prop}
    (h : p.Leads permits (fun _ => False) q) {e : EngineId} {engine : Engine κ}
    (he : p.engine? e = some engine) (hx : p.compiler? engine.compiler = some x)
    (hy : q.compiler? engine.compiler = some y) (hown : q.OwnsTable engine.compiler y)
    {next : Nat} (hids : y.ids = .sequential stem next) (hb : y.template.binding? = some b) :
    x.renders ≤ y.renders ∧ (q.table y.table).size = y.renders ∧
      (q.table y.table).rows = (p.table y.table).rows ++
        (List.range' (x.renders + 1) (y.renders - x.renders)).map fun i =>
          (stem ++ Text.Base36.encode i, b) := by
  obtain ⟨y', hy', hcont⟩ := h.grows.compiler hx
  obtain rfl : y' = y := Option.some.inj (hy'.symm.trans hy)
  rw [hcont.template] at hb
  rcases hp he hx hb (hown.of_grows h.grows hx hy) with hrandom | ⟨stem', hthen⟩
  · obtain ⟨z, hz, hz'⟩ := h.random hx hrandom
    obtain rfl : z = y' := Option.some.inj (hz.symm.trans hy)
    rw [hids] at hz'
    cases hz'
  · obtain ⟨hnow, hle⟩ := h.counted hthen hy hown
    have hsource := hnow.source
    rw [hids] at hsource
    obtain ⟨rfl, -⟩ := IdSource.sequential.inj hsource
    refine ⟨hle, ?_, ?_⟩
    · rw [BindingTable.size, hnow.rows, length_countedRows]
    · rw [hnow.rows, hcont.table, hthen.rows, ← countedRows_add, Nat.add_sub_cancel' hle]

end Page

/-! ## 6. Ids -/

/-- **Sequential ids never repeat.**  Every number below `2 ^ 64` has a numeral of 1 to 13 digits,
    with no zero in front, that reads back as the number; repeated division gives the same one.  So
    the ids behind a stem differ, also when a counter of 64 bits numbers them, and a view that draws
    them has one row in its table for each render: none of them is ever replaced. -/
theorem sequential_ids_distinct :
    (∀ n < 2 ^ 64, Text.Base36.Numeral n (Text.Base36.encode n)) ∧
    (∀ n : UInt64, Text.Base36.encodeWord n = Text.Base36.encode n.toNat) ∧
    (∀ m n, Text.Base36.encode m = Text.Base36.encode n → m = n) ∧
    (∀ stem m entropy, m < 2 ^ 64 - 1 →
      IdSource.wordIds stem m 1 = (IdSource.startingAt stem).firstIds m entropy ∧
      (IdSource.startingAt stem).firstIds m entropy =
        (List.range m).map (fun i => stem ++ Text.Base36.encode (i + 1)) ∧
      ((IdSource.startingAt stem).firstIds m entropy).Nodup) ∧
    ∀ {κ : Type} {document : Document (Listener κ)} {entropy : Entropy} {p q : Page κ},
      Page.Leads (fun _ => True) (fun _ => False) { document, entropy } p →
      p.Leads (fun _ => True) (fun _ => False) q →
      ∀ {e engine x y stem next b}, p.engine? e = some engine →
        p.compiler? engine.compiler = some x → q.compiler? engine.compiler = some y →
        q.OwnsTable engine.compiler y → y.ids = .sequential stem next →
        y.template.binding? = some b →
        x.renders ≤ y.renders ∧ (q.table y.table).size = y.renders ∧
          (q.table y.table).rows = (p.table y.table).rows ++
            (List.range' (x.renders + 1) (y.renders - x.renders)).map fun i =>
              (stem ++ Text.Base36.encode i, b) := by
  refine ⟨fun n => Text.Base36.numeral_encode, Text.Base36.encodeWord_eq,
    fun m n => Text.Base36.encode_injective, fun stem m entropy hm => ?_,
    fun hp hq _ _ _ _ _ _ _ he hx hy hown hids hb =>
      Page.Tallied.grown hp.tallied hq he hx hy hown hids hb⟩
  have hfirst : (IdSource.startingAt stem).firstIds m entropy =
      (List.range' 1 m).map fun i => stem ++ Text.Base36.encode i :=
    IdSource.firstIds_sequential stem 1 m entropy
  refine ⟨?_, ?_, ?_⟩
  · rw [hfirst, IdSource.wordIds_eq (by show 1 + m < 2 ^ 64; omega)]
    rfl
  · rw [hfirst, List.range'_eq_map_range, List.map_map]
    apply List.map_congr_left
    intro i _
    show stem ++ Text.Base36.encode (1 + i) = _
    rw [Nat.add_comm]
  · rw [hfirst]
    exact IdSource.nodup_numbered stem 1 m

/-- The button, rendered once more. -/
def padAgain : Page Unit := (padMounted.compile ⟨0⟩).2

-- The greatest word has 13 digits, and the second render of the button adds the second row.
theorem sequential_ids_distinct_pad :
    Text.Base36.Numeral 18446744073709551615 "3w5e11264sgsf" ∧
    (3 < 2 ^ 64 - 1 ∧ IdSource.wordIds "ra" 3 1 = ["ra1", "ra2", "ra3"]) ∧
    ∃ engine, ∃ x y : Compiler, padMounted.engine? ⟨0⟩ = some engine ∧
      padMounted.compiler? engine.compiler = some x ∧
      padAgain.compiler? engine.compiler = some y ∧ x.renders = 1 ∧ y.renders = 2 ∧
      (padMounted.table y.table).rows = [("p1", ⟨"click", "press"⟩)] ∧
      (padAgain.table y.table).rows = [("p1", ⟨"click", "press"⟩), ("p2", ⟨"click", "press"⟩)] := by
  obtain ⟨hnumeral, -, -, hids, htable⟩ := sequential_ids_distinct
  have hgreatest : Text.Base36.encode 18446744073709551615 = "3w5e11264sgsf" := by decide +kernel
  have hthere : ((padMounted.engine? ⟨0⟩).bind fun engine =>
      (padMounted.compiler? engine.compiler).bind fun _ =>
        padAgain.compiler? engine.compiler).isSome = true := by decide +kernel
  obtain ⟨y, hy⟩ := Option.isSome_iff_exists.1 hthere
  obtain ⟨engine, he, hy⟩ := Option.bind_eq_some_iff.1 hy
  obtain ⟨x, hx, hy⟩ := Option.bind_eq_some_iff.1 hy
  have hfacts : ∀ engine ∈ padMounted.engine? ⟨0⟩, ∀ x ∈ padMounted.compiler? engine.compiler,
      ∀ y ∈ padAgain.compiler? engine.compiler, padAgain.compilers.size = 1 ∧
        x.renders = 1 ∧ y.renders = 2 ∧ y.ids = .sequential "p" 3 ∧
        y.template.binding? = some ⟨"click", "press"⟩ ∧
        (padMounted.table y.table).rows = [("p1", ⟨"click", "press"⟩)] := by decide +kernel
  obtain ⟨hsize, hone, htwo, hsource, hb, hrows⟩ := hfacts engine he x hx y hy
  have hmounted : Page.Leads (fun _ => True) (fun _ => False)
      { document := .ofIds ["pad"] } padMounted := .move .refl (.mount _ _ trivial)
  have hagain : padMounted.Leads (fun _ => True) (fun _ => False) padAgain :=
    .move .refl (.compile _ (.inl trivial))
  obtain ⟨-, -, hgrown⟩ := htable hmounted hagain he hx hy
    (fun hz _ => Page.compiler_of_single hsize hy hz) hsource hb
  refine ⟨hgreatest ▸ hnumeral _ (by decide), ⟨by decide, ?_⟩, engine, x, y, he, hx, hy, hone,
    htwo, hrows, ?_⟩
  · obtain ⟨hwords, hfirst, -⟩ := hids "ra" 3 (fun _ => 0) (by decide)
    rw [hwords, hfirst]
    decide +kernel
  · rw [hgrown, hrows, hone, htwo]
    decide +kernel

end ReactiveView
