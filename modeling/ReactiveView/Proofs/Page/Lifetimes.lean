import Mathlib.Data.Fintype.Defs
import Mathlib.Data.Prod.Lex
import Mathlib.Logic.Relation
import Mathlib.Order.Preorder.Finite
import ReactiveView.Page.Liveness
import ReactiveView.Proofs.Document.Writes
import ReactiveView.Proofs.Store.Nesting

/-!
# Who is alive

The search for the living finds the largest set of nodes in which everything is held from outside or
referred to from within.  Followed backwards, the references of such a set lead to something held, or
round in a circle; and no circle closes but through a watcher that has kept an observable as its
baseline, for everything else refers only to what came later or stands lower.
-/

namespace ReactiveView.Page

variable {κ : Type} {p : Page κ} {held : List Node}

/-! ## 1. Nodes -/

/-- The node is there. -/
def Present (p : Page κ) : Node → Prop
  | .object o => (p.store.object? o).isSome
  | .registry (.ofObject o) => (p.store.object? o).isSome
  | .registry (.free i) => i < p.store.registries.size
  | .watcher w => (p.store.watcher? w).isSome
  | .compiler c => (p.compiler? c).isSome
  | .engine e => (p.engine? e).isSome

theorem mem_treeNodes_iff {t : TreeId} {tree : Tree (Reaction κ)} {n : Node} :
    n ∈ treeNodes t tree ↔
      (∃ i < tree.objects.size, n = .object ⟨t, i⟩ ∨ n = .registry (.ofObject ⟨t, i⟩)) ∨
        ∃ i < tree.watchers.size, n = .watcher ⟨t, i⟩ := by
  simp only [treeNodes, List.mem_append, List.mem_flatMap, List.mem_map, List.mem_range,
    List.mem_cons, List.not_mem_nil, or_false, eq_comm]

theorem mem_nodes_iff {n : Node} : n ∈ p.nodes ↔ p.Present n := by
  -- an entry of a tree that is not there is not there either
  have hobject : ∀ o, (p.store.object? o).isSome ↔
      o.tree.index < p.store.trees.size ∧ o.index < (p.store.tree o.tree).objects.size := by
    intro o
    refine ⟨fun h => ⟨?_, (Arena.get?_isSome_iff _ _).1 h⟩,
      fun h => (Arena.get?_isSome_iff _ _).2 h.2⟩
    exact (Arena.get?_isSome_iff _ _).1 (Store.hasTree_of_object? h)
  have hwatcher : ∀ w, (p.store.watcher? w).isSome ↔
      w.tree.index < p.store.trees.size ∧ w.index < (p.store.tree w.tree).watchers.size := by
    intro w
    refine ⟨fun h => ⟨?_, (Arena.get?_isSome_iff _ _).1 h⟩,
      fun h => (Arena.get?_isSome_iff _ _).2 h.2⟩
    exact (Arena.get?_isSome_iff _ _).1 (Store.hasTree_of_watcher? h)
  simp only [nodes, List.mem_append, List.mem_flatMap, List.mem_range, List.mem_map,
    mem_treeNodes_iff]
  cases n with
  | object o =>
    obtain ⟨⟨t⟩, i⟩ := o
    simp [Present, hobject]
  | registry r =>
    cases r with
    | ofObject o =>
      obtain ⟨⟨t⟩, i⟩ := o
      simp [Present, hobject]
    | free i => simp [Present]
  | watcher w =>
    obtain ⟨⟨t⟩, i⟩ := w
    simp [Present, hwatcher]
  | compiler c =>
    obtain ⟨i⟩ := c
    simp [Present, compiler?, Arena.get?_isSome_iff]
  | engine e =>
    obtain ⟨i⟩ := e
    simp [Present, engine?, Arena.get?_isSome_iff]

/-! ## 2. References -/

/-- The strong references, one kind after the other. -/
inductive Reference (p : Page κ) : Node → Node → Prop where
  | registry {o : ObjectId} (ho : (p.store.object? o).isSome) :
    Reference p (.object o) (.registry (.ofObject o))
  | nested {o n : ObjectId} {key : String} (hn : p.store.Nests o key n) :
    Reference p (.object o) (.object n)
  | registered {r : RegistryId} {w : WatcherId} (hw : w ∈ p.store.registered r) :
    Reference p (.registry r) (.watcher w)
  | baseline {w : WatcherId} {x : Watcher (Reaction κ)} {n : ObjectId}
    (hw : p.store.watcher? w = some x) (hb : x.baseline = .proxy n) :
    Reference p (.watcher w) (.object n)
  | rendered {c : CompilerId} {x : Compiler} (hx : p.compiler? c = some x) :
    Reference p (.compiler c) (.object x.data)
  | rendering {c : CompilerId} {x : Compiler} {w : WatcherId} (hx : p.compiler? c = some x)
    (hw : w ∈ x.watchers) : Reference p (.compiler c) (.watcher w)
  | compiler {e : EngineId} {engine : Engine κ} (he : p.engine? e = some engine) :
    Reference p (.engine e) (.compiler engine.compiler)
  | data {e : EngineId} {engine : Engine κ} (he : p.engine? e = some engine) :
    Reference p (.engine e) (.object engine.data)

theorem reference_of_mem {n m : Node} (h : m ∈ p.references n) : p.Reference n m := by
  cases n with
  | object o =>
    cases ho : p.store.object? o with
    | none => simp [references, ho] at h
    | some x =>
      simp only [references, ho, List.mem_cons, List.mem_map, List.mem_filterMap] at h
      rcases h with rfl | ⟨n, ⟨⟨key, slot⟩, hslot, hn⟩, rfl⟩
      · exact .registry (by rw [ho]; rfl)
      · cases slot with
        | plain v => cases hn
        | nested n' =>
          cases hn
          exact .nested ⟨x.slots, by rw [Store.slots?, ho]; rfl, hslot⟩
  | registry r =>
    obtain ⟨w, hw, rfl⟩ := List.mem_map.1 h
    exact .registered hw
  | watcher w =>
    cases hw : p.store.watcher? w with
    | none => simp [references, hw] at h
    | some x =>
      simp only [references, hw, List.mem_map, Option.mem_toList] at h
      obtain ⟨n, hn, rfl⟩ := h
      exact .baseline hw (Field.eq_proxy hn)
  | compiler c =>
    cases hx : p.compiler? c with
    | none => simp [references, hx] at h
    | some x =>
      simp only [references, hx, List.mem_cons, List.mem_map] at h
      rcases h with rfl | ⟨w, hw, rfl⟩
      · exact .rendered hx
      · exact .rendering hx hw
  | engine e =>
    cases he : p.engine? e with
    | none => simp [references, he] at h
    | some engine =>
      simp only [references, he, List.mem_cons, List.not_mem_nil, or_false] at h
      rcases h with rfl | rfl
      · exact .compiler he
      · exact .data he

theorem Reference.mem {n m : Node} (h : p.Reference n m) : m ∈ p.references n := by
  cases h with
  | registry ho =>
    obtain ⟨x, hx⟩ := Option.isSome_iff_exists.1 ho
    simp [references, hx]
  | @nested o n key hn =>
    obtain ⟨slots, hslots, hslot⟩ := hn
    obtain ⟨x, hx, rfl⟩ := Option.map_eq_some_iff.1 hslots
    simp only [references, hx, List.mem_cons, List.mem_map, List.mem_filterMap]
    exact .inr ⟨n, ⟨_, hslot, rfl⟩, rfl⟩
  | registered hw => exact List.mem_map_of_mem hw
  | baseline hw hb => simp [references, hw, hb, Field.proxy?]
  | rendered hx => simp [references, hx]
  | rendering hx hw => simp [references, hx, hw]
  | compiler he => simp [references, he]
  | data he => simp [references, he]

/-- **What a node keeps alive**, reference by reference. -/
theorem mem_references_iff {n m : Node} : m ∈ p.references n ↔ p.Reference n m :=
  ⟨reference_of_mem, Reference.mem⟩

-- What is not there refers to nothing.
theorem present_of_mem_references {n m : Node} (h : m ∈ p.references n) : p.Present n := by
  cases mem_references_iff.1 h with
  | registry ho => exact ho
  | nested hn =>
    obtain ⟨slots, hslots, -⟩ := hn
    show (p.store.object? _).isSome
    rw [← Store.isSome_slots?, hslots]
    rfl
  | @registered r w hw =>
    cases r with
    | ofObject o => exact Store.object?_isSome_of_registered hw
    | free i =>
      show i < p.store.registries.size
      refine Nat.lt_of_not_le fun hle => ?_
      simp [Store.registered, (Arena.get?_eq_none_iff _ _).2 hle] at hw
  | baseline hw hb => simp [Present, hw]
  | rendered hx | rendering hx => simp [Present, hx]
  | compiler he | data he => simp [Present, he]

-- What the page itself holds.
theorem mem_anchors_iff {n : Node} :
    n ∈ p.anchors ↔ (∃ t w, p.store.active t = some w ∧ n = .watcher w) ∨
      ∃ e el l, p.document.element? e = some el ∧ l ∈ el.listeners ∧ n ∈ listenerHolds l.2 := by
  rw [anchors, List.mem_append, List.mem_map, List.mem_flatMap]
  refine or_congr ⟨?_, ?_⟩ ⟨?_, ?_⟩
  · rintro ⟨w, hw, rfl⟩
    obtain ⟨t, ht⟩ := Store.exists_active_iff.1 (List.mem_filterMap.1 hw)
    exact ⟨t, w, ht, rfl⟩
  · rintro ⟨t, w, hw, rfl⟩
    exact ⟨w, List.mem_filterMap.2 (Store.exists_active_iff.2 ⟨t, hw⟩), rfl⟩
  · rintro ⟨el, hel, hn⟩
    obtain ⟨l, hl, hn⟩ := List.mem_flatMap.1 hn
    obtain ⟨e, he⟩ := Document.mem_elements_iff.1 hel
    exact ⟨e, el, l, he, hl, hn⟩
  · rintro ⟨e, el, l, he, hl, hn⟩
    exact ⟨el, Document.mem_elements_iff.2 ⟨e, he⟩, List.mem_flatMap.2 ⟨l, hl, hn⟩⟩

/-! ## 3. The living -/

/-- All members of `S` are nodes that are held or that a member refers to. -/
def Supports (p : Page κ) (held : List Node) (S : Node → Prop) : Prop :=
  ∀ n, S n → p.Present n ∧ (n ∈ held ∨ ∃ l, S l ∧ n ∈ p.references l)

theorem mem_supported_iff {ns : List Node} {n : Node} :
    n ∈ p.supported held ns ↔ n ∈ ns ∧ (n ∈ held ∨ ∃ l ∈ ns, n ∈ p.references l) := by
  simp only [supported, List.mem_filter, List.contains_iff_mem, List.mem_append, List.mem_flatMap]

-- A set that supports itself is not touched by the search.
theorem Supports.subset_settle {S : Node → Prop} (hS : p.Supports held S) (rounds : Nat)
    {ns : List Node} (hns : ∀ n, S n → n ∈ ns) : ∀ n, S n → n ∈ p.settle held rounds ns := by
  induction rounds generalizing ns with
  | zero => exact hns
  | succ rounds ih =>
    have hkept : ∀ n, S n → n ∈ p.supported held ns := by
      intro n hn
      refine mem_supported_iff.2 ⟨hns n hn, (hS n hn).2.imp_right ?_⟩
      rintro ⟨l, hl, hnl⟩
      exact ⟨l, hns l hl, hnl⟩
    unfold settle
    dsimp only
    split
    · exact hns
    · exact ih hkept

theorem settle_subset (rounds : Nat) (ns : List Node) : p.settle held rounds ns ⊆ ns := by
  induction rounds generalizing ns with
  | zero => exact List.Subset.refl ns
  | succ rounds ih =>
    unfold settle
    dsimp only
    split
    · exact List.Subset.refl ns
    · exact List.Subset.trans (ih _) (List.filter_subset_self _)

-- With as many rounds as there are nodes the search comes to rest.
theorem supported_settle {rounds : Nat} {ns : List Node} (h : ns.length ≤ rounds) :
    p.supported held (p.settle held rounds ns) = p.settle held rounds ns := by
  induction rounds generalizing ns with
  | zero =>
    rw [List.eq_nil_of_length_eq_zero (Nat.le_zero.1 h)]
    rfl
  | succ rounds ih =>
    have hle : (p.supported held ns).length ≤ ns.length := List.length_filter_le _ _
    unfold settle
    dsimp only
    split
    · rename_i hlength
      exact List.filter_sublist.eq_of_length hlength
    · exact ih (by omega)

/-- **The living are the largest set that supports itself.** -/
theorem mem_living_iff {n : Node} :
    n ∈ p.living held ↔ ∃ S, p.Supports (held ++ p.anchors) S ∧ S n := by
  constructor
  · intro hn
    refine ⟨(· ∈ p.living held), fun m hm => ⟨?_, ?_⟩, hn⟩
    · exact mem_nodes_iff.1 (settle_subset _ _ hm)
    · have hrest : p.supported (held ++ p.anchors) (p.living held) = p.living held :=
        supported_settle (Nat.le_refl p.nodes.length)
      rw [← hrest] at hm
      exact (mem_supported_iff.1 hm).2
  · rintro ⟨S, hS, hn⟩
    exact hS.subset_settle _ (fun m hm => mem_nodes_iff.2 (hS m hm).1) n hn

theorem alive_iff {n : Node} :
    p.alive held n = true ↔
      n ∈ held ++ p.anchors ∨ (∃ l ∈ held ++ p.anchors, n ∈ p.references l) ∨
        n ∈ p.living held := by
  simp only [alive, Bool.or_eq_true, List.contains_iff_mem, List.mem_flatMap, or_assoc]

/-! ## 4. Reaching -/

/-- A strong reference leads from `n` to `m`. -/
def Refers (p : Page κ) (n m : Node) : Prop := m ∈ p.references n

/-- Strong references lead from `n` to `m`. -/
def Reaches (p : Page κ) : Node → Node → Prop := Relation.ReflTransGen p.Refers

/-- Strong references lead to the node from something held, be it by the page itself. -/
def Reachable (p : Page κ) (held : List Node) (n : Node) : Prop :=
  ∃ r ∈ held ++ p.anchors, p.Reaches r n

/-- The watcher keeps itself alive: its baseline is an observable that leads back to it. -/
def KeepsItself (p : Page κ) (w : WatcherId) : Prop :=
  ∃ x n, p.store.watcher? w = some x ∧ x.baseline = .proxy n ∧ p.Reaches (.object n) (.watcher w)

-- Backwards from a node of a set that supports itself, to something held or round in a circle.
theorem Supports.reached {S : Node → Prop} (hS : p.Supports held S) {n : Node} (hn : S n) :
    (∃ r ∈ held, p.Reaches r n) ∨
      ∃ l, Relation.TransGen p.Refers l l ∧ p.Reaches l n := by
  by_cases hcircle : ∃ l, Relation.TransGen p.Refers l l ∧ p.Reaches l n
  · exact .inr hcircle
  refine .inl ?_
  let A := {m : Node // m ∈ p.nodes ∧ S m ∧ p.Reaches m n}
  have hfinite : Finite A := (List.finite_toSet p.nodes).subset fun m hm => hm.1
  let before : A → A → Prop := fun l m => Relation.TransGen p.Refers l.1 m.1
  have htrans : IsTrans A before := ⟨fun _ _ _ h h' => h.trans h'⟩
  have hirrefl : Std.Irrefl before := ⟨fun l h => hcircle ⟨l.1, h, l.2.2.2⟩⟩
  have hwf : WellFounded before := Finite.wellFounded_of_trans_of_irrefl before
  obtain ⟨⟨m, hm, hSm, hreach⟩, -, hmin⟩ := hwf.has_min Set.univ
    ⟨⟨n, mem_nodes_iff.2 (hS n hn).1, hn, .refl⟩, trivial⟩
  rcases (hS m hSm).2 with hheld | ⟨l, hl, hml⟩
  · exact ⟨m, hheld, hreach⟩
  · have hpresent := mem_nodes_iff.2 (hS l hl).1
    exact (hmin ⟨l, hpresent, hl, hreach.head hml⟩ trivial (.single hml)).elim

/-! ## 5. Circles -/

/-- How deep a node stands: views before compilers, those before data, and data before the watchers
    of it; among observables, the nested after their parents. -/
def level : Node → ℕ ×ₗ ℕ
  | .engine _ => toLex (0, 0)
  | .compiler _ => toLex (1, 0)
  | .object o => toLex (2, o.index)
  | .registry _ => toLex (3, 0)
  | .watcher _ => toLex (4, 0)

-- Every reference goes down, but for that of a watcher to its baseline.
theorem level_lt_of_refers (hf : p.store.Forest) {n m : Node} (h : p.Refers n m) :
    level n < level m ∨
      ∃ w x o, n = .watcher w ∧ m = .object o ∧ p.store.watcher? w = some x ∧
        x.baseline = .proxy o := by
  cases mem_references_iff.1 h with
  | registry ho | registered hw | rendered hx | rendering hx | compiler he | data he =>
    exact .inl (by simp [level, Prod.Lex.toLex_lt_toLex])
  | nested hn => exact .inl (by simp [level, Prod.Lex.toLex_lt_toLex, hf.below hn])
  | baseline hw hb => exact .inr ⟨_, _, _, rfl, rfl, hw, hb⟩

-- A way that does not go down passes from a watcher to its baseline.
theorem level_lt_of_transGen (hf : p.store.Forest) {n m : Node}
    (h : Relation.TransGen p.Refers n m) :
    level n < level m ∨
      ∃ w x o, p.Reaches n (.watcher w) ∧ p.store.watcher? w = some x ∧ x.baseline = .proxy o ∧
        p.Reaches (.object o) m := by
  induction h with
  | single h =>
    rcases level_lt_of_refers hf h with hlt | ⟨w, x, o, rfl, rfl, hw, hb⟩
    · exact .inl hlt
    · exact .inr ⟨w, x, o, .refl, hw, hb, .refl⟩
  | tail hl h ih =>
    rcases ih with hlt | ⟨w, x, o, hto, hw, hb, hfrom⟩
    · rcases level_lt_of_refers hf h with hlt' | ⟨w, x, o, rfl, rfl, hw, hb⟩
      · exact .inl (hlt.trans hlt')
      · exact .inr ⟨w, x, o, hl.to_reflTransGen, hw, hb, .refl⟩
    · exact .inr ⟨w, x, o, hto, hw, hb, hfrom.tail h⟩

/-- **Every circle is closed by a watcher** that keeps itself alive. -/
theorem keepsItself_of_circle (hf : p.store.Forest) {l : Node}
    (h : Relation.TransGen p.Refers l l) :
    ∃ w, p.KeepsItself w ∧ p.Reaches (.watcher w) l := by
  rcases level_lt_of_transGen hf h with hlt | ⟨w, x, o, hto, hw, hb, hfrom⟩
  · exact (lt_irrefl _ hlt).elim
  · have hstep : p.Refers (.watcher w) (.object o) := mem_references_iff.2 (.baseline hw hb)
    exact ⟨w, ⟨x, o, hw, hb, hfrom.trans hto⟩, hfrom.head hstep⟩

/-! ## 6. Who is alive -/

/-- **What is alive is reached** from something held, or from a watcher that keeps itself alive. -/
theorem reachable_of_alive (hf : p.store.Forest) {n : Node} (h : p.alive held n = true) :
    p.Reachable held n ∨ ∃ w, p.KeepsItself w ∧ p.Reaches (.watcher w) n := by
  rcases alive_iff.1 h with hheld | ⟨l, hl, hn⟩ | hliving
  · exact .inl ⟨n, hheld, .refl⟩
  · exact .inl ⟨l, hl, .single hn⟩
  · obtain ⟨S, hS, hn⟩ := mem_living_iff.1 hliving
    rcases hS.reached hn with hr | ⟨l, hl, hreach⟩
    · exact .inl hr
    · obtain ⟨w, hw, hwl⟩ := keepsItself_of_circle hf hl
      exact .inr ⟨w, hw, hwl.trans hreach⟩

-- A watcher that keeps itself alive stands behind something that it reaches.
theorem KeepsItself.before {w : WatcherId} (h : p.KeepsItself w) :
    ∃ l, p.Reaches (.watcher w) l ∧ .watcher w ∈ p.references l := by
  obtain ⟨x, n, hw, hb, hreach⟩ := h
  have hstep : p.Refers (.watcher w) (.object n) := mem_references_iff.2 (.baseline hw hb)
  rcases Relation.ReflTransGen.cases_tail hreach with he | ⟨l, hl, hlast⟩
  · cases he
  · exact ⟨l, hl.head hstep, hlast⟩

/-- **What is reached is alive**, if it is there. -/
theorem alive_of_reachable {n : Node} (hn : p.Present n)
    (h : p.Reachable held n ∨ ∃ w, p.KeepsItself w ∧ p.Reaches (.watcher w) n) :
    p.alive held n = true := by
  refine alive_iff.2 (.inr (.inr (mem_living_iff.2 ?_)))
  refine ⟨fun m => p.Present m ∧ (p.Reachable held m ∨
    ∃ w, p.KeepsItself w ∧ p.Reaches (.watcher w) m), fun m hm => ⟨hm.1, ?_⟩, hn, h⟩
  -- the last step of a way comes from a node that is there and that the way reaches
  rcases hm.2 with ⟨r, hr, hreach⟩ | ⟨w, hw, hreach⟩
  · rcases Relation.ReflTransGen.cases_tail hreach with rfl | ⟨l, hl, hlast⟩
    · exact .inl hr
    · exact .inr ⟨l, ⟨present_of_mem_references hlast, .inl ⟨r, hr, hl⟩⟩, hlast⟩
  · rcases Relation.ReflTransGen.cases_tail hreach with rfl | ⟨l, hl, hlast⟩
    · obtain ⟨l, hl, hlast⟩ := hw.before
      exact .inr ⟨l, ⟨present_of_mem_references hlast, .inr ⟨w, hw, hl⟩⟩, hlast⟩
    · exact .inr ⟨l, ⟨present_of_mem_references hlast, .inr ⟨w, hw, hl⟩⟩, hlast⟩

end ReactiveView.Page
