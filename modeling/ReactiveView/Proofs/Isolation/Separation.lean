import ReactiveView.Proofs.Isolation.Territory
import ReactiveView.Proofs.Page.Lifetimes

/-!
# Views that nothing else refers to

Whether something is alive is asked of the whole page.  For what belongs to a view the answer comes
from its territory alone, together with what is held of it from outside, as long as nothing else on
the page refers to it; and nothing comes to refer to it by changes of other territories.
-/

namespace ReactiveView

variable {κ : Type} {here there other : Territory} {mine : κ → Prop}

-- A listener of the view holds the data of the view.
theorem Listener.holds_into (l : Listener κ) (there : Territory) :
    Page.listenerHolds (l.into there) = (Page.listenerHolds l).map (·.into there) := by
  cases l <;> rfl

theorem Listener.Within.owns {l : Listener κ} (h : l.Within here mine) :
    ∀ n ∈ Page.listenerHolds l, here.Owns n := by
  intro n hn
  cases l with
  | client code => cases hn
  | delegate t methods receiver =>
    rw [List.mem_singleton.1 hn]
    exact h.2.2.data

namespace Page

variable {p q : Page κ} {n m : Node}

/-! ## 1. Apart from the rest -/

/-- Nothing but the view refers to what belongs to it. -/
structure Apart (here : Territory) (p : Page κ) : Prop where
  references : ∀ {n m}, m ∈ p.references n → here.Owns m → here.Owns n
  active : ∀ {t w}, p.store.active t = some w → w.tree = here.tree → t = here.tree
  listeners : ∀ {e el l n}, p.document.element? e = some el → l ∈ el.listeners →
    n ∈ listenerHolds l.2 → here.Owns n → e = here.root

/-! ## 2. References within a territory -/

theorem SameView.owns_of_mem (h : SameView here there mine p q) (hn : here.Owns n)
    (hm : m ∈ p.references n) : here.Owns m := by
  obtain ⟨x, hx, hwithin, -⟩ := h.compiler
  cases mem_references_iff.1 hm with
  | registry ho => exact hn
  | nested hnests =>
    obtain ⟨slots, hslots, hslot⟩ := hnests
    obtain ⟨object, ho, rfl⟩ := Option.map_eq_some_iff.1 hslots
    exact (h.store.object_within hn ho).slots _ hslot
  | @registered r w hw =>
    cases r with
    | free i => exact hn.elim
    | ofObject o => exact (h.store.registered hn).2 w hw
  | baseline hw hb =>
    refine (h.store.watcher_within hn hw).baseline.proxy? _ ?_
    rw [hb]
    rfl
  | rendered hy =>
    obtain rfl := hn
    cases hx.symm.trans hy
    exact hwithin.data
  | rendering hy hw =>
    obtain rfl := hn
    cases hx.symm.trans hy
    exact hwithin.watchers _ hw
  | compiler he =>
    obtain rfl := hn
    exact (h.engine_within _ he).compiler
  | data he =>
    obtain rfl := hn
    exact (h.engine_within _ he).receiver.data

theorem SameView.references (h : SameView here there mine p q) (hn : here.Owns n) :
    q.references (n.into there) = (p.references n).map (·.into there) := by
  cases n with
  | object o =>
    have ho := h.store.object? hn
    -- the slots with nested observables are the same ones
    have hnested : ∀ slots : Fields Slot,
        ((Fields.mapValues (·.into there.tree) slots).filterMap fun e => e.2.nested?) =
          (slots.filterMap fun e => e.2.nested?).map (·.into there.tree) := fun slots => by
      rw [Fields.mapValues, List.filterMap_map, List.map_filterMap]
      refine List.filterMap_congr fun e _ => ?_
      rcases e with ⟨key, _ | _⟩ <;> rfl
    cases hx : p.store.object? o with
    | none =>
      rw [hx] at ho
      simp [Page.references, Node.into, ho, hx]
    | some x =>
      rw [hx] at ho
      simp only [Page.references, Node.into, ho, hx, Option.map_some, Object.into, hnested,
        List.map_cons, List.map_map]
      rfl
  | registry r =>
    cases r with
    | free i => exact hn.elim
    | ofObject o =>
      simp only [Page.references, Node.into, (h.store.registered hn).1, List.map_map]
      rfl
  | watcher w =>
    have hw := h.store.watcher? hn
    cases hx : p.store.watcher? w with
    | none =>
      rw [hx] at hw
      simp [Page.references, Node.into, hw, hx]
    | some x =>
      rw [hx] at hw
      simp only [Page.references, Node.into, hw, hx, Option.map_some, Watcher.into,
        Field.proxy?_into]
      cases x.baseline.proxy? <;> rfl
  | compiler c =>
    obtain ⟨x, hx, -, hx'⟩ := h.compiler
    obtain rfl : c = here.compiler := hn
    simp only [Page.references, Node.into, hx, hx', Compiler.into, List.map_cons, List.map_map]
    rfl
  | engine e =>
    obtain rfl : e = here.engine := hn
    have he := h.engine
    cases hx : p.engine? here.engine with
    | none =>
      rw [hx] at he
      simp [Page.references, Node.into, he, hx]
    | some engine =>
      rw [hx] at he
      simp only [Page.references, Node.into, he, hx, Option.map_some, Engine.into, List.map_cons,
        List.map_nil]
      rfl

theorem SameView.present (h : SameView here there mine p q) (hn : here.Owns n) :
    q.Present (n.into there) ↔ p.Present n := by
  cases n with
  | object o =>
    show (q.store.object? (o.into there.tree)).isSome ↔ (p.store.object? o).isSome
    rw [h.store.object? hn, Option.isSome_map]
  | registry r =>
    cases r with
    | free i => exact hn.elim
    | ofObject o =>
      show (q.store.object? (o.into there.tree)).isSome ↔ (p.store.object? o).isSome
      rw [h.store.object? hn, Option.isSome_map]
  | watcher w =>
    show (q.store.watcher? (w.into there.tree)).isSome ↔ (p.store.watcher? w).isSome
    rw [h.store.watcher? hn, Option.isSome_map]
  | compiler c =>
    obtain ⟨x, hx, -, hx'⟩ := h.compiler
    obtain rfl : c = here.compiler := hn
    show (q.compiler? there.compiler).isSome ↔ (p.compiler? here.compiler).isSome
    rw [hx, hx']
    exact Iff.rfl
  | engine e =>
    obtain rfl : e = here.engine := hn
    show (q.engine? there.engine).isSome ↔ (p.engine? here.engine).isSome
    rw [h.engine, Option.isSome_map]

theorem SameView.mem_anchors (h : SameView here there mine p q) (hp : p.Apart here)
    (hq : q.Apart there) (hn : here.Owns n) : n.into there ∈ q.anchors ↔ n ∈ p.anchors := by
  obtain ⟨el, hel, hwithin, hel'⟩ := h.element
  have hactive := h.store.active
  rw [mem_anchors_iff, mem_anchors_iff]
  refine or_congr ⟨?_, ?_⟩ ⟨?_, ?_⟩
  · rintro ⟨t, w, hw, he⟩
    cases n with
    | watcher x =>
      cases he
      obtain rfl := hq.active hw rfl
      rw [hactive] at hw
      obtain ⟨y, hy, hxy⟩ := Option.map_eq_some_iff.1 hw
      obtain rfl := (WatcherId.into_inj (h.store.within.active y hy) hn).1 hxy
      exact ⟨_, y, hy, rfl⟩
    | registry r => cases r <;> cases he
    | _ => cases he
  · rintro ⟨t, w, hw, rfl⟩
    obtain rfl := hp.active hw hn
    refine ⟨there.tree, w.into there.tree, ?_, rfl⟩
    rw [hactive, hw]
    rfl
  · rintro ⟨e, el₁, l, hel₁, hl, hm⟩
    obtain rfl := hq.listeners hel₁ hl hm (n.owns_into hn there)
    rw [h.root, hel'] at hel₁
    cases hel₁
    obtain ⟨l', hl', rfl⟩ := List.mem_map.1 hl
    rw [Listener.holds_into] at hm
    obtain ⟨m, hml, hmn⟩ := List.mem_map.1 hm
    obtain rfl := (Node.into_inj ((hwithin _ hl').owns m hml) hn).1 hmn
    exact ⟨_, el, l', hel, hl', hml⟩
  · rintro ⟨e, el₁, l, hel₁, hl, hm⟩
    obtain rfl := hp.listeners hel₁ hl hm hn
    rw [hel] at hel₁
    cases hel₁
    refine ⟨here.root, _, (l.1, l.2.into there), hel', List.mem_map.2 ⟨l, hl, rfl⟩, ?_⟩
    rw [Listener.holds_into]
    exact List.mem_map_of_mem hm

/-! ## 3. Who is alive in a territory -/

/-- The same is held of both views. -/
def SameHeld (here there : Territory) (held held' : List Node) : Prop :=
  ∀ n, here.Owns n → (n.into there ∈ held' ↔ n ∈ held)

/-- **What belongs to a view that nothing else refers to lives and dies with it**: it is alive on
    one page if it is on the other. -/
theorem SameView.alive (h : SameView here there mine p q) (hp : p.Apart here) (hq : q.Apart there)
    {held held' : List Node} (hheld : SameHeld here there held held') (hn : here.Owns n) :
    q.alive held' (n.into there) = p.alive held n := by
  have hroots : ∀ m, here.Owns m → (m.into there ∈ held' ++ q.anchors ↔ m ∈ held ++ p.anchors) :=
    fun m hm => by
      rw [List.mem_append, List.mem_append, hheld m hm, h.mem_anchors hp hq hm]
  -- a reference to the view comes from the view
  have hrefers : ∀ m, here.Owns m → ∀ l', m.into there ∈ q.references l' →
      ∃ l, here.Owns l ∧ l.into there = l' ∧ m ∈ p.references l := by
    intro m hm l' hl'
    obtain ⟨l, hl, rfl⟩ := Node.exists_into (hq.references hl' (m.owns_into hm there))
    rw [h.references hl] at hl'
    obtain ⟨m', hm', he⟩ := List.mem_map.1 hl'
    obtain rfl := (Node.into_inj (h.owns_of_mem hl hm') hm).1 he
    exact ⟨l, hl, rfl, hm'⟩
  have hrefers' : ∀ {m l}, here.Owns l → m ∈ p.references l →
      m.into there ∈ q.references (l.into there) := by
    intro m l hl hm
    rw [h.references hl]
    exact List.mem_map_of_mem hm
  rw [Bool.eq_iff_iff, alive_iff, alive_iff]
  refine or_congr (hroots n hn) (or_congr ⟨?_, ?_⟩ ?_)
  · rintro ⟨l', hl', hm⟩
    obtain ⟨l, hl, rfl, hnl⟩ := hrefers n hn l' hm
    exact ⟨l, (hroots l hl).1 hl', hnl⟩
  · rintro ⟨l, hl, hm⟩
    have hown := hp.references hm hn
    exact ⟨l.into there, (hroots l hown).2 hl, hrefers' hown hm⟩
  · rw [mem_living_iff, mem_living_iff]
    constructor
    · rintro ⟨S, hS, hSn⟩
      refine ⟨fun m => here.Owns m ∧ S (m.into there), fun m hm => ⟨?_, ?_⟩, hn, hSn⟩
      · exact (h.present hm.1).1 (hS _ hm.2).1
      · rcases (hS _ hm.2).2 with hroot | ⟨l', hl', href⟩
        · exact .inl ((hroots m hm.1).1 hroot)
        · obtain ⟨l, hl, rfl, hml⟩ := hrefers m hm.1 l' href
          exact .inr ⟨l, ⟨hl, hl'⟩, hml⟩
    · rintro ⟨S, hS, hSn⟩
      refine ⟨fun m' => ∃ m, here.Owns m ∧ S m ∧ m.into there = m', ?_, n, hn, hSn, rfl⟩
      rintro _ ⟨m, hm, hSm, rfl⟩
      refine ⟨(h.present hm).2 (hS _ hSm).1, ?_⟩
      rcases (hS _ hSm).2 with hroot | ⟨l, hl, href⟩
      · exact .inl ((hroots m hm).2 hroot)
      · have hown := hp.references href hm
        exact .inr ⟨l.into there, ⟨l, hown, hl, rfl⟩, hrefers' hown href⟩

/-! ## 4. Changes of a territory -/

/-- The view refers to nothing but what belongs to it. -/
structure Closed (here : Territory) (p : Page κ) : Prop where
  references : ∀ {n m}, here.Owns n → m ∈ p.references n → here.Owns m
  active : ∀ {w}, p.store.active here.tree = some w → w.tree = here.tree
  listeners : ∀ {el l n}, p.document.element? here.root = some el → l ∈ el.listeners →
    n ∈ listenerHolds l.2 → here.Owns n

theorem SameView.closed (h : SameView here there mine p q) : p.Closed here ∧ q.Closed there := by
  obtain ⟨el, hel, hwithin, hel'⟩ := h.element
  refine ⟨⟨h.owns_of_mem, fun hw => h.store.within.active _ hw,
    fun {el₁ l n} hel₁ hl hn => ?_⟩, ⟨fun {n m} hn hm => ?_, fun {w} hw => ?_,
    fun {el₁ l n} hel₁ hl hn => ?_⟩⟩
  · cases hel.symm.trans hel₁
    exact (hwithin l hl).owns n hn
  · obtain ⟨l, hl, rfl⟩ := Node.exists_into hn
    rw [h.references hl] at hm
    obtain ⟨m', hm', rfl⟩ := List.mem_map.1 hm
    exact m'.owns_into (h.owns_of_mem hl hm') there
  · rw [h.store.active] at hw
    obtain ⟨v, -, rfl⟩ := Option.map_eq_some_iff.1 hw
    rfl
  · rw [h.root] at hel₁
    cases hel'.symm.trans hel₁
    obtain ⟨l', hl', rfl⟩ := List.mem_map.1 hl
    rw [Listener.holds_into] at hn
    obtain ⟨m, hm, rfl⟩ := List.mem_map.1 hn
    exact m.owns_into ((hwithin l' hl').owns m hm) there

-- What does not belong to the territory refers to what it did before.
theorem Besides.references (h : p.Besides here q) (hn : ¬ here.Owns n) :
    q.references n = p.references n := by
  cases n with
  | object o =>
    have htree := h.store.tree (v := o.tree) hn
    simp only [Page.references, Store.object?, htree]
  | registry r =>
    cases r with
    | free i => simp only [Page.references, Store.registered, h.store.registries]
    | ofObject o =>
      have htree := h.store.tree (v := o.tree) hn
      simp only [Page.references, Store.registered, Store.object?, htree]
  | watcher w =>
    have htree := h.store.tree (v := w.tree) hn
    simp only [Page.references, Store.watcher?, htree]
  | compiler c => simp only [Page.references, h.compiler? hn]
  | engine e => simp only [Page.references, h.engine? hn]

/-- **Changes of one view** do not make it refer to another one. -/
theorem Apart.of_besides (hp : p.Apart other) (h : p.Besides here q) (hclosed : q.Closed here)
    (hother : other = here ∨ here.Disjoint other) : q.Apart other := by
  -- what belongs to the view that has changed refers to that view alone
  have hown : ∀ {n}, here.Owns n → other.Owns n → other = here := fun hn hn' =>
    hother.resolve_right fun hd => hd.not_owns hn hn'
  refine ⟨fun {n m} hm hm' => ?_, fun {t w} hw hwtree => ?_, fun {e el l n} hel hl hn hn' => ?_⟩
  · by_cases hn : here.Owns n
    · rw [hown (hclosed.references hn hm) hm']
      exact hn
    · rw [h.references hn] at hm
      exact hp.references hm hm'
  · by_cases ht : t = here.tree
    · subst ht
      rw [hown (n := .watcher w) (hclosed.active hw) hwtree]
    · rw [Store.active, h.store.tree ht] at hw
      exact hp.active hw hwtree
  · by_cases he : e = here.root
    · subst he
      rw [hown (hclosed.listeners hel hl hn) hn']
    · rw [h.document.element e he] at hel
      exact hp.listeners hel hl hn hn'

/-- **Changes of another view** leave the view what it is. -/
theorem SameView.of_besides {p' : Page κ} (h : SameView here there mine p q)
    (hp : p.Besides other p') (hother : other.Disjoint here) : SameView here there mine p' q := by
  obtain ⟨x, hx, hwithin, hx'⟩ := h.compiler
  obtain ⟨el, hel, hel_within, hel'⟩ := h.element
  have htree := hp.store.tree hother.tree.symm
  have htable : p'.tables.get? here.table.index = p.tables.get? here.table.index :=
    hp.tables _ fun e => hother.table (congrArg TableId.mk e).symm
  refine ⟨h.root, ⟨(hp.store.hasTree hother.tree.symm).2 h.store.here, h.store.there, ?_, ?_⟩,
    ⟨?_, h.hasTable.2⟩, ?_, ⟨x, ?_, hwithin, hx'⟩, ?_, ?_, ⟨el, ?_, hel_within, hel'⟩,
    hp.document.willing h.willing.1, h.willing.2⟩
  · rw [htree]
    exact h.store.within
  · rw [htree]
    exact h.store.moved
  · rw [HasTable, htable]
    exact h.hasTable.1
  · rw [hp.table hother.table.symm]
    exact h.table
  · rw [hp.compiler? hother.compiler.symm]
    exact hx
  · rw [hp.engine? hother.engine.symm]
    exact h.engine
  · rw [hp.engine? hother.engine.symm]
    exact h.engine_within
  · rw [hp.document.element _ hother.root.symm]
    exact hel

end Page

end ReactiveView
