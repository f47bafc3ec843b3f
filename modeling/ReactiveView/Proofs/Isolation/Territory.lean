import ReactiveView.Proofs.Isolation.MovedTree
import ReactiveView.Proofs.Page.Delegation

/-!
# Territories

To a view belong a data tree, an element, a binding table, a compiler and the view itself.  Two
pages may show the same view, each in a territory of its own: what belongs to it is then the same on
both, but for the places.  The changes that are made within a territory keep it the same, and leave
everything else on either page as it is.
-/

namespace ReactiveView

variable {κ : Type}

/-! ## 1. Territories -/

/-- What belongs to a view. -/
structure Territory where
  tree : TreeId
  root : ElementId
  table : TableId
  compiler : CompilerId
  engine : EngineId
  deriving DecidableEq, Repr

/-- The node belongs to the view. -/
def Territory.Owns (here : Territory) : Node → Prop
  | .object o => o.tree = here.tree
  | .registry (.ofObject o) => o.tree = here.tree
  | .registry (.free _) => False
  | .watcher w => w.tree = here.tree
  | .compiler c => c = here.compiler
  | .engine e => e = here.engine

/-- Nothing belongs to both views. -/
structure Territory.Disjoint (here other : Territory) : Prop where
  tree : here.tree ≠ other.tree
  root : here.root ≠ other.root
  table : here.table ≠ other.table
  compiler : here.compiler ≠ other.compiler
  engine : here.engine ≠ other.engine

theorem Territory.Disjoint.symm {here other : Territory} (h : here.Disjoint other) :
    other.Disjoint here :=
  ⟨h.tree.symm, h.root.symm, h.table.symm, h.compiler.symm, h.engine.symm⟩

theorem Territory.Disjoint.not_owns {here other : Territory} (h : here.Disjoint other) {n : Node}
    (hn : here.Owns n) : ¬ other.Owns n := by
  intro hother
  cases n with
  | object o => exact h.tree (hn.symm.trans hother)
  | registry r =>
    cases r with
    | ofObject o => exact h.tree (hn.symm.trans hother)
    | free i => exact hn
  | watcher w => exact h.tree (hn.symm.trans hother)
  | compiler c => exact h.compiler (hn.symm.trans hother)
  | engine e => exact h.engine (hn.symm.trans hother)

/-! ## 2. What belongs to a territory, in another one -/

/-- The node in the same position of another territory. -/
def Node.into (n : Node) (there : Territory) : Node :=
  match n with
  | .object o => .object (o.into there.tree)
  | .registry (.ofObject o) => .registry (.ofObject (o.into there.tree))
  | .registry (.free i) => .registry (.free i)
  | .watcher w => .watcher (w.into there.tree)
  | .compiler _ => .compiler there.compiler
  | .engine _ => .engine there.engine

def Receiver.into (r : Receiver κ) (t : TreeId) : Receiver κ := ⟨r.data.into t, r.methods⟩

def Reaction.into (r : Reaction κ) (c : CompilerId) : Reaction κ :=
  match r with
  | client code => client code
  | render _ => render c

def Listener.into (l : Listener κ) (there : Territory) : Listener κ :=
  match l with
  | client code => client code
  | delegate _ methods receiver => delegate there.table methods (receiver.into there.tree)

def Element.into (el : Element (Listener κ)) (there : Territory) : Element (Listener κ) :=
  { el with listeners := el.listeners.map fun l => (l.1, l.2.into there) }

def Compiler.into (x : Compiler) (there : Territory) : Compiler :=
  { x with
    data := x.data.into there.tree, table := there.table
    watchers := x.watchers.map (·.into there.tree) }

def Engine.into (e : Engine κ) (there : Territory) : Engine κ :=
  { e with compiler := there.compiler, receiver := e.receiver.into there.tree }

/-- The receiver is one of the tree, and its code is among `mine`. -/
structure Receiver.Within (t : TreeId) (mine : κ → Prop) (r : Receiver κ) : Prop where
  data : r.data.tree = t
  methods : ∀ m ∈ r.methods, mine m.2

def Reaction.Within (here : Territory) (mine : κ → Prop) : Reaction κ → Prop
  | client code => mine code
  | render c => c = here.compiler

def Listener.Within (here : Territory) (mine : κ → Prop) : Listener κ → Prop
  | client code => mine code
  | delegate t methods receiver =>
    t = here.table ∧ (∀ m ∈ methods, mine m.2) ∧ receiver.Within here.tree mine

def Element.Within (here : Territory) (mine : κ → Prop) (el : Element (Listener κ)) : Prop :=
  ∀ l ∈ el.listeners, l.2.Within here mine

/-- The compiler renders the data of the territory into its element, with sequential ids. -/
structure Compiler.Within (here : Territory) (x : Compiler) : Prop where
  data : x.data.tree = here.tree
  root : x.root = here.root
  table : x.table = here.table
  watchers : ∀ w ∈ x.watchers, w.tree = here.tree
  ids : ∃ stem next, x.ids = .sequential stem next

structure Engine.Within (here : Territory) (mine : κ → Prop) (e : Engine κ) : Prop where
  root : e.root = here.root
  compiler : e.compiler = here.compiler
  receiver : e.receiver.Within here.tree mine

theorem Node.owns_into {here : Territory} {n : Node} (h : here.Owns n) (there : Territory) :
    there.Owns (n.into there) := by
  cases n with
  | registry r =>
    cases r with
    | ofObject o => exact rfl
    | free i => exact h
  | _ => exact rfl

-- A node of a territory is known by its position there.
theorem Node.into_inj {here there : Territory} {n m : Node} (hn : here.Owns n) (hm : here.Owns m) :
    n.into there = m.into there ↔ n = m := by
  cases n with
  | object o =>
    cases m with
    | object q => simp only [into, Node.object.injEq, ObjectId.into_inj hn hm]
    | registry r => cases r <;> simp [into]
    | _ => simp [into]
  | registry r =>
    cases r with
    | free i => exact hn.elim
    | ofObject o =>
      cases m with
      | registry r' =>
        cases r' with
        | free i => exact hm.elim
        | ofObject q =>
          simp only [into, Node.registry.injEq, RegistryId.ofObject.injEq, ObjectId.into_inj hn hm]
      | _ => simp [into]
  | watcher w =>
    cases m with
    | watcher x => simp only [into, Node.watcher.injEq, WatcherId.into_inj hn hm]
    | registry r => cases r <;> simp [into]
    | _ => simp [into]
  | compiler c =>
    cases m with
    | compiler d =>
      obtain rfl : c = here.compiler := hn
      obtain rfl : d = here.compiler := hm
      exact iff_of_true rfl rfl
    | registry r => cases r <;> simp [into]
    | _ => simp [into]
  | engine e =>
    cases m with
    | engine e' =>
      obtain rfl : e = here.engine := hn
      obtain rfl : e' = here.engine := hm
      exact iff_of_true rfl rfl
    | registry r => cases r <;> simp [into]
    | _ => simp [into]

-- Every node of the other territory stands for one of this territory.
theorem Node.exists_into {here there : Territory} {n : Node} (h : there.Owns n) :
    ∃ m, here.Owns m ∧ m.into there = n := by
  refine ⟨n.into here, owns_into h here, ?_⟩
  cases n with
  | object o =>
    obtain ⟨_, i⟩ := o
    cases h
    rfl
  | registry r =>
    cases r with
    | free i => exact h.elim
    | ofObject o =>
      obtain ⟨_, i⟩ := o
      cases h
      rfl
  | watcher w =>
    obtain ⟨_, i⟩ := w
    cases h
    rfl
  | compiler c =>
    cases h
    rfl
  | engine e =>
    cases h
    rfl

/-! ## 3. Documents that differ in one element -/

namespace Document

variable {ℓ : Type} {d d' : Document ℓ} {root : ElementId}

/-- The document refuses nothing that is coming. -/
structure Willing (d : Document ℓ) : Prop where
  writes : d.refusedWrites = {}
  listens : d.refusedListens = {}

/-- The documents differ in the element `root` alone, and not in its id. -/
structure Besides (root : ElementId) (d d' : Document ℓ) : Prop where
  element : ∀ e ≠ root, d'.element? e = d.element? e
  byId : ∀ id, d'.byId? id = d.byId? id
  writes : d'.refusedWrites = d.refusedWrites
  listens : d'.refusedListens = d.refusedListens

theorem Besides.refl (root : ElementId) (d : Document ℓ) : d.Besides root d :=
  ⟨fun _ _ => rfl, fun _ => rfl, rfl, rfl⟩

theorem Besides.trans {d'' : Document ℓ} (h : d.Besides root d') (h' : d'.Besides root d'') :
    d.Besides root d'' :=
  ⟨fun e he => (h'.element e he).trans (h.element e he), fun id => (h'.byId id).trans (h.byId id),
    h'.writes.trans h.writes, h'.listens.trans h.listens⟩

theorem Besides.willing (h : d.Besides root d') (hd : d.Willing) : d'.Willing :=
  ⟨h.writes.trans hd.writes, h.listens.trans hd.listens⟩

-- Elements are found by their ids alone.
theorem byId?_modify (d : Document ℓ) (e : ElementId) {g : Element ℓ → Element ℓ}
    (hg : ∀ el, (g el).id = el.id) (id : String) : (d.modify e g).byId? id = d.byId? id := by
  have hids : (d.modify e g).elements.toList.map (·.id) = d.elements.toList.map (·.id) := by
    refine List.ext_getElem? fun i => ?_
    have hget := Arena.get?_modify d.elements (e.number - 1) g i
    simp only [Arena.get?, ← Array.getElem?_toList] at hget
    simp only [List.getElem?_map]
    show Option.map _ (d.elements.modify (e.number - 1) g).cells.toList[i]? = _
    rw [hget]
    split
    · rw [Option.map_map]
      exact congrArg (Option.map · _) (funext hg)
    · rfl
  have hfind : ∀ l : List (Element ℓ),
      l.findIdx? (fun e => e.id == id) = (l.map (·.id)).findIdx? (· == id) := fun l => by
    rw [List.findIdx?_map]
    rfl
  rw [byId?, byId?, hfind, hfind, hids]

theorem besides_modify (he : (d.element? root).isSome) {g : Element ℓ → Element ℓ}
    (hg : ∀ el, (g el).id = el.id) : d.Besides root (d.modify root g) :=
  ⟨fun _ hq => (element?_modify he g _).trans (if_neg hq.symm), byId?_modify d root hg, rfl, rfl⟩

theorem Willing.setMarkup (h : d.Willing) (he : (d.element? root).isSome) (markup : String) :
    d.setMarkup root markup =
      (.ok (), d.modify root fun el => { el with markup, writes := el.writes + 1 }) := by
  have hkept : d.refusedWrites.afterNext = d.refusedWrites := by
    rw [h.writes]
    rfl
  rw [setMarkup_of_taken (by rw [h.writes]; rfl) he, hkept]

theorem Willing.listen (h : d.Willing) (he : (d.element? root).isSome) (type : String)
    (l : ℓ) :
    d.listen root type l =
      (.ok (), d.modify root fun el => { el with listeners := el.listeners ++ [(type, l)] }) := by
  have hkept : d.refusedListens.afterNext = d.refusedListens := by
    rw [h.listens]
    rfl
  have htaken : d.refusedListens.refusesNext = false := by
    rw [h.listens]
    rfl
  obtain ⟨el, hel⟩ := Option.isSome_iff_exists.1 he
  rw [Document.listen, hkept, if_neg (by rw [htaken]; exact Bool.false_ne_true), hel]

end Document

/-! ## 4. Pages with the same view -/

namespace Page

/-- The page `q` shows in the territory `there` the view that `p` shows in `here`; its code is among
    `mine`. -/
structure SameView (here there : Territory) (mine : κ → Prop) (p q : Page κ) : Prop where
  root : there.root = here.root
  store : p.store.SameTree here.tree there.tree (·.into there.compiler)
    (Reaction.Within here mine) q.store
  hasTable : p.HasTable here.table ∧ q.HasTable there.table
  table : q.table there.table = p.table here.table
  compiler : ∃ x, p.compiler? here.compiler = some x ∧ x.Within here ∧
    q.compiler? there.compiler = some (x.into there)
  engine : q.engine? there.engine = (p.engine? here.engine).map (·.into there)
  engine_within : ∀ e ∈ p.engine? here.engine, e.Within here mine
  element : ∃ el, p.document.element? here.root = some el ∧ el.Within here mine ∧
    q.document.element? here.root = some (el.into there)
  willing : p.document.Willing ∧ q.document.Willing

/-- The pages differ in the territory alone. -/
structure Besides (here : Territory) (p q : Page κ) : Prop where
  store : p.store.Besides here.tree q.store
  document : p.document.Besides here.root q.document
  tables : ∀ i ≠ here.table.index, q.tables.get? i = p.tables.get? i
  compilers : ∀ i ≠ here.compiler.index, q.compilers.get? i = p.compilers.get? i
  -- The view itself stays what it is once it is there.
  engines : ∀ i, (i = here.engine.index → (p.engines.get? i).isSome) →
    q.engines.get? i = p.engines.get? i
  entropy : q.entropy = p.entropy

/-- From `b` and `b'` on only one view has changed on each of the pages, and it is the same view. -/
structure Abreast (here there : Territory) (mine : κ → Prop) (b b' p q : Page κ) : Prop
    extends SameView here there mine p q where
  left : b.Besides here p
  right : b'.Besides there q

variable {here there : Territory} {mine : κ → Prop} {b b' p q : Page κ}

theorem Besides.refl (here : Territory) (p : Page κ) : p.Besides here p :=
  ⟨.refl _ _, .refl _ _, fun _ _ => rfl, fun _ _ => rfl, fun _ _ => rfl, rfl⟩

theorem Besides.trans {p' p'' : Page κ} (h : p.Besides here p') (h' : p'.Besides here p'') :
    p.Besides here p'' :=
  ⟨h.store.trans h'.store, h.document.trans h'.document,
    fun i hi => (h'.tables i hi).trans (h.tables i hi),
    fun i hi => (h'.compilers i hi).trans (h.compilers i hi),
    fun i hi => (h'.engines i fun he => by rw [h.engines i hi]; exact hi he).trans
      (h.engines i hi), h'.entropy.trans h.entropy⟩

theorem SameView.abreast (h : SameView here there mine p q) : Abreast here there mine p q p q :=
  ⟨h, .refl _ _, .refl _ _⟩

theorem Besides.compiler? (h : p.Besides here q) {c : CompilerId} (hc : c ≠ here.compiler) :
    q.compiler? c = p.compiler? c :=
  h.compilers _ fun e => hc (congrArg CompilerId.mk e)

theorem Besides.engine? (h : p.Besides here q) {e : EngineId} (he : e ≠ here.engine) :
    q.engine? e = p.engine? e :=
  h.engines _ fun i => absurd (congrArg EngineId.mk i) he

theorem Besides.mounted (h : p.Besides here q) (he : (p.engine? here.engine).isSome) :
    q.engine? here.engine = p.engine? here.engine :=
  h.engines _ fun _ => he

theorem Besides.table (h : p.Besides here q) {t : TableId} (ht : t ≠ here.table) :
    q.table t = p.table t := by
  rw [Page.table, Page.table, h.tables _ fun e => ht (congrArg TableId.mk e)]

/-! ## 5. Changes of a territory -/

-- A change of the data.
theorem Abreast.withStore (h : Abreast here there mine b b' p q) {s s' : Store (Reaction κ)}
    (hs : Store.Abreast here.tree there.tree (·.into there.compiler) (Reaction.Within here mine)
      p.store q.store s s') :
    Abreast here there mine b b' { p with store := s } { q with store := s' } :=
  ⟨⟨h.root, hs.toSameTree, h.hasTable, h.table, h.compiler, h.engine, h.engine_within, h.element,
      h.willing⟩,
    h.left.trans ⟨hs.left, .refl _ _, fun _ _ => rfl, fun _ _ => rfl, fun _ _ => rfl, rfl⟩,
    h.right.trans ⟨hs.right, .refl _ _, fun _ _ => rfl, fun _ _ => rfl, fun _ _ => rfl, rfl⟩⟩

/-- The data, which has not changed yet. -/
theorem SameView.data (h : SameView here there mine p q) :
    Store.Abreast here.tree there.tree (·.into there.compiler) (Reaction.Within here mine)
      p.store q.store p.store q.store :=
  ⟨h.store, .refl _ _, .refl _ _⟩

theorem Abreast.modifyCompiler (h : Abreast here there mine b b' p q) {g g' : Compiler → Compiler}
    (hg : ∀ x : Compiler, x.Within here →
      (g x).Within here ∧ g' (x.into there) = (g x).into there) :
    Abreast here there mine b b' (p.modifyCompiler here.compiler g)
      (q.modifyCompiler there.compiler g') := by
  have hstep : ∀ (r : Page κ) (a : Territory) (k : Compiler → Compiler),
      r.Besides a (r.modifyCompiler a.compiler k) := fun r a k =>
    ⟨.refl _ _, .refl _ _, fun _ _ => rfl,
      fun _ hi => (Arena.get?_modify _ _ _ _).trans (if_neg hi.symm), fun _ _ => rfl, rfl⟩
  obtain ⟨x, hx, hwithin, hx'⟩ := h.compiler
  obtain ⟨hnew, hmoved⟩ := hg x hwithin
  refine ⟨⟨h.root, h.store, h.hasTable, h.table, ⟨g x, ?_, hnew, ?_⟩, h.engine, h.engine_within,
    h.element, h.willing⟩, h.left.trans (hstep _ _ _), h.right.trans (hstep _ _ _)⟩
  · rw [compiler?_modifyCompiler, if_pos rfl, hx]
    rfl
  · rw [compiler?_modifyCompiler, if_pos rfl, hx', ← hmoved]
    rfl

theorem table_modifyTable {t : TableId} (ht : p.HasTable t) (g : BindingTable → BindingTable) :
    (p.modifyTable t g).table t = g (p.table t) := by
  obtain ⟨x, hx⟩ := Option.isSome_iff_exists.1 ht
  simp only [Page.table, modifyTable, Arena.get?_modify, if_true, hx]
  rfl

theorem Abreast.modifyTable (h : Abreast here there mine b b' p q)
    (g : BindingTable → BindingTable) :
    Abreast here there mine b b' (p.modifyTable here.table g) (q.modifyTable there.table g) := by
  have hstep : ∀ (r : Page κ) (a : Territory), r.Besides a (r.modifyTable a.table g) := fun r a =>
    ⟨.refl _ _, .refl _ _, fun _ hi => (Arena.get?_modify _ _ _ _).trans (if_neg hi.symm),
      fun _ _ => rfl, fun _ _ => rfl, rfl⟩
  have hthere : ∀ {r : Page κ} {t : TableId}, r.HasTable t → (r.modifyTable t g).HasTable t := by
    intro r t ht
    show ((r.tables.modify t.index g).get? t.index).isSome = true
    rw [Arena.get?_modify, if_pos rfl, Option.isSome_map]
    exact ht
  refine ⟨⟨h.root, h.store, ⟨hthere h.hasTable.1, hthere h.hasTable.2⟩, ?_, h.compiler, h.engine,
    h.engine_within, h.element, h.willing⟩, h.left.trans (hstep _ _), h.right.trans (hstep _ _)⟩
  rw [table_modifyTable h.hasTable.1, table_modifyTable h.hasTable.2, h.table]

-- A change of the element under which it keeps its id.
theorem Abreast.modifyElement (h : Abreast here there mine b b' p q)
    {g g' : Element (Listener κ) → Element (Listener κ)} (hid : ∀ el, (g el).id = el.id)
    (hid' : ∀ el, (g' el).id = el.id)
    (hg : ∀ el : Element (Listener κ), el.Within here mine →
      (g el).Within here mine ∧ g' (el.into there) = (g el).into there) :
    Abreast here there mine b b' { p with document := p.document.modify here.root g }
      { q with document := q.document.modify here.root g' } := by
  obtain ⟨el, hel, hwithin, hel'⟩ := h.element
  obtain ⟨hnew, hmoved⟩ := hg el hwithin
  have hsome := Option.isSome_of_eq_some hel
  have hsome' := Option.isSome_of_eq_some hel'
  have hdoc := Document.besides_modify hsome hid
  have hdoc' := Document.besides_modify hsome' hid'
  refine ⟨⟨h.root, h.store, h.hasTable, h.table, h.compiler, h.engine, h.engine_within,
      ⟨g el, ?_, hnew, ?_⟩, hdoc.willing h.willing.1, hdoc'.willing h.willing.2⟩,
    h.left.trans ⟨.refl _ _, hdoc, fun _ _ => rfl, fun _ _ => rfl, fun _ _ => rfl, rfl⟩,
    h.right.trans ⟨.refl _ _, ?_, fun _ _ => rfl, fun _ _ => rfl, fun _ _ => rfl, rfl⟩⟩
  · exact (Document.element?_modify hsome g _).trans ((if_pos rfl).trans (congrArg _ hel))
  · refine (Document.element?_modify hsome' g' _).trans ((if_pos rfl).trans ?_)
    rw [hel', ← hmoved]
    rfl
  · rw [h.root]
    exact hdoc'

/-- **A write of the markup** is taken in both territories. -/
theorem Abreast.setMarkup (h : Abreast here there mine b b' p q) (markup : String) :
    ∃ d d', p.document.setMarkup here.root markup = (.ok (), d) ∧
      q.document.setMarkup here.root markup = (.ok (), d') ∧
      Abreast here there mine b b' { p with document := d } { q with document := d' } := by
  obtain ⟨el, hel, -, hel'⟩ := h.element
  exact ⟨_, _, h.willing.1.setMarkup (Option.isSome_of_eq_some hel) markup,
    h.willing.2.setMarkup (Option.isSome_of_eq_some hel') markup,
    h.modifyElement (fun _ => rfl) (fun _ => rfl) fun el hel => ⟨hel, rfl⟩⟩

/-- **A registration** is taken in both territories. -/
theorem Abreast.listen (h : Abreast here there mine b b' p q) (type : String) {l : Listener κ}
    (hl : l.Within here mine) :
    ∃ d d', p.document.listen here.root type l = (.ok (), d) ∧
      q.document.listen here.root type (l.into there) = (.ok (), d') ∧
      Abreast here there mine b b' { p with document := d } { q with document := d' } := by
  obtain ⟨el, hel, -, hel'⟩ := h.element
  refine ⟨_, _, h.willing.1.listen (Option.isSome_of_eq_some hel) type l,
    h.willing.2.listen (Option.isSome_of_eq_some hel') type (l.into there),
    h.modifyElement (fun _ => rfl) (fun _ => rfl) fun el hel => ⟨fun m hm => ?_, ?_⟩⟩
  · rcases List.mem_append.1 hm with hm | hm
    · exact hel m hm
    · rw [List.mem_singleton.1 hm]
      exact hl
  · simp [Element.into]

/-! ## 6. Compiling in a territory -/

theorem Abreast.watchSlots (h : Abreast here there mine b b' p q) {data : ObjectId}
    (hdata : data.tree = here.tree) (keys : List String) :
    (q.watchSlots there.compiler (data.into there.tree) keys).1 =
        (p.watchSlots here.compiler data keys).1 ∧
      Abreast here there mine b b' (p.watchSlots here.compiler data keys).2
        (q.watchSlots there.compiler (data.into there.tree) keys).2 := by
  induction keys generalizing p q with
  | nil => exact ⟨rfl, h⟩
  | cons key keys ih =>
    have hgood : Reaction.Within here mine (.render here.compiler) := rfl
    obtain ⟨s, s', hs, ⟨error, hp, hq⟩ | ⟨w, hw, hp, hq⟩⟩ := h.data.watch hdata key hgood
    · change q.store.watch _ key (.render there.compiler) = _ at hq
      rw [Page.watchSlots, Page.watchSlots, hp, hq]
      exact ⟨rfl, h.withStore hs⟩
    · change q.store.watch _ key (.render there.compiler) = _ at hq
      rw [Page.watchSlots, Page.watchSlots, hp, hq]
      refine ih ((h.withStore hs).modifyCompiler fun x hx => ⟨⟨hx.data, hx.root, hx.table,
        fun v hv => ?_, hx.ids⟩, ?_⟩)
      · rcases List.mem_append.1 hv with hv | hv
        · exact hx.watchers v hv
        · rw [List.mem_singleton.1 hv]
          exact hw
      · simp [Compiler.into]

theorem Abreast.drawId (h : Abreast here there mine b b' p q) {x : Compiler}
    (hx : x.Within here) :
    ∃ id p₁ q₁, p.drawId here.compiler x = (.ok id, p₁) ∧
      q.drawId there.compiler (x.into there) = (.ok id, q₁) ∧
      Abreast here there mine b b' p₁ q₁ := by
  obtain ⟨stem, next, hids⟩ := hx.ids
  cases hb : x.template.binding? with
  | none => exact ⟨_, _, _, drawId_of_none hb p _, drawId_of_none (x := x.into there) hb q _, h⟩
  | some binding =>
    have hdraw : ∀ e, x.ids.draw e =
        (.ok (stem ++ Text.Base36.encode next), .sequential stem (next + 1), e) := fun e => by
      rw [hids]
      rfl
    have hsource : Abreast here there mine b b'
        (p.modifyCompiler here.compiler fun y => { y with ids := .sequential stem (next + 1) })
        (q.modifyCompiler there.compiler fun y => { y with ids := .sequential stem (next + 1) }) :=
      h.modifyCompiler fun y hy => ⟨⟨hy.data, hy.root, hy.table, hy.watchers, _, _, rfl⟩, rfl⟩
    have hnamed : ∀ id : String, Abreast here there mine b b'
        ((p.modifyCompiler here.compiler fun y =>
          { y with ids := .sequential stem (next + 1) }).modifyCompiler here.compiler
            fun y => { y with lastId := some id })
        ((q.modifyCompiler there.compiler fun y =>
          { y with ids := .sequential stem (next + 1) }).modifyCompiler there.compiler
            fun y => { y with lastId := some id }) := fun id =>
      hsource.modifyCompiler fun y hy =>
        ⟨⟨hy.data, hy.root, hy.table, hy.watchers, hy.ids⟩, rfl⟩
    refine ⟨_, _, _, drawId_of_ok hb (hdraw _) _,
      drawId_of_ok (x := x.into there) hb (hdraw _) _, ?_⟩
    rw [hx.table]
    exact (hnamed _).modifyTable _

theorem Abreast.renderWith (h : Abreast here there mine b b' p q) {x : Compiler}
    (hx : x.Within here) (id : Option String) :
    (q.renderWith there.compiler (x.into there) id).1 = (p.renderWith here.compiler x id).1 ∧
      Abreast here there mine b b' (p.renderWith here.compiler x id).2
        (q.renderWith there.compiler (x.into there) id).2 := by
  obtain ⟨htexts, hstore⟩ := h.data.getTexts hx.data x.template.slots
  rcases hread : p.store.getTexts x.data x.template.slots with ⟨texts, s⟩
  rcases hread' : q.store.getTexts (x.into there).data x.template.slots with ⟨texts', s'⟩
  change q.store.getTexts (x.data.into there.tree) _ = _ at hread'
  rw [hread, hread'] at htexts hstore
  obtain rfl : texts' = texts := htexts
  obtain ⟨d, d', hd, hd', hdoc⟩ := (h.withStore hstore).setMarkup (x.template.fill texts' id)
  rw [← hx.root] at hd hd'
  rw [renderWith_of_ok hread hd, renderWith_of_ok (x := x.into there) hread' hd']
  have hcounted : Abreast here there mine b b'
      ({ p with store := s, document := d }.modifyCompiler here.compiler fun y =>
        { y with initialized := true, renders := y.renders + 1 })
      ({ q with store := s', document := d' }.modifyCompiler there.compiler fun y =>
        { y with initialized := true, renders := y.renders + 1 }) :=
    hdoc.modifyCompiler fun y hy => ⟨⟨hy.data, hy.root, hy.table, hy.watchers, hy.ids⟩, rfl⟩
  exact ⟨rfl, hcounted.modifyCompiler fun y hy =>
    ⟨⟨hy.data, hy.root, hy.table, hy.watchers, hy.ids⟩, rfl⟩⟩

/-- **A compile** has the same outcome in both territories. -/
theorem Abreast.compile (h : Abreast here there mine b b' p q) :
    (q.compile there.compiler).1 = (p.compile here.compiler).1 ∧
      Abreast here there mine b b' (p.compile here.compiler).2 (q.compile there.compiler).2 := by
  obtain ⟨x, hx, hwithin, hx'⟩ := h.compiler
  cases ht : x.template.isEmpty with
  | true =>
    rw [compile_of_isEmpty hx ht, compile_of_isEmpty (x := x.into there) hx' ht]
    exact ⟨rfl, h⟩
  | false =>
    -- the watchers, which are made at the first compile
    have hwatched : ((if x.initialized then (.ok (), q)
          else q.watchSlots there.compiler (x.data.into there.tree) x.template.slots).1 =
        (if x.initialized then (.ok (), p)
          else p.watchSlots here.compiler x.data x.template.slots).1) ∧
        Abreast here there mine b b'
          (if x.initialized then (.ok (), p)
            else p.watchSlots here.compiler x.data x.template.slots).2
          (if x.initialized then (.ok (), q)
            else q.watchSlots there.compiler (x.data.into there.tree) x.template.slots).2 := by
      cases x.initialized with
      | true => exact ⟨rfl, h⟩
      | false => exact h.watchSlots hwithin.data x.template.slots
    rcases hp : (if x.initialized then (.ok (), p)
      else p.watchSlots here.compiler x.data x.template.slots) with ⟨watched, p₁⟩
    rcases hq : (if x.initialized then (.ok (), q)
      else q.watchSlots there.compiler (x.data.into there.tree) x.template.slots)
      with ⟨watched', q₁⟩
    rw [hp, hq] at hwatched
    obtain ⟨rfl, h₁⟩ := hwatched
    have hfull : ¬ x.template.isEmpty = true := by
      rw [ht]
      exact Bool.false_ne_true
    cases watched' with
    | error error =>
      have hrun : p.compile here.compiler = (.error (.reactive error), p₁) := by
        simp only [Page.compile, hx, if_neg hfull, hp]
      have hrun' : q.compile there.compiler = (.error (.reactive error), q₁) := by
        simp only [Page.compile, hx', Compiler.into, if_neg hfull, hq]
      rw [hrun, hrun']
      exact ⟨rfl, h₁⟩
    | ok =>
      obtain ⟨id, p₂, q₂, hp₂, hq₂, h₂⟩ := h₁.drawId hwithin
      rw [compile_of_drawn hx ht hp hp₂, compile_of_drawn (x := x.into there) hx' ht hq hq₂]
      exact h₂.renderWith hwithin id

end Page

end ReactiveView
