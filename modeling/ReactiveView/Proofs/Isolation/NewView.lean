import ReactiveView.Proofs.Client.Alongside
import ReactiveView.Proofs.Isolation.Separation

/-!
# Mounting in a territory of its own

A mount gives the view a data tree, a table, a compiler and an identity that were not there before;
with its element these are the territory of the view.  Two pages on which a view finds the same root
element show the same view when it has been mounted on both, whatever else there is on either.
-/

namespace ReactiveView

variable {κ : Type}

/-! ## 1. New data -/

namespace Store

variable {ρ : Type} {s s' : Store ρ}

theorem besides_wrap (s : Store ρ) (fields : Fields Value) :
    s.Besides ⟨s.trees.size⟩ (s.wrap fields).2 :=
  ⟨fun _ hi => (Arena.get?_modify _ _ _ _).trans
    ((if_neg hi.symm).trans ((Arena.get?_push _ _ _).trans (if_neg hi))), rfl⟩

theorem tree_wrap (s : Store ρ) (fields : Fields Value) :
    (s.wrap fields).2.tree ⟨s.trees.size⟩ =
      { objects := Arena.push {} { slots := Fields.mapValues .plain fields } } := by
  simp only [wrap, newTree, wrapIn, modifyTree, tree, Arena.get?_modify, Arena.get?_push, if_true]
  rfl

-- The data is the first observable of its tree.
theorem wrap_fst (s : Store ρ) (fields : Fields Value) :
    (s.wrap fields).1 = ⟨⟨s.trees.size⟩, 0⟩ := by
  simp [wrap, newTree, wrapIn, tree, Arena.get?_push]
  rfl

/-- The data of the same view on two pages. -/
theorem sameTree_wrap (s s' : Store ρ) (fields : Fields Value) (f : ρ → ρ) (good : ρ → Prop) :
    (s.wrap fields).2.SameTree ⟨s.trees.size⟩ ⟨s'.trees.size⟩ f good (s'.wrap fields).2 := by
  have hthere : ∀ r : Store ρ, (r.wrap fields).2.HasTree ⟨r.trees.size⟩ := fun r => by
    simp [HasTree, wrap, newTree, wrapIn, modifyTree, Arena.get?_modify, Arena.get?_push]
  refine ⟨hthere s, hthere s', ?_, ?_⟩
  · rw [tree_wrap]
    refine ⟨fun {i x} hx => ?_, (fun hx => by cases hx), fun w hw => by cases hw⟩
    rw [Arena.get?_push] at hx
    split at hx
    · cases hx
      exact Object.within_plain fields _
    · cases hx
  · rw [tree_wrap, tree_wrap]
    simp only [Tree.into, Arena.map_push, Arena.map_empty, Object.into_plain, Option.map_none]

theorem wrap_fst_into (s s' : Store ρ) (fields : Fields Value) :
    (s.wrap fields).1.into ⟨s'.trees.size⟩ = (s'.wrap fields).1 := by
  rw [wrap_fst, wrap_fst]
  rfl

end Store

namespace Page

variable {mine : κ → Prop} {p q : Page κ} {vm : ViewModel κ} {config : Config} {root : ElementId}

/-! ## 2. The staged view -/

/-- The territory of the view that is mounted next, at this element. -/
def next (p : Page κ) (root : ElementId) : Territory where
  tree := ⟨p.store.trees.size⟩
  root := root
  table := ⟨p.tables.size⟩
  compiler := ⟨p.compilers.size⟩
  engine := ⟨p.engines.size⟩

theorem besides_staged (p : Page κ) (vm : ViewModel κ) (config : Config) (root : ElementId) :
    p.Besides (p.next root) (p.staged vm config root) :=
  ⟨p.store.besides_wrap vm.data, .refl _ _,
    fun _ hi => (Arena.get?_push _ _ _).trans (if_neg hi),
    fun _ hi => (Arena.get?_push _ _ _).trans (if_neg hi), fun _ _ => rfl, rfl⟩

/-- What a view finds on a page on which it is mounted: its element, which nobody listens to yet,
    and a document that takes what it is given. -/
structure Vacant (root : ElementId) (p : Page κ) : Prop where
  silent : ∃ el, p.document.element? root = some el ∧ el.listeners = []
  willing : p.document.Willing

/-- **The same view is staged on both pages.** -/
theorem sameView_staged (hp : p.Vacant root) (hq : q.Vacant root)
    (helement : q.document.element? root = p.document.element? root)
    (hids : ∃ stem, config.ids = .sequential stem) :
    (p.staged vm config root).SameView (p.next root) (q.next root) mine
      (q.staged vm config root) := by
  obtain ⟨el, hel, hsilent⟩ := hp.silent
  obtain ⟨stem, hstem⟩ := hids
  have htable : ∀ r : Page κ, (r.staged vm config root).table ⟨r.tables.size⟩ = .empty := by
    intro r
    show ((r.tables.push .empty).get? r.tables.size).getD .empty = _
    rw [Arena.get?_push, if_pos rfl]
    rfl
  have hnone : ∀ r : Page κ, (r.staged vm config root).engine? ⟨r.engines.size⟩ = none := fun r =>
    (Arena.get?_eq_none_iff _ _).2 (Nat.le_refl _)
  have hstaged : (p.stagedCompiler vm config root).into (q.next root) =
      q.stagedCompiler vm config root := by
    have hdata := Store.wrap_fst_into p.store q.store vm.data
    simp only [stagedCompiler, Compiler.into, ← hdata]
    rfl
  have hinto : el.into (q.next root) = el := by
    obtain ⟨id, markup, writes, listeners⟩ := el
    cases hsilent
    rfl
  refine ⟨rfl, Store.sameTree_wrap _ _ _ _ _, ⟨hasTable_staged p vm config root,
    hasTable_staged q vm config root⟩, (htable q).trans (htable p).symm,
    ⟨_, compiler?_staged p vm config root, ⟨rfl, rfl, rfl, (fun w hw => by cases hw), ?_⟩,
      hstaged ▸ compiler?_staged q vm config root⟩, ?_, fun e he => ?_,
    ⟨el, hel, fun l hl => ?_, ?_⟩, hp.willing, hq.willing⟩
  · show ∃ stem next, config.ids.source = .sequential stem next
    rw [hstem]
    exact ⟨_, _, rfl⟩
  · refine (hnone q).trans ?_
    rw [show (p.staged vm config root).engine? (p.next root).engine = none from hnone p]
    rfl
  · cases (hnone p).symm.trans he
  · rw [hsilent] at hl
    cases hl
  · rw [hinto]
    exact helement.trans hel

/-! ## 3. The mounted view -/

variable {here there : Territory} {b b' : Page κ}

/-- The same listeners are attached on both pages, and none is refused. -/
theorem Abreast.bindTypes (h : Abreast here there mine b b' p q) {methods : Fields κ}
    (hmethods : ∀ m ∈ methods, mine m.2) {receiver : Receiver κ}
    (hreceiver : receiver.Within here.tree mine) (types : List String) :
    ∃ p₁ q₁, p.bindTypes here.root here.table methods receiver types = (.ok (), p₁) ∧
      q.bindTypes there.root there.table methods (receiver.into there.tree) types = (.ok (), q₁) ∧
      Abreast here there mine b b' p₁ q₁ := by
  induction types generalizing p q with
  | nil => exact ⟨p, q, rfl, rfl, h⟩
  | cons type types ih =>
    have hlistener : (Listener.delegate here.table methods receiver).Within here mine :=
      ⟨rfl, hmethods, hreceiver⟩
    obtain ⟨d, d', hd, hd', hlistened⟩ := h.listen type hlistener
    rw [← h.root] at hd'
    change q.document.listen there.root type
      (.delegate there.table methods (receiver.into there.tree)) = _ at hd'
    obtain ⟨p₁, q₁, hp₁, hq₁, hrest⟩ := ih hlistened
    refine ⟨p₁, q₁, ?_, ?_, hrest⟩
    · rw [Page.bindTypes, hd]
      exact hp₁
    · rw [Page.bindTypes, hd']
      exact hq₁

theorem Abreast.bind (h : Abreast here there mine b b' p q) {methods : Fields κ}
    (hmethods : ∀ m ∈ methods, mine m.2) {receiver : Receiver κ}
    (hreceiver : receiver.Within here.tree mine) :
    ∃ types p₁ q₁, p.bind here.root here.table methods receiver = (.ok types, p₁) ∧
      q.bind there.root there.table methods (receiver.into there.tree) = (.ok types, q₁) ∧
      Abreast here there mine b b' p₁ q₁ := by
  obtain ⟨p₁, q₁, hp₁, hq₁, hbound⟩ :=
    h.bindTypes hmethods hreceiver (p.table here.table).eventTypes
  refine ⟨_, p₁, q₁, by rw [Page.bind, hp₁], ?_, hbound⟩
  rw [Page.bind, h.table, hq₁]

-- The view gets its identity, which was not there.
theorem Abreast.pushEngine (h : Abreast here there mine b b' p q)
    (hp : p.engines.size = here.engine.index) (hq : q.engines.size = there.engine.index)
    {e : Engine κ} (he : e.Within here mine) :
    Abreast here there mine b b' { p with engines := p.engines.push e }
      { q with engines := q.engines.push (e.into there) } := by
  have hnone : ∀ {r : Page κ} {i}, r.engines.size = i → r.engines.get? i = none := fun hr =>
    (Arena.get?_eq_none_iff _ _).2 (Nat.le_of_eq hr)
  have hnew : ∀ {r : Page κ} {i} {e : Engine κ}, r.engines.size = i →
      (r.engines.push e).get? i = some e := fun hr =>
    (Arena.get?_push _ _ _).trans (if_pos hr.symm)
  -- at the new place nothing was mounted yet
  have hstep : ∀ {r : Page κ} {a : Territory} {e : Engine κ}, r.engines.size = a.engine.index →
      r.Besides a { r with engines := r.engines.push e } := fun {r a e} hr =>
    ⟨.refl _ _, .refl _ _, fun _ _ => rfl, fun _ _ => rfl, fun i hi =>
      (Arena.get?_push _ _ _).trans (if_neg fun hsize => absurd (hi (hsize.trans hr)) (by
        simp [hnone hsize.symm])), rfl⟩
  refine ⟨⟨h.root, h.store, h.hasTable, h.table, h.compiler, ?_, fun x hx => ?_, h.element,
    h.willing⟩, h.left.trans (hstep hp), h.right.trans (hstep hq)⟩
  · show (q.engines.push (e.into there)).get? _ = ((p.engines.push e).get? _).map _
    rw [hnew hp, hnew hq]
    rfl
  · cases (hnew hp).symm.trans hx
    exact he

-- A view that could be mounted is there.
theorem mounted_of_isOk (h : (p.mount vm config).1.isOk) :
    ((p.mount vm config).2.engine? ⟨p.engines.size⟩).isSome := by
  have hmount := mounting p vm config
  generalize p.mount vm config = mounted at h hmount
  cases hmount with
  | homeless => cases h
  | stopped => cases h
  | unbound => cases h
  | done hroot hcompile hbind => exact (Mounting.done hroot hcompile hbind).new.2

/-- **The same view is mounted on both pages**: the mounts have the same outcome, each in a
    territory of its own, and change nothing else. -/
theorem abreast_mount (hp : p.Vacant root) (hq : q.Vacant root)
    (helement : q.document.element? root = p.document.element? root)
    (hpid : p.document.byId? config.rootId = some root)
    (hqid : q.document.byId? config.rootId = some root)
    (hids : ∃ stem, config.ids = .sequential stem) (hmethods : ∀ m ∈ vm.methods, mine m.2) :
    Abreast (p.next root) (q.next root) mine p q (p.mount vm config).2 (q.mount vm config).2 ∧
      SameOutcome (fun e e' => e = (p.next root).engine ∧ e' = (q.next root).engine)
        (p.mount vm config).1 (q.mount vm config).1 := by
  have hstaged : Abreast (p.next root) (q.next root) mine p q (p.staged vm config root)
      (q.staged vm config root) :=
    ⟨sameView_staged hp hq helement hids, besides_staged p vm config root,
      besides_staged q vm config root⟩
  obtain ⟨houtcome, hcompiled⟩ := hstaged.compile
  rcases hcompile : (p.staged vm config root).compile (p.next root).compiler with ⟨result, p₁⟩
  rcases hcompile' : (q.staged vm config root).compile (q.next root).compiler with ⟨result', q₁⟩
  rw [hcompile, hcompile'] at houtcome hcompiled
  obtain rfl : result' = result := houtcome
  cases result' with
  | error error =>
    have hmount : ∀ {r r₁ : Page κ}, r.document.byId? config.rootId = some root →
        (r.staged vm config root).compile ⟨r.compilers.size⟩ = (.error error, r₁) →
        r.mount vm config = (.error error, r₁) := fun hid hrun => by
      simp only [mount_eq, hid, hrun]
    rw [hmount hpid hcompile, hmount hqid hcompile']
    exact ⟨hcompiled, .error error⟩
  | ok =>
    have hdata := Store.wrap_fst_into p.store q.store vm.data
    have hreceiver : (p.stagedReceiver vm).Within (p.next root).tree mine := by
      refine ⟨?_, hmethods⟩
      show (p.store.wrap vm.data).1.tree = _
      rw [Store.wrap_fst]
      rfl
    obtain ⟨types, p₂, q₂, hbind, hbind', hbound⟩ := hcompiled.bind hmethods hreceiver
    have hmoved : (p.stagedReceiver vm).into (q.next root).tree = q.stagedReceiver vm := by
      rw [Receiver.into, stagedReceiver, stagedReceiver, ← hdata]
      rfl
    rw [hmoved] at hbind'
    have hsize := (still_of_bind hbind).engines.trans (engines_staged hcompile)
    have hsize' := (still_of_bind hbind').engines.trans (engines_staged hcompile')
    have hengine : (p.stagedEngine vm root types).into (q.next root) =
        q.stagedEngine vm root types := by
      rw [stagedEngine, stagedEngine, ← hdata]
      rfl
    have hpushed := hbound.pushEngine (by rw [hsize]; rfl) (by rw [hsize']; rfl)
      (e := p.stagedEngine vm root types) ⟨rfl, rfl, hreceiver⟩
    rw [hengine, hsize, hsize'] at hpushed
    rw [mount_of_ok hpid hcompile hbind, mount_of_ok hqid hcompile' hbind', hsize, hsize']
    exact ⟨hpushed, .ok ⟨rfl, rfl⟩⟩

end Page

end ReactiveView
