import Mathlib.Logic.Function.Basic
import ReactiveView.Proofs.Isolation.LocalCode
import ReactiveView.Proofs.Isolation.NewView

/-!
# Views that share a page

Any number of views are mounted on elements of one document, with sequential ids whose stems may be
the same, and are worked with in any order and any number of times.  Next to this page there is one
for each view on which it is mounted alone, and on which the same is done with it.  If the code of
each view keeps to the view, then whatever is done with a view leaves all others as they were, and
has the results that it has where the view is alone.
-/

namespace ReactiveView

variable {ι κ σ σ' : Type}

/-! ## 1. The page before any view -/

namespace Document

variable {ℓ : Type}

/-- Nobody listens, and nothing is going to be refused. -/
structure Bare (d : Document ℓ) : Prop where
  willing : d.Willing
  silent : ∀ {e el}, d.element? e = some el → el.listeners = []

theorem bare_empty : ({} : Document ℓ).Bare := by
  refine ⟨⟨rfl, rfl⟩, fun {e el} hel => ?_⟩
  rw [element?] at hel
  split at hel <;> cases hel

theorem Bare.create {d : Document ℓ} (h : d.Bare) (id : String) : (d.create id).2.Bare := by
  unfold Document.create
  split
  · exact h
  · refine ⟨⟨h.willing.writes, h.willing.listens⟩, fun {e el} hel => ?_⟩
    rw [element?] at hel
    split at hel
    · cases hel
    · rename_i hnumber
      rw [Arena.get?_push] at hel
      split at hel
      · cases hel
        rfl
      · have hold : d.element? e = some el := by rwa [element?, if_neg hnumber]
        exact h.silent hold

theorem bare_ofIds (ids : List String) : (ofIds ids : Document ℓ).Bare :=
  List.foldlRecOn ids _ bare_empty fun _ h id _ => h.create id

end Document

namespace Page

-- Nothing on the page refers to anything.
theorem apart_ofIds (ids : List String) (entropy : Entropy) (here : Territory) :
    (ofIds ids entropy : Page κ).Apart here := by
  refine ⟨fun {n m} hm _ => ?_, (fun {t w} hw => nomatch hw), fun {e el l n} hel hl => ?_⟩
  · cases n with
    | registry r => cases r <;> cases hm
    | _ => cases hm
  · have hbare : (ofIds ids entropy : Page κ).document.Bare := Document.bare_ofIds ids
    rw [hbare.silent hel] at hl
    cases hl

end Page

/-! ## 2. Views and what is done with them -/

/-- Views that are to share a page. -/
structure Ensemble (ι κ σ σ' : Type) where
  -- The elements of the document, and its random words.
  ids : List String
  entropy : Entropy
  client : Client κ σ
  -- The client of each view where it is alone: the code is the same, with the handles of that page.
  alone : ι → Client κ σ'
  vm : ι → ViewModel κ
  config : ι → Config
  -- The code of each view.
  mine : ι → κ → Prop

/-- Where a mounted view is on the page that it shares and on the page that it has to itself, and
    the latter as it is now. -/
structure Seat (κ : Type) where
  here : Territory
  there : Territory
  own : Page κ

namespace Ensemble

/-- The page before any view is mounted. -/
def start (x : Ensemble ι κ σ σ') : Page κ := .ofIds x.ids x.entropy

variable (x : Ensemble ι κ σ σ')

/-- What the page has come to, and which views are mounted: each on an element of its own, with
    sequential ids and with code that is local to it.  With every change of one view the same is
    done on the page that it has to itself. -/
inductive Stage [DecidableEq ι] : Page κ → (ι → Option (Seat κ)) → Prop where
  | start : Stage x.start fun _ => none
  | mount {p : Page κ} {seats : ι → Option (Seat κ)} {i : ι} {root : ElementId}
    (h : Stage p seats) (hi : seats i = none)
    (hroot : x.start.document.byId? (x.config i).rootId = some root)
    (hfree : ∀ j seat, seats j = some seat → seat.here.root ≠ root)
    (hids : ∃ stem, (x.config i).ids = .sequential stem)
    (hmethods : ∀ m ∈ (x.vm i).methods, x.mine i m.2)
    (hcode : x.client.Matches (p.next root) (x.start.next root) (x.mine i) (x.alone i))
    (hmount : (p.mount (x.vm i) (x.config i)).1.isOk) :
    Stage (p.mount (x.vm i) (x.config i)).2 (Function.update seats i (some
      ⟨p.next root, x.start.next root, (x.start.mount (x.vm i) (x.config i)).2⟩))
  -- The view is worked with, and whatever is called back in between has its say.
  | turn {p : Page κ} {seats : ι → Option (Seat κ)} {i : ι} {seat : Seat κ}
    (h : Stage p seats) (hi : seats i = some seat)
    {prog : Program κ σ} {prog' : Program κ σ'}
    (hprog : prog.Matches seat.here seat.there (x.mine i) prog') {s : σ} {s' : σ'}
    (hheld : Page.SameHeld seat.here seat.there (x.client.holds s) ((x.alone i).holds s'))
    {depth : Nat} {r r' : Except Failure Unit} {w : World κ σ} {w' : World κ σ'}
    (hrun : x.client.run depth prog ⟨p, s, []⟩ = some (r, w))
    (hrun' : (x.alone i).run depth prog' ⟨seat.own, s', []⟩ = some (r', w')) :
    Stage w.page (Function.update seats i (some { seat with own := w'.page }))

/-! ## 3. What holds at every stage -/

/-- The view is what it is where it is alone, and nothing else refers to it. -/
structure Seated (p : Page κ) (i : ι) (seat : Seat κ) : Prop where
  view : p.SameView seat.here seat.there (x.mine i) seat.own
  mounted : (p.engine? seat.here.engine).isSome
  apart : p.Apart seat.here
  own : seat.own.Apart seat.there
  code : x.client.Matches seat.here seat.there (x.mine i) (x.alone i)

/-- The views have nothing in common, and the rest of the page is as it was. -/
structure Orderly (p : Page κ) (seats : ι → Option (Seat κ)) : Prop where
  seated : ∀ {i seat}, seats i = some seat → x.Seated p i seat
  disjoint : ∀ {i j seat other}, i ≠ j → seats i = some seat → seats j = some other →
    seat.here.Disjoint other.here
  -- Nothing refers to what belongs to no view.
  rest : ∀ {other}, (∀ i seat, seats i = some seat → seat.here.Disjoint other) → p.Apart other
  elements : ∀ {e}, (∀ i seat, seats i = some seat → seat.here.root ≠ e) →
    p.document.element? e = x.start.document.element? e
  byId : ∀ id, p.document.byId? id = x.start.document.byId? id
  willing : p.document.Willing

variable {x} {p p' : Page κ} {seats : ι → Option (Seat κ)} {i : ι} {seat : Seat κ}

theorem Seated.of_besides {j : ι} {other : Seat κ} (h : x.Seated p j other)
    (hp : p.Besides seat.here p') (hclosed : p'.Closed seat.here)
    (hd : seat.here.Disjoint other.here) : x.Seated p' j other := by
  refine ⟨h.view.of_besides hp hd, ?_, h.apart.of_besides hp hclosed (.inr hd), h.own, h.code⟩
  rw [hp.engine? hd.engine.symm]
  exact h.mounted

theorem orderly_start (x : Ensemble ι κ σ σ') : x.Orderly x.start fun _ => none :=
  ⟨(fun hi => nomatch hi), (fun _ hi => nomatch hi), fun _ => Page.apart_ofIds _ _ _, fun _ => rfl,
    fun _ => rfl, (Document.bare_ofIds x.ids).willing⟩

-- The territory of a new view is nobody's.
theorem Seated.disjoint_next {j : ι} {other : Seat κ} (h : x.Seated p j other) {root : ElementId}
    (hroot : other.here.root ≠ root) : (p.next root).Disjoint other.here := by
  obtain ⟨c, hc, -⟩ := h.view.compiler
  have hlt : ∀ {α : Type} {a : Arena α} {k n : Nat}, (a.get? k).isSome → n = a.size → n ≠ k :=
    fun {α a k n} hk hn => by
      have := (Arena.get?_isSome_iff a k).1 hk
      omega
  exact ⟨fun e => hlt h.view.store.here rfl (congrArg TreeId.index e), hroot.symm,
    fun e => hlt h.view.hasTable.1 rfl (congrArg TableId.index e),
    fun e => hlt (Option.isSome_of_eq_some hc) rfl (congrArg CompilerId.index e),
    fun e => hlt h.mounted rfl (congrArg EngineId.index e)⟩

variable [DecidableEq ι]

/-- **One view changes**, or comes to the page: the others stay seated, and the page orderly. -/
theorem Orderly.change (h : x.Orderly p seats) (hp : p.Besides seat.here p')
    (hseat : x.Seated p' i seat) (hold : ∀ old, seats i = some old → old.here = seat.here)
    (hd : ∀ j other, j ≠ i → seats j = some other → seat.here.Disjoint other.here) :
    x.Orderly p' (Function.update seats i (some seat)) := by
  have hclosed := hseat.view.closed.1
  -- a view is the one that changes, or one that was seated
  have hlook : ∀ {j other}, Function.update seats i (some seat) j = some other →
      j = i ∧ other = seat ∨ j ≠ i ∧ seats j = some other := fun {j other} hj => by
    by_cases hji : j = i
    · subst hji
      rw [Function.update_self] at hj
      exact .inl ⟨rfl, (Option.some.inj hj).symm⟩
    · rw [Function.update_of_ne hji] at hj
      exact .inr ⟨hji, hj⟩
  have hkeep : ∀ {j old}, seats j = some old →
      ∃ new, Function.update seats i (some seat) j = some new ∧ new.here = old.here :=
    fun {j old} hj => by
      by_cases hji : j = i
      · subst hji
        exact ⟨seat, Function.update_self .., (hold old hj).symm⟩
      · exact ⟨old, (Function.update_of_ne hji ..).trans hj, rfl⟩
  refine ⟨fun hj => ?_, fun {j k new other} hne hj hk => ?_, fun {other} hother => ?_,
    fun {e} he => ?_, fun id => (hp.document.byId id).trans (h.byId id),
    hp.document.willing h.willing⟩
  · rcases hlook hj with ⟨rfl, rfl⟩ | ⟨hji, hold'⟩
    · exact hseat
    · exact (h.seated hold').of_besides hp hclosed (hd _ _ hji hold')
  · rcases hlook hj with ⟨rfl, rfl⟩ | ⟨hji, hj'⟩ <;> rcases hlook hk with ⟨rfl, rfl⟩ | ⟨hki, hk'⟩
    · exact absurd rfl hne
    · exact hd _ _ hki hk'
    · exact (hd _ _ hji hj').symm
    · exact h.disjoint hne hj' hk'
  · have hhere := hother i seat (Function.update_self ..)
    refine (h.rest fun j old hj => ?_).of_besides hp hclosed (.inr hhere)
    obtain ⟨new, hnew, he⟩ := hkeep hj
    rw [← he]
    exact hother j new hnew
  · rw [hp.document.element e (he i seat (Function.update_self ..)).symm]
    refine h.elements fun j old hj => ?_
    obtain ⟨new, hnew, hhere⟩ := hkeep hj
    rw [← hhere]
    exact he j new hnew

/-- **A mount** seats the view, and leaves the page orderly. -/
theorem Orderly.mount (h : x.Orderly p seats) {root : ElementId} (hi : seats i = none)
    (hroot : x.start.document.byId? (x.config i).rootId = some root)
    (hfree : ∀ j seat, seats j = some seat → seat.here.root ≠ root)
    (hids : ∃ stem, (x.config i).ids = .sequential stem)
    (hmethods : ∀ m ∈ (x.vm i).methods, x.mine i m.2)
    (hcode : x.client.Matches (p.next root) (x.start.next root) (x.mine i) (x.alone i))
    (hmount : (p.mount (x.vm i) (x.config i)).1.isOk) :
    x.Orderly (p.mount (x.vm i) (x.config i)).2 (Function.update seats i (some
      ⟨p.next root, x.start.next root, (x.start.mount (x.vm i) (x.config i)).2⟩)) := by
  have hbare : x.start.document.Bare := Document.bare_ofIds x.ids
  obtain ⟨el, hel, -⟩ := Document.element?_of_byId?_eq_some hroot
  have helement := h.elements hfree
  have hvacant : x.start.Vacant root := ⟨⟨el, hel, hbare.silent hel⟩, hbare.willing⟩
  have hvacant' : p.Vacant root := ⟨⟨el, helement.trans hel, hbare.silent hel⟩, h.willing⟩
  obtain ⟨hmounted, -⟩ := Page.abreast_mount hvacant' hvacant helement.symm
    ((h.byId _).trans hroot) hroot hids hmethods
  have hd : ∀ j other, seats j = some other → (p.next root).Disjoint other.here := fun j other hj =>
    (h.seated hj).disjoint_next (hfree j other hj)
  obtain ⟨hclosed, hclosed'⟩ := hmounted.closed
  refine h.change hmounted.left
    ⟨hmounted.toSameView, Page.mounted_of_isOk hmount, ?_, ?_, hcode⟩
    (fun old hold => nomatch hi.symm.trans hold) fun j other _ => hd j other
  · have hnobody := h.rest fun j other hj => (hd j other hj).symm
    exact hnobody.of_besides hmounted.left hclosed (.inl rfl)
  · exact (Page.apart_ofIds _ _ _).of_besides hmounted.right hclosed' (.inl rfl)

omit [DecidableEq ι] in
-- The worlds in which a seated view is worked with.
theorem Seated.world (h : x.Seated p i seat) {s : σ} {s' : σ'}
    (hheld : Page.SameHeld seat.here seat.there (x.client.holds s) ((x.alone i).holds s')) :
    World.Abreast x.client.holds (x.alone i).holds seat.here seat.there (x.mine i) p s seat.own s'
      ⟨p, s, []⟩ ⟨seat.own, s', []⟩ := by
  refine ⟨h.view.abreast, rfl, rfl, ?_⟩
  rw [List.append_nil, List.append_nil]
  exact hheld

theorem Orderly.turn (h : x.Orderly p seats) (hi : seats i = some seat) {own' : Page κ}
    (hrun : Page.Abreast seat.here seat.there (x.mine i) p seat.own p' own') :
    x.Orderly p' (Function.update seats i (some { seat with own := own' })) := by
  have hseat := h.seated hi
  obtain ⟨hclosed, hclosed'⟩ := hrun.closed
  refine h.change hrun.left ⟨hrun.toSameView, ?_, ?_, ?_, hseat.code⟩ (fun old hold => ?_)
    fun j other hji hj => ?_
  · rw [hrun.left.mounted hseat.mounted]
    exact hseat.mounted
  · exact hseat.apart.of_besides hrun.left hclosed (.inl rfl)
  · exact hseat.own.of_besides hrun.right hclosed' (.inl rfl)
  · cases hi.symm.trans hold
    rfl
  · have hd := h.disjoint hji.symm hi hj
    exact hd

/-- **Every stage is orderly.** -/
theorem Stage.orderly (h : x.Stage p seats) : x.Orderly p seats := by
  induction h with
  | start => exact orderly_start x
  | mount _ hi hroot hfree hids hmethods hcode hmount ih =>
    exact ih.mount hi hroot hfree hids hmethods hcode hmount
  | @turn p seats i seat h hi prog prog' hprog s s' hheld depth r r' w w' hrun hrun' ih =>
    have hseat := ih.seated hi
    have hend := Client.run_alongside hseat.apart hseat.own hseat.view.root hseat.code depth hprog
      _ _ (hseat.world hheld)
    rw [hrun, hrun'] at hend
    cases hend with
    | some _ hw => exact ih.turn hi hw.page

end Ensemble

/-! ## 4. Isolation -/

/-- What belongs to the view is as it was: its data tree with the watchers of its observables and
    the state of collection, its table, its compiler with the count of renders and the last markup,
    and its element with the markup, the count of writes and the listeners. -/
structure Page.Untouched (here : Territory) (p p' : Page κ) : Prop where
  tree : p'.store.tree here.tree = p.store.tree here.tree
  snapshot : ∀ o, o.tree = here.tree → p'.store.snapshot o = p.store.snapshot o
  registered : ∀ o, o.tree = here.tree →
    p'.store.registered (.ofObject o) = p.store.registered (.ofObject o)
  table : p'.table here.table = p.table here.table
  compiler : p'.compiler? here.compiler = p.compiler? here.compiler
  engine : p'.engine? here.engine = p.engine? here.engine
  element : p'.document.element? here.root = p.document.element? here.root

theorem Page.SameView.untouched {here there other : Territory} {mine : κ → Prop} {p p' q : Page κ}
    (h : p.SameView here there mine q) (hp : p.Besides other p') (hd : other.Disjoint here) :
    p.Untouched here p' := by
  have hview := h.of_besides hp hd
  have htree := hp.store.tree hd.tree.symm
  refine ⟨htree, fun o ho => ?_, fun o ho => ?_, hp.table hd.table.symm,
    hp.compiler? hd.compiler.symm, hp.engine? hd.engine.symm, hp.document.element _ hd.root.symm⟩
  · rw [← h.store.snapshot ho, ← hview.store.snapshot ho]
  · simp only [Store.registered, Store.object?, ho, htree]

/-- **Views do not interfere.**  At every stage, whatever is asked of one view, be it a write, a
    compile, a call of a method or an event, has the same outcome as where the view is alone, and
    leaves the view as it is there; and it leaves everything of every other view as it was. -/
theorem Ensemble.Stage.isolated [DecidableEq ι] {x : Ensemble ι κ σ σ'} {p : Page κ}
    {seats : ι → Option (Seat κ)} (h : x.Stage p seats) {i : ι} {seat : Seat κ}
    (hi : seats i = some seat) {op op' : Operation κ} {rel : op.Reply → op'.Reply → Prop}
    (hop : op.Matches seat.here seat.there (x.mine i) op' rel) {s : σ} {s' : σ'}
    (hheld : Page.SameHeld seat.here seat.there (x.client.holds s) ((x.alone i).holds s'))
    (depth : Nat) :
    Run.SameEnd
      (fun w w' => w.page.SameView seat.here seat.there (x.mine i) w'.page ∧
        ∀ j other, j ≠ i → seats j = some other → p.Untouched other.here w.page)
      rel (op.run x.client.holds (x.client.answer depth) ⟨p, s, []⟩)
      (op'.run (x.alone i).holds ((x.alone i).answer depth) ⟨seat.own, s', []⟩) := by
  have horderly := h.orderly
  have hseat := horderly.seated hi
  have hend := Operation.run_alongside hseat.apart hseat.own
    (fun _ hcue => Client.answer_alongside hseat.apart hseat.own hseat.view.root hseat.code depth
      hcue) hseat.view.root hop _ _ (hseat.world hheld)
  generalize op.run _ _ _ = ran at hend ⊢
  generalize op'.run _ _ _ = ran' at hend ⊢
  cases hend with
  | none => exact .none
  | some hr hw =>
    refine .some hr ⟨hw.page.toSameView, fun j other hji hj => ?_⟩
    exact (horderly.seated hj).view.untouched hw.page.left (horderly.disjoint hji.symm hi hj)

/-! ## 5. Two views -/

/-- A client that keeps views, whose methods change the data that they are run with. -/
def putting (kept : List EngineId) : Client Unit Unit where
  respond
    | .method _ receiver => .perform (.set receiver.data "n" (.text "x")) fun _ => .done
    | _ => .done
  holds _ := kept.map .engine

/-- Two views that differ in their elements alone, and so draw the same ids. -/
def twins : Ensemble Bool Unit Unit Unit where
  ids := ["left", "right"]
  entropy := fun _ => 0
  client := putting [⟨0⟩, ⟨1⟩]
  alone _ := putting [⟨0⟩]
  vm _ :=
    { data := [("n", .text "y")], template := "<b @click=\"put\">\x7b\x7bn\x7d\x7d</b>"
      methods := [("put", ())] }
  config right := { rootId := if right then "right" else "left", ids := .sequential "ra" }
  mine _ _ := True

namespace twins

/-- The page with the left view, which is also the one that this view has to itself. -/
def onlyLeft : Page Unit := (twins.start.mount (twins.vm false) (twins.config false)).2

def onlyRight : Page Unit := (twins.start.mount (twins.vm true) (twins.config true)).2

/-- The page with both views. -/
def both : Page Unit := (onlyLeft.mount (twins.vm true) (twins.config true)).2

def left : Seat Unit := ⟨twins.start.next ⟨1⟩, twins.start.next ⟨1⟩, onlyLeft⟩

def right : Seat Unit := ⟨onlyLeft.next ⟨2⟩, twins.start.next ⟨2⟩, onlyRight⟩

/-- The views are mounted one after the other. -/
def seats : Bool → Option (Seat Unit) :=
  Function.update (Function.update (fun _ => none) false (some left)) true (some right)

theorem putting_matches (kept kept' : List EngineId) (here there : Territory) :
    (putting kept).Matches here there (fun _ => True) (putting kept') := fun cue hcue => by
  cases cue with
  | reaction code field => exact .done
  | event code e => exact .done
  | method code receiver => exact .perform (.set hcue.2.data "n" _) fun _ _ _ => .done

theorem stage : twins.Stage both seats := by
  have hleft : twins.Stage onlyLeft (Function.update (fun _ => none) false (some left)) :=
    .mount .start rfl (by decide +kernel) (fun _ _ hj => nomatch hj) ⟨_, rfl⟩ (fun _ _ => trivial)
      (putting_matches _ _ _ _) (by decide +kernel)
  refine .mount hleft rfl (by decide +kernel) (fun j seat hj => ?_) ⟨_, rfl⟩ (fun _ _ => trivial)
    (putting_matches _ _ _ _) (by decide +kernel)
  cases j with
  | true => cases hj
  | false =>
    cases hj
    decide

/-- What the methods of the right view run with. -/
def receiver : Receiver Unit := ⟨⟨right.here.tree, 0⟩, (twins.vm true).methods⟩

theorem sameHeld : Page.SameHeld right.here right.there (twins.client.holds ())
    ((twins.alone true).holds ()) := fun n hn => by
  show n.into right.there ∈ [⟨0⟩].map Node.engine ↔ n ∈ [⟨0⟩, ⟨1⟩].map Node.engine
  cases n with
  | engine e =>
    obtain rfl : e = ⟨1⟩ := hn
    decide
  | registry r => cases r <;> simp [Node.into]
  | _ => simp [Node.into]

/-- **The method of the right view** renders the right element anew as it does where the view is
    alone, and leaves the left view as it was. -/
theorem right_isolated :
    twins.Stage both seats ∧ Run.SameEnd
      (fun w w' => w.page.SameView right.here right.there (twins.mine true) w'.page ∧
        ∀ j other, j ≠ true → seats j = some other → both.Untouched other.here w.page)
      (fun _ _ => True)
      ((Operation.call receiver "put").run twins.client.holds (twins.client.answer 2)
        ⟨both, (), []⟩)
      ((Operation.call (receiver.into right.there.tree) "put").run (twins.alone true).holds
        ((twins.alone true).answer 2) ⟨onlyRight, (), []⟩) ∧
    ∃ ran ∈ (Operation.call receiver "put").run twins.client.holds (twins.client.answer 2)
        ⟨both, (), []⟩,
      ∃ el ∈ ran.2.page.document.element? right.here.root,
        el.markup = "<b @click=\"put\" id=ra2>x</b>" := by
  have hseat : seats true = some right := rfl
  exact ⟨stage, stage.isolated hseat (.call ⟨rfl, fun _ _ => trivial⟩ "put") sameHeld 2,
    by decide +kernel⟩

end twins

end ReactiveView
