import ReactiveView.Proofs.Page.Growth
import ReactiveView.Proofs.Store.Changes

/-!
# What pages do to their stores

A compile reads the data of its compiler, and creates watchers of it as long as the compiler has not
rendered; a mount observes the data of its view before that.  Nothing else on a page turns to the
store.
-/

namespace ReactiveView

variable {κ : Type}

/-! ## 1. Compiles -/

/-- The changes that a compile of `c`, whose compiler is `x`, makes to the store. -/
def Compiler.Makes (x : Compiler) (c : CompilerId) : Store.Change (Reaction κ) → Prop
  | .read o _ => o = x.data
  | .watch o _ reaction => x.initialized = false ∧ o = x.data ∧ reaction = .render c
  | _ => False

theorem Compiler.Makes.observed {x : Compiler} {c : CompilerId}
    {change : Store.Change (Reaction κ)} (h : x.Makes c change) : change.observed = none := by
  cases change <;> first | rfl | exact h.elim

theorem Compiler.Makes.neutral {x : Compiler} {c : CompilerId}
    {change : Store.Change (Reaction κ)} (h : x.Makes c change) : change.Neutral := by
  cases change <;> trivial

namespace Page

theorem watchSlots_reaches {x : Compiler} (hx : x.initialized = false) (c : CompilerId)
    (p : Page κ) (keys : List String) :
    p.store.Reaches (x.Makes c) (p.watchSlots c x.data keys).2.store := by
  induction keys generalizing p with
  | nil => exact .refl _
  | cons key keys ih =>
    have hmakes : x.Makes (κ := κ) c (.watch x.data key (.render c)) := ⟨hx, rfl, rfl⟩
    have hone := Store.reaches_apply (s := p.store) _ hmakes
    rw [Store.Change.apply] at hone
    rw [watchSlots]
    split
    · rename_i hw
      rwa [hw] at hone
    · rename_i w store hw
      rw [hw] at hone
      exact hone.trans (ih ({ p with store }.modifyCompiler c _))

theorem store_drawId (p : Page κ) (c : CompilerId) (x : Compiler) :
    (p.drawId c x).2.store = p.store := by
  rw [drawId]
  split
  · rfl
  · rcases x.ids.draw p.entropy with ⟨result, ids, entropy⟩
    cases result <;> rfl

theorem store_renderWith (p : Page κ) (c : CompilerId) (x : Compiler) (id : Option String) :
    (p.renderWith c x id).2.store = (p.store.getTexts x.data x.template.slots).2 := by
  obtain ⟨markup, result, p', hrun, -, hstore, -⟩ := renderWith_eq p c x id
  rw [hrun, hstore]

/-- **What a compile does to the store.** -/
theorem compile_reaches {p : Page κ} {c : CompilerId} {x : Compiler}
    (hx : p.compiler? c = some x) : p.store.Reaches (x.Makes c) (p.compile c).2.store := by
  cases ht : x.template.isEmpty with
  | true =>
    rw [compile_of_isEmpty hx ht]
    exact .refl _
  | false =>
    have hwatched : p.store.Reaches (x.Makes c)
        (if x.initialized then (.ok (), p)
          else p.watchSlots c x.data x.template.slots).2.store := by
      cases hi : x.initialized with
      | true => exact .refl _
      | false => exact watchSlots_reaches hi c p _
    simp only [compile, hx, ht, Bool.false_eq_true, if_false]
    generalize (if x.initialized then (.ok (), p)
      else p.watchSlots c x.data x.template.slots) = watched at hwatched ⊢
    obtain ⟨result, q⟩ := watched
    cases result with
    | error error => exact hwatched
    | ok =>
      have hdrawn := store_drawId q c x
      dsimp only
      generalize q.drawId c x = drawn at hdrawn ⊢
      obtain ⟨result, q'⟩ := drawn
      cases result with
      | error error =>
        rw [← hdrawn] at hwatched
        exact hwatched
      | ok id =>
        have htexts : q'.store.Reaches (x.Makes c)
            (q'.store.getTexts x.data x.template.slots).2 :=
          Store.getTexts_reaches (fun _ => rfl) _
        have hstore := store_renderWith q' c x id
        dsimp only at hdrawn ⊢
        rw [hstore]
        rw [← hdrawn] at hwatched
        exact hwatched.trans htexts

-- The same for a compiler that may not be there.
theorem compile_changes (p : Page κ) (c : CompilerId) :
    p.store.Reaches (fun change => ∃ x, p.compiler? c = some x ∧ x.Makes c change)
      (p.compile c).2.store := by
  cases hx : p.compiler? c with
  | none =>
    rw [compile_of_none hx]
    exact .refl _
  | some x => exact (compile_reaches hx).mono fun _ hm => ⟨x, rfl, hm⟩

/-! ## 2. Mounts -/

-- A mount comes down to the compile of the view's compiler, or to nothing.
theorem mount_parts (p : Page κ) (vm : ViewModel κ) (config : Config) :
    (p.mount vm config).2 = p ∨ ∃ root,
      (p.mount vm config).2.store =
        ((p.staged vm config root).compile ⟨p.compilers.size⟩).2.store ∧
      (p.mount vm config).2.compilers =
        ((p.staged vm config root).compile ⟨p.compilers.size⟩).2.compilers := by
  rw [mount_eq]
  cases p.document.byId? config.rootId with
  | none => exact .inl rfl
  | some root =>
    refine .inr ⟨root, ?_⟩
    dsimp only
    rcases (p.staged vm config root).compile ⟨p.compilers.size⟩ with ⟨result, q⟩
    cases result with
    | error error => exact ⟨rfl, rfl⟩
    | ok =>
      have hsnd := bind_snd q root ⟨p.tables.size⟩ vm.methods
        ⟨(p.store.wrap vm.data).1, vm.methods⟩
      have hstore := store_bindTypes q root ⟨p.tables.size⟩ vm.methods
        ⟨(p.store.wrap vm.data).1, vm.methods⟩ (q.table ⟨p.tables.size⟩).eventTypes
      have hcompilers := (still_bind q root ⟨p.tables.size⟩ vm.methods
        ⟨(p.store.wrap vm.data).1, vm.methods⟩).compilers
      rw [← hsnd] at hstore
      dsimp only
      generalize q.bind root ⟨p.tables.size⟩ vm.methods
        ⟨(p.store.wrap vm.data).1, vm.methods⟩ = bound at hstore hcompilers ⊢
      obtain ⟨result, q'⟩ := bound
      cases result with
      | error error => exact ⟨hstore, hcompilers⟩
      | ok types => exact ⟨hstore, hcompilers⟩

/-- **What a mount does to the store.** -/
theorem mount_reaches (p : Page κ) (vm : ViewModel κ) (config : Config) :
    p.store.Reaches (fun change => change.Neutral ∧ ∀ fields ∈ change.observed, fields = vm.data)
      (p.mount vm config).2.store := by
  rcases mount_parts p vm config with h | ⟨root, h, -⟩
  · rw [h]
    exact .refl _
  · have hwrap : p.store.Reaches
        (fun change => change.Neutral ∧ ∀ fields ∈ change.observed, fields = vm.data)
        (p.store.wrap vm.data).2 :=
      Store.reaches_apply (.observe vm.data none)
        ⟨trivial, fun _ hf => (Option.some.inj hf).symm⟩
    have hcompile := compile_reaches (compiler?_staged p vm config root)
    rw [h]
    refine hwrap.trans (hcompile.mono fun change hm => ⟨hm.neutral, fun fields hf => ?_⟩)
    rw [hm.observed] at hf
    cases hf

end Page

end ReactiveView
