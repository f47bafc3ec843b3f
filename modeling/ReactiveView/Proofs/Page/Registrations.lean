import ReactiveView.Proofs.Page.Delegation
import ReactiveView.Proofs.Watcher.Registration

/-!
# Registrations for a compiler

A compiler finds its own watchers among those that are registered with its data, by what they do: they
render for it.  Nobody else makes such watchers, and while nobody collects or registers by hand,
nobody else registers them either.
-/

namespace ReactiveView

variable {κ : Type}

/-! ## 1. Stores -/

/-- Whether a watcher with this reaction renders for the compiler `c`. -/
def Reaction.rendersFor (c : CompilerId) : Reaction κ → Bool
  | .render d => d == c
  | .client _ => false

theorem Reaction.rendersFor_iff {c : CompilerId} {r : Reaction κ} :
    r.rendersFor c = true ↔ r = .render c := by
  cases r with
  | client code => exact ⟨(fun h => nomatch h), fun h => nomatch h⟩
  | render d => simp [rendersFor]

namespace Store

variable {s s' : Store (Reaction κ)} {c : CompilerId} {o : ObjectId}

/-- Whether the watcher is there and renders for the compiler `c`. -/
def rendersFor (s : Store (Reaction κ)) (c : CompilerId) (w : WatcherId) : Bool :=
  (s.watcher? w).any fun x => x.reaction.rendersFor c

/-- The registrations with the observable `o` of watchers that render for the compiler `c`, in order
    and with repeats. -/
def registeredFor (s : Store (Reaction κ)) (c : CompilerId) (o : ObjectId) : List WatcherId :=
  (s.registered (.ofObject o)).filter (s.rendersFor c)

theorem rendersFor_iff {w : WatcherId} :
    s.rendersFor c w = true ↔ ∃ x, s.watcher? w = some x ∧ x.reaction = .render c := by
  simp only [rendersFor, Option.any_eq_true, Reaction.rendersFor_iff]

theorem Watches.rendersFor {keys : List String} {ws : List WatcherId}
    (h : s.Watches o (.render c) keys ws) : ∀ w ∈ ws, s.rendersFor c w = true := by
  induction h with
  | nil => exact fun _ hw => nomatch hw
  | cons hkw _ ih =>
    obtain ⟨number, baseline, hx, -⟩ := hkw
    intro w hw
    rcases List.mem_cons.1 hw with rfl | hw
    · exact rendersFor_iff.2 ⟨_, hx, rfl⟩
    · exact ih w hw

theorem Steady.registeredFor (h : s.Steady s') (c : CompilerId) (o : ObjectId) :
    s'.registeredFor c o = s.registeredFor c o := by
  rw [Store.registeredFor, Store.registeredFor, h.registered]
  exact List.filter_congr fun w _ => by rw [Store.rendersFor, Store.rendersFor, h.watcher]

/-- Nobody is collecting, and all watchers that are registered with observables are there. -/
structure AtRest (s : Store (Reaction κ)) : Prop where
  idle : s.Idle
  there : ∀ {o w}, w ∈ s.registered (.ofObject o) → ∃ x, s.watcher? w = some x

theorem AtRest.empty : ({} : Store (Reaction κ)).AtRest := ⟨fun _ => rfl, fun h => nomatch h⟩

theorem AtRest.steady (h : s.AtRest) (hs : s.Steady s') : s'.AtRest := by
  refine ⟨hs.idle h.idle, fun {o w} hw => ?_⟩
  rw [hs.registered] at hw
  rw [hs.watcher]
  exact h.there hw

-- What is registered already does what it did.
theorem AtRest.rendersFor (h : s.AtRest) (hg : s.Grows s') {w : WatcherId}
    (hw : w ∈ s.registered (.ofObject o)) : s'.rendersFor c w = s.rendersFor c w := by
  obtain ⟨x, hx⟩ := h.there hw
  rw [Store.rendersFor, Store.rendersFor, hx, hg.watcher hx]

/-- The change makes no watchers but such as call client code or render for compilers in `mine`; it
    neither registers one by hand nor lets one collect. -/
def Change.Tame (mine : CompilerId → Prop) : Change (Reaction κ) → Prop
  | watch _ _ reaction => ∀ c, reaction = .render c → mine c
  | change => change.Quiet

variable {mine : CompilerId → Prop} {change : Change (Reaction κ)}

theorem Change.Tame.cases (h : change.Tame mine) : change.Quiet ∨
    ∃ o key reaction, change = .watch o key reaction ∧ ∀ c, reaction = .render c → mine c := by
  cases change with
  | watch o key reaction => exact .inr ⟨o, key, reaction, rfl, h⟩
  | read o key => exact .inl trivial
  | observe fields tree => exact .inl trivial
  | newRegistry => exact .inl trivial
  | _ => exact h.elim

-- A new watcher does what it was made for.
theorem Change.Tame.only (h : change.Tame mine) (hi : s.Idle) {w : WatcherId}
    {x : Watcher (Reaction κ)} (hx : (change.apply s).watcher? w = some x) :
    s.watcher? w = some x ∨ ∀ c, x.reaction = .render c → mine c := by
  rcases h.cases with hq | ⟨o, key, reaction, rfl, hr⟩
  · rw [(change.steady hq hi).watcher] at hx
    exact .inl hx
  · rcases watcher?_watch hx with hx | ⟨-, rfl⟩
    · exact .inl hx
    · exact .inr hr

-- Other compilers have the registrations that they had.
theorem Change.Tame.registeredFor (h : change.Tame mine) (hs : s.AtRest) (hc : ¬ mine c)
    (o : ObjectId) : (change.apply s).registeredFor c o = s.registeredFor c o := by
  rcases h.cases with hq | ⟨q, key, reaction, rfl, hr⟩
  · exact (change.steady hq hs.idle).registeredFor c o
  · obtain ⟨v, s', hrun, hw⟩ := watch_of_active_eq_none (hs.idle q.tree) key reaction
    have happly : Change.apply s (.watch q key reaction) = s' := congrArg Prod.snd hrun
    rw [happly, Store.registeredFor, Store.registeredFor, hw.registered]
    have hold := List.filter_congr fun w => hs.rendersFor (c := c) hw.toGrows (o := o) (w := w)
    split
    · -- the new watcher does not render for `c`
      have hnew : ¬ s'.rendersFor c v = true := by
        rw [rendersFor_iff]
        rintro ⟨x, hx, hrender⟩
        rcases hw.only hx with hx | ⟨-, rfl⟩
        · rw [hw.fresh] at hx
          cases hx
        · exact hc (hr c hrender)
      rw [List.filter_append, hold, List.filter_cons_of_neg hnew, List.filter_nil,
        List.append_nil]
    · exact hold

theorem Change.Tame.atRest (h : change.Tame mine) (hs : s.AtRest) : (change.apply s).AtRest := by
  rcases h.cases with hq | ⟨q, key, reaction, rfl, -⟩
  · exact hs.steady (change.steady hq hs.idle)
  · refine ⟨fun t => (active_watch s q key reaction t).trans (hs.idle t), fun {o w} hmem => ?_⟩
    obtain ⟨v, s', hrun, hw⟩ := watch_of_active_eq_none (hs.idle q.tree) key reaction
    have happly : Change.apply s (.watch q key reaction) = s' := congrArg Prod.snd hrun
    rw [happly, hw.registered] at hmem
    rw [happly]
    have hold : w ∈ s.registered (.ofObject o) → ∃ x, s'.watcher? w = some x :=
      fun h => (hs.there h).imp fun _ hx => hw.watcher hx
    split at hmem
    · rename_i hpresent
      obtain ⟨rfl, hpresent⟩ := hpresent
      rcases List.mem_append.1 hmem with hmem | hmem
      · exact hold hmem
      · rw [List.mem_singleton.1 hmem]
        exact ⟨_, hw.made (hasTree_of_object? hpresent)⟩
    · exact hold hmem

/-- What is left alone from the store `s` to the store `s'`, where only compilers in `mine` make
    watchers. -/
structure Tamed (mine : CompilerId → Prop) (s s' : Store (Reaction κ)) : Prop where
  atRest : s'.AtRest
  registeredFor : ∀ {c}, ¬ mine c → ∀ o, s'.registeredFor c o = s.registeredFor c o
  only : ∀ {w x}, s'.watcher? w = some x →
    s.watcher? w = some x ∨ ∀ c, x.reaction = .render c → mine c

theorem Tamed.refl (hs : s.AtRest) : s.Tamed mine s := ⟨hs, fun _ _ => rfl, .inl⟩

theorem Reaches.tamed (h : s.Reaches (Change.Tame mine) s') (hs : s.AtRest) : s.Tamed mine s' := by
  refine h.keeps (s.Tamed mine) (fun {s₁ change} hm hs => ?_) (.refl hs)
  refine ⟨hm.atRest hs.atRest, fun hc o => ?_, fun hx => ?_⟩
  · exact (hm.registeredFor hs.atRest hc o).trans (hs.registeredFor hc o)
  · rcases hm.only hs.atRest.idle hx with hx | hx
    · exact hs.only hx
    · exact .inr hx

end Store

/-! ## 2. Pages -/

namespace Page

variable {p p' : Page κ}

theorem tamed_compile (hs : p.store.AtRest) (c : CompilerId) :
    p.store.Tamed (· = c) (p.compile c).2.store := by
  refine Store.Reaches.tamed ((compile_changes p c).mono fun change hm => ?_) hs
  obtain ⟨x, -, hm⟩ := hm
  cases change with
  | read o key => trivial
  | watch o key reaction =>
    obtain ⟨-, -, rfl⟩ := hm
    exact fun d hd => (Reaction.render.inj hd).symm
  | _ => exact hm.elim

-- The compiler of a view that is being mounted is new.
theorem tamed_mount (hs : p.store.AtRest) (vm : ViewModel κ) (config : Config) :
    p.store.Tamed (fun c => p.compiler? c = none ∧ ((p.mount vm config).2.compiler? c).isSome)
      (p.mount vm config).2.store := by
  rcases mount_parts p vm config with h | ⟨root, hstore, hcompilers⟩
  · rw [h]
    exact .refl hs
  · have hstaged := compiler?_staged p vm config root
    obtain ⟨x, hx, -⟩ :=
      (recompiled (p.staged vm config root) ⟨p.compilers.size⟩).continues hstaged
    have hthere : ((p.mount vm config).2.compiler? ⟨p.compilers.size⟩).isSome := by
      rw [compiler?, hcompilers]
      exact Option.isSome_of_eq_some hx
    have hwrap : p.store.Reaches (Store.Change.Tame fun c => p.compiler? c = none ∧
        ((p.mount vm config).2.compiler? c).isSome) (p.store.wrap vm.data).2 :=
      Store.reaches_apply (.observe vm.data none) trivial
    rw [hstore]
    refine Store.Reaches.tamed (hwrap.trans ((compile_reaches hstaged).mono fun change hm => ?_)) hs
    cases change with
    | read o key => trivial
    | watch o key reaction =>
      obtain ⟨-, -, rfl⟩ := hm
      intro d hd
      cases hd
      exact ⟨compiler?_size p, hthere⟩
    | _ => exact hm.elim

/-- **An orderly move** is a compile, or it leaves the compilers alone that are there; watchers are
    then made for client code and for new compilers. -/
theorem Move.tamed (h : p.Move Request.Orderly p') (hs : p.store.AtRest) :
    (∃ c, p' = (p.compile c).2) ∨
    p.Calm p' ∧
      p.store.Tamed (fun c => p.compiler? c = none ∧ (p'.compiler? c).isSome) p'.store := by
  by_cases hcompile : ∃ c, p' = (p.compile c).2
  · exact .inl hcompile
  · refine .inr ⟨h.calm_or_compile.resolve_right hcompile, ?_⟩
    have hone : ∀ change : Store.Change (Reaction κ), p'.store = change.apply p.store →
        change.Tame (fun c => p.compiler? c = none ∧ (p'.compiler? c).isSome) →
        p.store.Tamed (fun c => p.compiler? c = none ∧ (p'.compiler? c).isSome) p'.store :=
      fun change he hm => he ▸ (Store.reaches_apply change hm).tamed hs
    have hsame : p'.store = p.store →
        p.store.Tamed (fun c => p.compiler? c = none ∧ (p'.compiler? c).isSome) p'.store := by
      intro he
      rw [he]
      exact .refl hs
    cases h with
    | read o key => exact hone (.read o key) rfl trivial
    | wrap fields => exact hone (.observe fields none) rfl trivial
    | wrapIn t fields => exact hone (.observe fields (some t)) rfl trivial
    | watch o key code =>
      exact hone (.watch o key (.client code)) rfl fun _ hr => nomatch hr
    | newRegistry => exact hone .newRegistry rfl trivial
    | register r w ho => exact ho.elim
    | occupy t w ho => exact ho.elim
    | vacate t w ho => exact ho.elim
    | compile c => exact (hcompile ⟨c, rfl⟩).elim
    | bind root t methods receiver =>
      refine hsame ?_
      rw [bind_snd]
      exact store_bindTypes p root t methods receiver _
    | mount vm config => exact tamed_mount hs vm config
    | _ => exact hsame rfl

end Page

end ReactiveView
