import ReactiveView.Proofs.Client.Effects
import ReactiveView.Proofs.Client.Forgetting

/-!
# Scopes

A collection is open while its body runs, and bodies nest, also through the calls that they lead to.
A client can keep a list of the collections that are open, in addition to its own state.  The list is
never acted on, so that the client runs as before; and at every moment it tells in which trees
somebody is collecting, and who.
-/

namespace ReactiveView

variable {κ σ : Type}

/-- A collection in a data tree on behalf of a watcher. -/
structure Scope where
  tree : TreeId
  watcher : WatcherId
  deriving DecidableEq, Repr

/-! ## 1. Keeping a list of the open scopes -/

namespace Program

/-- The program that lists the open scopes, the innermost one first.  The body of a collection runs
    with one more of them, and whatever becomes of it, the list is as before when it is left. -/
def scoping : Program κ σ → Program κ (σ × List Scope)
  | done => .done
  | fail error => .fail error
  | consult next => .consult fun c => (next c.1).scoping
  | remember change next => .remember (fun c => (change c.1, c.2)) next.scoping
  | look next => .look fun page => (next page).scoping
  | perform op next => .perform op fun result => (next result).scoping
  | collect t w body next =>
    .consult fun before =>
      .collect t w (.remember (fun c => (c.1, ⟨t, w⟩ :: c.2)) body.scoping) fun result =>
        .remember (fun c => (c.1, before.2)) (next result).scoping

theorem scoping_forgets {holds : σ → List Node} {serve' : Cue κ → Run κ (σ × List Scope) Unit}
    {serve : Cue κ → Run κ σ Unit} (h : ∀ cue, (serve' cue).Forgets (serve cue))
    (p : Program κ σ) :
    (p.scoping.run (fun s => holds s.1) serve').Forgets (p.run holds serve) := by
  induction p with
  | done => exact fun _ => rfl
  | fail error => exact fun _ => rfl
  | consult next ih => exact fun w => ih w.client.1 w
  | remember change next ih =>
    exact fun w => ih { w with client := (change w.client.1, w.client.2) }
  | look next ih => exact fun w => ih w.page w
  | perform op next ih => exact (Run.Forgets.outcome (op.run_forgets h)).bind ih
  | collect t x body next ihbody ih =>
    intro w
    have hbody : Run.Forgets
        ((Program.remember (fun c => (c.1, ⟨t, x⟩ :: c.2)) body.scoping).run
          (fun s => holds s.1) serve') (body.run holds serve) :=
      fun w => ihbody { w with client := (w.client.1, ⟨t, x⟩ :: w.client.2) }
    exact (Run.Forgets.outcome (t.collect_forgets x hbody)).bind
      (fun result w' => ih result { w' with client := (w'.client.1, w.client.2) }) w

end Program

namespace Client

/-- The client that lists the open scopes. -/
def scoping (c : Client κ σ) : Client κ (σ × List Scope) where
  respond cue := (c.respond cue).scoping
  holds s := c.holds s.1

theorem scoping_answer_forgets (c : Client κ σ) (depth : Nat) (cue : Cue κ) :
    (c.scoping.answer depth cue).Forgets (c.answer depth cue) := by
  induction depth generalizing cue with
  | zero => exact .exhausted
  | succ depth ih => exact Program.scoping_forgets ih (c.respond cue)

/-- **Listing the open scopes** changes neither whether a run of a program comes to an end, nor its
    outcome, nor the page and the state of the client that it leaves behind. -/
theorem scoping_run (c : Client κ σ) (depth : Nat) (p : Program κ σ)
    (w : World κ (σ × List Scope)) :
    c.run depth p w.forget =
      (c.scoping.run depth p.scoping w).map fun r => (r.1, r.2.forget) :=
  Program.scoping_forgets (c.scoping_answer_forgets depth) p w

-- A run that comes to an end does so with the list.
theorem isSome_scoping_run {c : Client κ σ} {depth : Nat} {p : Program κ σ} {start : Page κ} {s : σ}
    (h : (c.run depth p ⟨start, s, []⟩).isSome) :
    (c.scoping.run depth p.scoping ⟨start, (s, []), []⟩).isSome := by
  have hforget : c.run depth p ⟨start, s, []⟩ =
      (c.scoping.run depth p.scoping ⟨start, (s, []), []⟩).map fun r => (r.1, r.2.forget) :=
    c.scoping_run depth p ⟨start, (s, []), []⟩
  rwa [hforget, Option.isSome_map] at h

end Client

/-! ## 2. Runs and collecting watchers -/

theorem Operation.active_effect (op : Operation κ) (p : Page κ) (t : TreeId) :
    (op.effect p).store.active t = p.store.active t :=
  op.effect_keeps p (fun s => s.active t = p.store.active t)
    (fun o key v hs => (Store.active_write _ o key v t).trans hs)
    (fun hn hs => (Store.Change.active hn _ t).trans hs) rfl

theorem Operation.grows_effect (op : Operation κ) (p : Page κ) :
    p.store.Grows (op.effect p).store :=
  op.effect_keeps p p.store.Grows (fun o key v hs => hs.trans (Store.grows_write _ o key v))
    (fun _ hs => hs.trans (Store.Change.sameData _ _).toGrows) (.refl _)

theorem Page.active_compile (p : Page κ) (c : CompilerId) (t : TreeId) :
    (p.compile c).2.store.active t = p.store.active t :=
  (Operation.compile c).active_effect p t

/-- In each tree the watcher collects that `a` tells. -/
def World.Collecting (a : TreeId → Option WatcherId) (w : World κ σ) : Prop :=
  ∀ t, w.page.store.active t = a t

section Runs

variable {holds : σ → List Node} {serve : Cue κ → Run κ σ Unit}

theorem Operation.run_collecting {a : TreeId → Option WatcherId}
    (hserve : ∀ cue, (serve cue).Keeps (World.Collecting a)) (op : Operation κ) :
    (op.run holds serve).Keeps (World.Collecting a) := by
  intro w hw
  have hup : KeptByUpdates holds (World.Collecting (κ := κ) (σ := σ) a) :=
    ⟨.of_ignored fun _ _ hw => hw,
      fun {w} o key hw t => (Store.active_get w.page.store o key t).trans (hw t),
      fun {w x y c} hw _ _ _ t => (w.page.active_compile c t).trans (hw t)⟩
  exact Operation.run_ensures hup hserve op w fun t => (op.active_effect w.page t).trans (hw t)

/-- **A program leaves every tree as it found it**: whoever was collecting when it began is
    collecting when it ends, and nobody else is. -/
theorem Program.run_collecting (hserve : ∀ a cue, (serve cue).Keeps (World.Collecting a))
    (p : Program κ σ) (a : TreeId → Option WatcherId) :
    (p.run holds serve).Keeps (World.Collecting a) := by
  induction p generalizing a with
  | done => exact .pure ()
  | fail error => exact .fail error
  | consult next ih => exact fun w hw r w' h => ih w.client a w hw r w' h
  | remember change next ih =>
    exact fun w hw r w' h => ih a { w with client := change w.client } hw r w' h
  | look next ih => exact fun w hw r w' h => ih w.page a w hw r w' h
  | perform op next ih =>
    intro w hw r w' h
    obtain ⟨result, w₁, h₁, h₂⟩ := Run.outcome_bind_eq_some h
    exact ih result a w₁ (op.run_collecting (hserve a) w hw _ _ h₁) r w' h₂
  | collect t x body next ihbody ih =>
    intro w hw r w' h
    obtain ⟨result, w₁, h₁, h₂⟩ := Run.outcome_bind_eq_some h
    refine ih result a w₁ ?_ r w' h₂
    rcases TreeId.collect_eq_some h₁ with ⟨error, -, rfl⟩ | ⟨store, w₂, hbegin, hbody, rfl⟩
    · exact hw
    · -- the body changes nothing, and nobody was collecting in the tree that is left
      obtain ⟨hfree, rfl⟩ := Store.begin_eq_ok hbegin
      have hkept := ihbody _ _ (fun _ => rfl) _ _ hbody
      intro u
      by_cases htu : t = u
      · rw [Store.active_vacate, if_pos htu, ← hw u, ← htu, hfree]
      · have hsame : (w.page.store.occupy t x).active u = w.page.store.active u :=
          Store.active_occupy_of_ne _ htu x
        rw [Store.active_vacate, if_neg htu, hkept u, hsame, hw u]

theorem Client.answer_collecting (c : Client κ σ) (depth : Nat) (a : TreeId → Option WatcherId)
    (cue : Cue κ) : (c.answer depth cue).Keeps (World.Collecting a) := by
  induction depth generalizing a cue with
  | zero =>
    intro w _ r w' h
    cases h
  | succ depth ih => exact Program.run_collecting ih (c.respond cue) a

theorem Client.run_collecting (c : Client κ σ) (depth : Nat) (p : Program κ σ)
    (a : TreeId → Option WatcherId) : (c.run depth p).Keeps (World.Collecting a) :=
  Program.run_collecting (c.answer_collecting depth) p a

end Runs

/-! ## 3. Stores and open scopes -/

namespace Store

variable {ρ : Type} {s s' : Store ρ} {scopes : List Scope}

/-- In a tree somebody collects just if a scope is open on it, and that is the watcher of the
    scope. -/
structure Bracketed (s : Store ρ) (scopes : List Scope) : Prop where
  active : ∀ {t w}, s.active t = some w ↔ ⟨t, w⟩ ∈ scopes
  single : (scopes.map Scope.tree).Nodup
  watcher : ∀ {x}, x ∈ scopes → (s.watcher? x.watcher).isSome

theorem Bracketed.empty : ({} : Store ρ).Bracketed [] := by
  refine ⟨fun {t w} => ?_, .nil, fun hx => nomatch hx⟩
  constructor
  · intro h
    cases h
  · intro h
    cases h

theorem Bracketed.of_active (h : s.Bracketed scopes) (ha : ∀ t, s'.active t = s.active t)
    (hg : s.Grows s') : s'.Bracketed scopes := by
  refine ⟨fun {t w} => ?_, h.single, fun hx => ?_⟩
  · rw [ha]
    exact h.active
  · obtain ⟨y, hy⟩ := Option.isSome_iff_exists.1 (h.watcher hx)
    exact Option.isSome_of_eq_some (hg.watcher hy)

-- A tree in which nobody collects has no open scope.
theorem Bracketed.not_mem (h : s.Bracketed scopes) {t : TreeId} (hfree : s.active t = none) :
    t ∉ scopes.map Scope.tree := by
  intro hmem
  obtain ⟨⟨u, w⟩, hx, rfl⟩ := List.mem_map.1 hmem
  rw [h.active.2 hx] at hfree
  cases hfree

theorem Bracketed.enter (h : s.Bracketed scopes) {t : TreeId} {w : WatcherId} (ht : s.HasTree t)
    (hw : (s.watcher? w).isSome) (hfree : s.active t = none) :
    (s.occupy t w).Bracketed (⟨t, w⟩ :: scopes) := by
  have hnew := h.not_mem hfree
  refine ⟨fun {u v} => ?_, List.nodup_cons.2 ⟨hnew, h.single⟩, fun {x} hx => ?_⟩
  · rw [active_occupy ht, List.mem_cons, Scope.mk.injEq, ← h.active]
    by_cases htu : t = u
    · subst htu
      rw [if_pos rfl, hfree]
      simp [eq_comm]
    · rw [if_neg htu]
      simp [Ne.symm htu]
  · rw [watcher?_occupy]
    rcases List.mem_cons.1 hx with rfl | hx
    · exact hw
    · exact h.watcher hx

theorem Bracketed.leave {t : TreeId} {w : WatcherId} (h : s.Bracketed (⟨t, w⟩ :: scopes)) :
    (s.vacate t).Bracketed scopes := by
  obtain ⟨hnew, hsingle⟩ := List.nodup_cons.1 h.single
  refine ⟨fun {u v} => ?_, hsingle, fun {x} hx => ?_⟩
  · rw [active_vacate]
    by_cases htu : t = u
    · subst htu
      rw [if_pos rfl]
      refine ⟨(fun he => nomatch he), fun hmem => (hnew ?_).elim⟩
      exact List.mem_map.2 ⟨_, hmem, rfl⟩
    · rw [if_neg htu, h.active, List.mem_cons, Scope.mk.injEq]
      simp [Ne.symm htu]
  · rw [watcher?_vacate]
    exact h.watcher (List.mem_cons_of_mem _ hx)

end Store

/-! ## 4. Every moment -/

/-- The scope that the request is to open. -/
def Request.scope? : Request κ → Option Scope
  | .collect t w => some ⟨t, w⟩
  | _ => none

/-- A collection is begun in a tree that is there, for a watcher that is there. -/
def Moment.Placed (m : Moment κ σ) : Prop :=
  ∀ x ∈ m.request.scope?, (m.page.store.trees.get? x.tree.index).isSome = true ∧
    (m.page.store.watcher? x.watcher).isSome = true

/-- The open scopes are these, and they were listed rightly at every moment. -/
structure World.Holding (scopes : List Scope)
    (w : World κ ((σ × List Scope) × History κ (σ × List Scope))) : Prop where
  listed : w.client.1.2 = scopes
  now : (∀ m ∈ w.client.2, m.Placed) → w.page.store.Bracketed scopes
  past : ∀ {g m}, g ++ [m] <+: w.client.2 → (∀ m' ∈ g, m'.Placed) →
    m.page.store.Bracketed m.client.2

section Moments

variable {scopes : List Scope} {w : World κ ((σ × List Scope) × History κ (σ × List Scope))}

theorem World.Holding.noting (hw : w.Holding scopes) (request : Request κ) :
    (w.noting request).Holding scopes := by
  refine ⟨hw.listed, fun hp => hw.now fun m hm => hp m (List.mem_append_left _ hm),
    fun hpre hp => ?_⟩
  rcases World.noting_cases hpre with ⟨rfl, rfl⟩ | hpre
  · have hnow := hw.now hp
    rw [← hw.listed] at hnow
    exact hnow
  · exact hw.past hpre hp

theorem World.Holding.turn (hw : w.Holding scopes) {p : Page κ}
    (ha : ∀ t, p.store.active t = w.page.store.active t) (hg : w.page.store.Grows p.store) :
    World.Holding scopes { w with page := p } :=
  ⟨hw.listed, fun hp => (hw.now hp).of_active ha hg, hw.past⟩

theorem World.Holding.enter (hw : w.Holding scopes) {t : TreeId} {x : WatcherId}
    (hfree : w.page.store.active t = none) :
    World.Holding (⟨t, x⟩ :: scopes)
      { w.noting (.collect t x) with
        page := { w.page with store := w.page.store.occupy t x }
        client := ((w.client.1.1, ⟨t, x⟩ :: w.client.1.2), (w.noting (.collect t x)).client.2) } := by
  have hnoted := hw.noting (.collect t x)
  refine ⟨congrArg (⟨t, x⟩ :: ·) hw.listed, fun hp => ?_, hnoted.past⟩
  obtain ⟨ht, hx⟩ := hp _ (List.mem_append_right _ (List.mem_singleton.2 rfl)) _ rfl
  exact (hnoted.now hp).enter ht hx hfree

theorem World.Holding.leave {t : TreeId} {x : WatcherId} (hw : w.Holding (⟨t, x⟩ :: scopes)) :
    World.Holding scopes
      { w with
        page := { w.page with store := w.page.store.vacate t }
        client := ((w.client.1.1, scopes), w.client.2) } :=
  ⟨rfl, fun hp => (hw.now hp).leave, hw.past⟩

section Rule

variable {holds : (σ × List Scope) × History κ (σ × List Scope) → List Node}
  {serve : Cue κ → Run κ ((σ × List Scope) × History κ (σ × List Scope)) Unit}

theorem Operation.run_holding (hserve : ∀ cue, (serve cue).Keeps (World.Holding scopes))
    (op : Operation κ) : (op.run holds serve).Keeps (World.Holding scopes) := by
  intro w hw
  have hup : KeptByUpdates holds (World.Holding (κ := κ) (σ := σ) scopes) :=
    ⟨.of_ignored fun _ _ hw => ⟨hw.listed, hw.now, hw.past⟩,
      fun {w} o key hw => hw.turn (Store.active_get w.page.store o key)
        (Store.sameData_get w.page.store o key).toGrows,
      fun {w x y c} hw _ _ _ => hw.turn (w.page.active_compile c)
        ((Operation.compile c).grows_effect w.page)⟩
  exact Operation.run_ensures hup hserve op w
    (hw.turn (op.active_effect w.page) (op.grows_effect w.page))

theorem Program.scoping_holding (hserve : ∀ scopes cue, (serve cue).Keeps (World.Holding scopes))
    (p : Program κ σ) (scopes : List Scope) :
    (p.scoping.recording.run holds serve).Keeps (World.Holding scopes) := by
  induction p generalizing scopes with
  | done =>
    intro w hw r w' h
    cases h
    exact hw.noting .finish
  | fail error =>
    intro w hw r w' h
    cases h
    exact hw.noting .finish
  | consult next ih => exact fun w hw r w' h => ih w.client.1.1 scopes w hw r w' h
  | remember change next ih =>
    exact fun w hw r w' h =>
      ih scopes { w with client := ((change w.client.1.1, w.client.1.2), w.client.2) }
        ⟨hw.listed, hw.now, hw.past⟩ r w' h
  | look next ih => exact fun w hw r w' h => ih w.page scopes w hw r w' h
  | perform op next ih =>
    intro w hw r w' h
    change ((op.run holds serve).outcome >>= fun result =>
      (next result).scoping.recording.run holds serve) (w.noting (.perform op)) = some (r, w') at h
    obtain ⟨result, w₁, h₁, h₂⟩ := Run.outcome_bind_eq_some h
    exact ih result scopes w₁ (op.run_holding (hserve scopes) _ (hw.noting _) _ _ h₁) r w' h₂
  | collect t x body next ihbody ih =>
    intro w hw r w' h
    change ((t.collect x fun v => body.scoping.recording.run holds serve
        { v with client := ((v.client.1.1, ⟨t, x⟩ :: v.client.1.2), v.client.2) }).outcome >>=
      fun result v => (next result).scoping.recording.run holds serve
        { v with client := ((v.client.1.1, w.client.1.2), v.client.2) })
      (w.noting (.collect t x)) = some (r, w') at h
    obtain ⟨result, w₁, h₁, h₂⟩ := Run.outcome_bind_eq_some h
    refine ih result scopes _ ?_ r w' h₂
    rw [hw.listed]
    rcases TreeId.collect_eq_some h₁ with ⟨error, -, rfl⟩ | ⟨store, w₂, hbegin, hbody, rfl⟩
    · have hnoted := hw.noting (.collect t x)
      exact ⟨rfl, hnoted.now, hnoted.past⟩
    · obtain ⟨hfree, rfl⟩ := Store.begin_eq_ok hbegin
      exact (ihbody _ _ (hw.enter hfree) _ _ hbody).leave

end Rule

theorem Client.scoping_answer_holding (c : Client κ σ) (depth : Nat) (scopes : List Scope)
    (cue : Cue κ) : (c.scoping.recording.answer depth cue).Keeps (World.Holding scopes) := by
  induction depth generalizing scopes cue with
  | zero =>
    intro w _ r w' h
    cases h
  | succ depth ih => exact Program.scoping_holding ih (c.respond cue) scopes

/-- **The list of open scopes is right** at every moment of every history. -/
theorem Client.Lives.bracketed {c : Client κ σ} {p : Program κ σ} {start : Page κ} {s : σ}
    {g : History κ (σ × List Scope)} {m : Moment κ (σ × List Scope)}
    (hl : c.scoping.Lives start (s, []) p.scoping (g ++ [m])) (hstart : start.store.Bracketed [])
    (hg : ∀ m' ∈ g, m'.Placed) : m.page.store.Bracketed m.client.2 := by
  obtain ⟨depth, result, w, hrun, hpre⟩ := hl
  have hbegin : World.Holding (σ := σ) [] ⟨start, ((s, []), []), []⟩ :=
    ⟨rfl, fun _ => hstart, fun hpre => by simp at hpre⟩
  have hend := Program.scoping_holding (c.scoping_answer_holding depth) p [] _ hbegin _ _ hrun
  exact hend.past hpre hg

end Moments

end ReactiveView
