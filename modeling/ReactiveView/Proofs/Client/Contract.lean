import ReactiveView.Client.Run
import ReactiveView.Proofs.Store.Watching

/-!
# Contracts of runs

What holds after a computation whenever something held before it, for the computations that client
code and operations are composed of.  A computation that nests too deeply has no outcome, and a
contract says nothing of it.
-/

namespace ReactiveView

/-- Operations keep such nodes alive while they are under way. -/
def Node.Pinned : Node → Prop
  | object _ | watcher _ => True
  | _ => False

namespace Run

variable {κ σ α β : Type}

/-- From a world with `pre` the computation comes, if anywhere, to an outcome with `post`. -/
def Ensures (pre : World κ σ → Prop) (x : Run κ σ α)
    (post : Except Failure α → World κ σ → Prop) : Prop :=
  ∀ w, pre w → ∀ r w', x w = some (r, w') → post r w'

/-- The computation keeps an invariant, whether it succeeds or fails. -/
def Keeps (inv : World κ σ → Prop) (x : Run κ σ α) : Prop := x.Ensures inv fun _ => inv

/-- An invariant that stands while operations keep observables and watchers alive. -/
structure BearsPins (inv : World κ σ → Prop) : Prop where
  enter : ∀ {w} (ns : List Node), (∀ n ∈ ns, n.Pinned) → inv w →
    inv { w with pins := ns ++ w.pins }
  -- Whoever began an operation gets back what was kept alive before.
  leave : ∀ {w w'}, inv w → inv w' → inv { w' with pins := w.pins }

variable {inv : World κ σ → Prop}

-- An invariant that does not depend on what the operations under way keep alive.
theorem BearsPins.of_ignored (h : ∀ w ns, inv w → inv { w with pins := ns }) : BearsPins inv :=
  ⟨fun _ _ hw => h _ _ hw, fun _ hw' => h _ _ hw'⟩

/-! ## 1. Equations -/

theorem bind_eq_some {x : Run κ σ α} {f : α → Run κ σ β} {w w' : World κ σ}
    {r : Except Failure β} (h : (x >>= f) w = some (r, w')) :
    (∃ e, x w = some (.error e, w') ∧ r = .error e) ∨
      ∃ a w₁, x w = some (.ok a, w₁) ∧ f a w₁ = some (r, w') := by
  change Run.bind x f w = some (r, w') at h
  unfold Run.bind at h
  split at h
  · cases h
  · rename_i e w₁ hx
    cases h
    exact .inl ⟨e, hx, rfl⟩
  · rename_i a w₁ hx
    exact .inr ⟨a, w₁, hx, h⟩

theorem bind_of_ok {x : Run κ σ α} {f : α → Run κ σ β} {w w' : World κ σ} {a : α}
    (h : x w = some (.ok a, w')) : (x >>= f) w = f a w' := by
  show Run.bind x f w = f a w'
  simp only [Run.bind, h]

theorem bind_of_error {x : Run κ σ α} {f : α → Run κ σ β} {w w' : World κ σ} {e : Failure}
    (h : x w = some (.error e, w')) : (x >>= f) w = some (.error e, w') := by
  show Run.bind x f w = _
  simp only [Run.bind, h]

theorem mapFailure_eq_some {f : Failure → Failure} {x : Run κ σ α} {w w' : World κ σ}
    {r : Except Failure α} (h : mapFailure f x w = some (r, w')) :
    ∃ r', x w = some (r', w') ∧ r = r'.mapError f := by
  obtain ⟨⟨r', w₁⟩, hx, hr⟩ := Option.map_eq_some_iff.1 h
  cases hr
  exact ⟨r', hx, rfl⟩

theorem outcome_eq_some {x : Run κ σ α} {w w' : World κ σ} {r : Except Failure (Except Failure α)}
    (h : outcome x w = some (r, w')) : ∃ r', x w = some (r', w') ∧ r = .ok r' := by
  obtain ⟨⟨r', w₁⟩, hx, hr⟩ := Option.map_eq_some_iff.1 h
  cases hr
  exact ⟨r', hx, rfl⟩

-- Whatever the outcome of a computation, it goes on.
theorem outcome_bind_eq_some {x : Run κ σ α} {f : Except Failure α → Run κ σ β}
    {w w' : World κ σ} {r : Except Failure β} (h : (x.outcome >>= f) w = some (r, w')) :
    ∃ result w₁, x w = some (result, w₁) ∧ f result w₁ = some (r, w') := by
  rcases bind_eq_some h with ⟨e, h₁, -⟩ | ⟨result, w₁, h₁, h₂⟩
  · obtain ⟨r', -, hr'⟩ := outcome_eq_some h₁
    cases hr'
  · obtain ⟨r', h₁', hr'⟩ := outcome_eq_some h₁
    cases hr'
    exact ⟨result, w₁, h₁', h₂⟩

theorem pinning_eq_some {ns : List Node} {x : Run κ σ α} {w w' : World κ σ}
    {r : Except Failure α} (h : pinning ns x w = some (r, w')) :
    ∃ w₁, x { w with pins := ns ++ w.pins } = some (r, w₁) ∧ w' = { w₁ with pins := w.pins } := by
  obtain ⟨⟨r', w₁⟩, hx, hr⟩ := Option.map_eq_some_iff.1 h
  cases hr
  exact ⟨w₁, hx, rfl⟩

theorem look_apply (f : Page κ → α) (w : World κ σ) : look f w = some (.ok (f w.page), w) := rfl

theorem page_apply (f : Page κ → α × Page κ) (w : World κ σ) :
    page f w = some (.ok (f w.page).1, { w with page := (f w.page).2 }) := rfl

theorem isAlive_apply (holds : σ → List Node) (n : Node) (w : World κ σ) :
    isAlive holds n w = some (.ok (w.page.alive (holds w.client ++ w.pins) n), w) := rfl

theorem outcome_of_some {x : Run κ σ α} {w w' : World κ σ} {r : Except Failure α}
    (h : x w = some (r, w')) : outcome x w = some (.ok r, w') := by
  rw [outcome, h]
  rfl

/-! ## 2. Rules -/

theorem Keeps.pure (a : α) : Keeps inv (pure a : Run κ σ α) := by
  intro w hw r w' h
  cases h
  exact hw

theorem Keeps.fail (e : Failure) : Keeps inv (fail e : Run κ σ α) := by
  intro w hw r w' h
  cases h
  exact hw

theorem Keeps.bind {x : Run κ σ α} {f : α → Run κ σ β} (hx : Keeps inv x)
    (hf : ∀ a, Keeps inv (f a)) : Keeps inv (x >>= f) := by
  intro w hw r w' h
  rcases bind_eq_some h with ⟨e, h₁, -⟩ | ⟨a, w₁, h₁, h₂⟩
  · exact hx w hw _ _ h₁
  · exact hf a w₁ (hx w hw _ _ h₁) _ _ h₂

theorem Keeps.look (f : Page κ → α) : Keeps inv (look f : Run κ σ α) := by
  intro w hw r w' h
  cases h
  exact hw

theorem Keeps.page {f : Page κ → α × Page κ}
    (hf : ∀ w, inv w → inv { w with page := (f w.page).2 }) :
    Keeps inv (page f : Run κ σ α) := by
  intro w hw r w' h
  cases h
  exact hf w hw

theorem Keeps.attempt {ε : Type} {failure : ε → Failure} {f : Page κ → Except ε α × Page κ}
    (hf : ∀ w, inv w → inv { w with page := (f w.page).2 }) :
    Keeps inv (attempt failure f : Run κ σ α) := by
  intro w hw r w' h
  cases h
  exact hf w hw

theorem Keeps.mapFailure {f : Failure → Failure} {x : Run κ σ α} (hx : Keeps inv x) :
    Keeps inv (mapFailure f x) := by
  intro w hw r w' h
  obtain ⟨r', h', -⟩ := mapFailure_eq_some h
  exact hx w hw r' w' h'

theorem Keeps.pinning (hp : BearsPins inv) {ns : List Node} (hns : ∀ n ∈ ns, n.Pinned)
    {x : Run κ σ α} (hx : Keeps inv x) : Keeps inv (pinning ns x) := by
  intro w hw r w' h
  obtain ⟨w₁, h', rfl⟩ := pinning_eq_some h
  exact hp.leave hw (hx _ (hp.enter ns hns hw) r w₁ h')

theorem Keeps.isAlive (holds : σ → List Node) (n : Node) : Keeps inv (isAlive holds n) := by
  intro w hw r w' h
  cases h
  exact hw

end Run

/-! ## 3. Collections -/

-- A collection is refused, or its body runs between its two ends.
theorem TreeId.collect_eq_some {κ σ : Type} {t : TreeId} {x : WatcherId} {body : Run κ σ Unit}
    {w w' : World κ σ} {r : Except Failure Unit} (h : t.collect x body w = some (r, w')) :
    (∃ error, w.page.store.begin t x = .error error ∧ w' = w) ∨
      ∃ store w₁, w.page.store.begin t x = .ok store ∧
        body { w with page := { w.page with store } } = some (r, w₁) ∧
        w' = { w₁ with page := { w₁.page with store := w₁.page.store.vacate t } } := by
  unfold TreeId.collect at h
  split at h
  · rename_i error hbegin
    cases h
    exact .inl ⟨error, hbegin, rfl⟩
  · rename_i store hbegin
    obtain ⟨⟨r₁, w₁⟩, hbody, hr₁⟩ := Option.map_eq_some_iff.1 h
    cases hr₁
    exact .inr ⟨store, w₁, hbegin, hbody, rfl⟩

-- A program goes on with the outcome of the operation that it asked for.
theorem Program.run_perform {κ σ : Type} {holds : σ → List Node} {serve : Cue κ → Run κ σ Unit}
    {op : Operation κ} {w w' : World κ σ} {r : Except Failure op.Reply}
    (h : op.run holds serve w = some (r, w')) (next : Except Failure op.Reply → Program κ σ) :
    (Program.perform op next).run holds serve w = (next r).run holds serve w' :=
  Run.bind_of_ok (Run.outcome_of_some h)

/-! ## 4. Updates, step by step -/

section Updates

variable {κ σ : Type} (holds : σ → List Node) (serve : Cue κ → Run κ σ Unit)

/-- The world behind the read that an update begins with. -/
def World.read (w : World κ σ) (o : ObjectId) (key : String) : World κ σ :=
  { w with page := { w.page with store := (w.page.store.get o key).2 } }

/-- What is alive while a world stands still. -/
def World.alive (w : World κ σ) (n : Node) : Bool :=
  w.page.alive (holds w.client ++ w.pins) n

/-- A reaction with everything around it: what it keeps alive, and how its failure is named. -/
def Watcher.react (x : Watcher (Reaction κ)) (field : Field) : Run κ σ Unit :=
  Run.pinning (.object x.source :: field.proxy?.toList.map .object) <|
    Run.mapFailure (fun cause => .reactive (.callback x.number x.property cause)) <|
      x.reaction.run holds serve field

theorem WatcherId.update_of_none {x : WatcherId} {w : World κ σ}
    (h : w.page.store.watcher? x = none) : x.update holds serve w = some (.ok (), w) := by
  rw [WatcherId.update, Run.bind_of_ok (Run.look_apply _ w), h]
  rfl

theorem WatcherId.update_of_some {x : WatcherId} {w : World κ σ} {watcher : Watcher (Reaction κ)}
    (h : w.page.store.watcher? x = some watcher) :
    x.update holds serve w =
      if w.alive holds (.object watcher.source) then
        if (w.page.store.field watcher.source watcher.property).strictEqual watcher.baseline then
          some (.ok (), w.read watcher.source watcher.property)
        else
          watcher.react holds serve (w.page.store.field watcher.source watcher.property)
            (w.read watcher.source watcher.property)
      else some (.ok (), w) := by
  rw [WatcherId.update, Run.bind_of_ok (Run.look_apply _ w), h]
  show (Run.isAlive holds (.object watcher.source) >>= _) w = _
  rw [Run.bind_of_ok (Run.isAlive_apply holds _ w)]
  by_cases ha : w.alive holds (.object watcher.source) = true
  · rw [if_pos ha]
    refine (congrFun (if_pos ha) w).trans ?_
    rw [Run.bind_of_ok (Run.page_apply _ w)]
    by_cases he : (w.page.store.field watcher.source watcher.property).strictEqual
        watcher.baseline = true
    · rw [if_pos he]
      exact congrFun (if_pos he) _
    · rw [if_neg he]
      exact congrFun (if_neg he) _
  · rw [if_neg ha]
    exact congrFun (if_neg ha) w

theorem Reaction.run_render {c : CompilerId} {w : World κ σ}
    (h : w.alive holds (.compiler c) = true) (field : Field) :
    (Reaction.render c).run holds serve field w =
      some ((w.page.compile c).1.mapError .engine, { w with page := (w.page.compile c).2 }) := by
  show (Run.isAlive holds (.compiler c) >>= _) w = _
  rw [Run.bind_of_ok (Run.isAlive_apply holds _ w)]
  exact congrFun (if_pos h) w

-- A watcher whose compiler is alive renders.
theorem Watcher.react_render {x : Watcher (Reaction κ)} {c : CompilerId} {w : World κ σ}
    (hx : x.reaction = .render c)
    (h : ∀ ns, World.alive holds { w with pins := ns ++ w.pins } (.compiler c) = true)
    (field : Field) :
    x.react holds serve field w =
      some (((w.page.compile c).1.mapError .engine).mapError fun cause =>
        .reactive (.callback x.number x.property cause),
        { w with page := (w.page.compile c).2 }) := by
  rw [Watcher.react, hx]
  simp only [Run.pinning, Run.mapFailure, Reaction.run_render holds serve (h _), Option.map_some]

variable {x : WatcherId} {number : Nat} {o : ObjectId} {key : String} {baseline : Field}
  {w : World κ σ}

-- An update of a watcher that is not due is a read.
theorem WatcherId.update_of_idle {reaction : Reaction κ}
    (hx : w.page.store.watcher? x = some ⟨number, o, key, reaction, baseline⟩)
    (ha : w.alive holds (.object o) = true)
    (he : (w.page.store.field o key).strictEqual baseline = true) :
    x.update holds serve w = some (.ok (), w.read o key) := by
  rw [WatcherId.update_of_some holds serve hx, if_pos ha, if_pos he]

-- An update of a watcher that is due calls its code.
theorem WatcherId.update_of_client {code : κ}
    (hx : w.page.store.watcher? x = some ⟨number, o, key, .client code, baseline⟩)
    (ha : w.alive holds (.object o) = true)
    (he : ¬ (w.page.store.field o key).strictEqual baseline = true)
    {result : Except Failure Unit} {w' : World κ σ}
    (hcall : serve (.reaction code (w.page.store.field o key))
      { w.read o key with
        pins := .object o :: (w.page.store.field o key).proxy?.toList.map .object ++ w.pins } =
          some (result, w')) :
    x.update holds serve w =
      some (result.mapError fun cause => .reactive (.callback number key cause),
        { w' with pins := w.pins }) := by
  rw [WatcherId.update_of_some holds serve hx, if_pos ha, if_neg he]
  show Option.map _ (Option.map _ (serve _ _)) = _
  exact congrArg (fun r => Option.map _ (Option.map _ r)) hcall

theorem updateAll_append (xs ys : List WatcherId) :
    updateAll holds serve (xs ++ ys) =
      (updateAll holds serve xs >>= fun _ => updateAll holds serve ys) := by
  induction xs with
  | nil => rfl
  | cons x xs ih =>
    funext w
    show Run.bind (x.update holds serve) (fun _ => updateAll holds serve (xs ++ ys)) w =
      Run.bind (Run.bind (x.update holds serve) fun _ => updateAll holds serve xs)
        (fun _ => updateAll holds serve ys) w
    rw [ih]
    cases h : x.update holds serve w with
    | none => simp only [Run.bind, h]
    | some y =>
      obtain ⟨r, w₁⟩ := y
      cases r with
      | error e => simp only [Run.bind, h]
      | ok a =>
        simp only [Run.bind, h]
        rfl

-- A write stores the value, and then updates the watchers that the object has by then.
theorem ObjectId.set_apply (o : ObjectId) (key : String) (v : Value) (w : World κ σ) :
    o.set holds serve key v w =
      (updateAll holds serve (w.page.store.registered (.ofObject o))
        { w with
          page := { w.page with store := w.page.store.write o key v }
          pins := (w.page.store.registered (.ofObject o)).map .watcher ++ .object o :: w.pins }).map
        fun r => (r.1, { r.2 with pins := w.pins }) := by
  have hws := Store.registered_write w.page.store o key v o
  rw [← hws]
  show ((_ : Option _).map _).map _ = _
  rw [Option.map_map]
  rfl

end Updates

end ReactiveView
