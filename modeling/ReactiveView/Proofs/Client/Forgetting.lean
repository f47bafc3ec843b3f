import ReactiveView.Proofs.Client.History

/-!
# Forgetting

A client that remembers more than another one, and never acts on it, runs like the other one.  The
client that notes down its requests is of this kind: up to its history, each of its runs is the run
of the original client, with the same outcome on the same page.
-/

namespace ReactiveView

variable {κ σ η α β : Type}

/-- The world without what the client remembers in addition. -/
def World.forget (w : World κ (σ × η)) : World κ σ := ⟨w.page, w.client.1, w.pins⟩

namespace Run

/-- The computation `y` is `x` without what the client of `x` remembers in addition. -/
def Forgets (x : Run κ (σ × η) α) (y : Run κ σ α) : Prop :=
  ∀ w, y w.forget = (x w).map fun r => (r.1, r.2.forget)

/-! ## 1. Rules -/

theorem Forgets.pure (a : α) : Forgets (pure a : Run κ (σ × η) α) (pure a) := fun _ => rfl

theorem Forgets.exhausted : Forgets (exhausted : Run κ (σ × η) α) exhausted := fun _ => rfl

theorem Forgets.fail (e : Failure) : Forgets (fail e : Run κ (σ × η) α) (fail e) := fun _ => rfl

theorem Forgets.look (f : Page κ → α) : Forgets (look f : Run κ (σ × η) α) (look f) := fun _ => rfl

theorem Forgets.page (f : Page κ → α × Page κ) :
    Forgets (page f : Run κ (σ × η) α) (page f) := fun _ => rfl

theorem Forgets.attempt {ε : Type} (failure : ε → Failure)
    (f : Page κ → Except ε α × Page κ) :
    Forgets (attempt failure f : Run κ (σ × η) α) (attempt failure f) := fun _ => rfl

theorem Forgets.isAlive (holds : σ → List Node) (n : Node) :
    Forgets (isAlive (fun s : σ × η => holds s.1) n : Run κ (σ × η) Bool) (isAlive holds n) :=
  fun _ => rfl

variable {x : Run κ (σ × η) α} {y : Run κ σ α}

theorem Forgets.bind (h : Forgets x y) {f : α → Run κ (σ × η) β} {g : α → Run κ σ β}
    (hf : ∀ a, Forgets (f a) (g a)) : Forgets (x >>= f) (y >>= g) := by
  intro w
  show Run.bind y g w.forget = (Run.bind x f w).map _
  have hw := h w
  cases hx : x w with
  | none =>
    rw [hx] at hw
    simp only [Run.bind, hx, hw, Option.map_none]
  | some r =>
    obtain ⟨result, w'⟩ := r
    rw [hx] at hw
    cases result with
    | error e => simp only [Run.bind, hx, hw, Option.map_some]
    | ok a =>
      simp only [Run.bind, hx, hw, Option.map_some]
      exact hf a w'

theorem Forgets.mapFailure (f : Failure → Failure) (h : Forgets x y) :
    Forgets (mapFailure f x) (mapFailure f y) := by
  intro w
  show (y w.forget).map _ = ((x w).map _).map _
  rw [h w, Option.map_map, Option.map_map]
  rfl

theorem Forgets.outcome (h : Forgets x y) : Forgets (outcome x) (outcome y) := by
  intro w
  show (y w.forget).map _ = ((x w).map _).map _
  rw [h w, Option.map_map, Option.map_map]
  rfl

theorem Forgets.pinning (ns : List Node) (h : Forgets x y) :
    Forgets (pinning ns x) (pinning ns y) := by
  intro w
  have hw : y { w.forget with pins := ns ++ w.pins } =
      (x { w with pins := ns ++ w.pins }).map fun r => (r.1, r.2.forget) :=
    h { w with pins := ns ++ w.pins }
  show (y { w.forget with pins := ns ++ w.pins }).map _ = ((x _).map _).map _
  rw [hw, Option.map_map, Option.map_map]
  rfl

end Run

/-! ## 2. Operations -/

section Calls

variable {holds : σ → List Node} {serve' : Cue κ → Run κ (σ × η) Unit}
  {serve : Cue κ → Run κ σ Unit}

theorem Reaction.run_forgets (h : ∀ cue, (serve' cue).Forgets (serve cue)) (r : Reaction κ)
    (field : Field) :
    (r.run (fun s => holds s.1) serve' field).Forgets (r.run holds serve field) := by
  cases r with
  | client code => exact h _
  | render c =>
    refine (Run.Forgets.isAlive holds _).bind fun alive => ?_
    cases alive with
    | true =>
      rw [if_pos rfl, if_pos rfl]
      exact .attempt _ _
    | false => exact .pure _

theorem WatcherId.update_forgets (h : ∀ cue, (serve' cue).Forgets (serve cue)) (x : WatcherId) :
    (x.update (fun s => holds s.1) serve').Forgets (x.update holds serve) := by
  refine (Run.Forgets.look _).bind fun watcher? => ?_
  cases watcher? with
  | none => exact .pure _
  | some watcher =>
    refine (Run.Forgets.isAlive holds _).bind fun alive => ?_
    cases alive with
    | false => exact .pure _
    | true =>
      refine (Run.Forgets.page _).bind fun field => ?_
      by_cases he : field.strictEqual watcher.baseline = true
      · rw [if_pos he, if_pos he]
        exact .pure _
      · rw [if_neg he, if_neg he]
        exact .pinning _ (.mapFailure _ (Reaction.run_forgets h watcher.reaction field))

theorem updateAll_forgets (h : ∀ cue, (serve' cue).Forgets (serve cue)) (xs : List WatcherId) :
    (updateAll (fun s => holds s.1) serve' xs).Forgets (updateAll holds serve xs) := by
  induction xs with
  | nil => exact .pure _
  | cons x xs ih => exact (x.update_forgets h).bind fun _ => ih

theorem RegistryId.notify_forgets (h : ∀ cue, (serve' cue).Forgets (serve cue)) (r : RegistryId) :
    (r.notify (fun s => holds s.1) serve').Forgets (r.notify holds serve) :=
  (Run.Forgets.look _).bind fun ws => .pinning _ (updateAll_forgets h ws)

theorem ObjectId.set_forgets (h : ∀ cue, (serve' cue).Forgets (serve cue)) (o : ObjectId)
    (key : String) (v : Value) :
    (o.set (fun s => holds s.1) serve' key v).Forgets (o.set holds serve key v) :=
  .pinning _ ((Run.Forgets.page _).bind fun _ => RegistryId.notify_forgets h _)

theorem Receiver.run_forgets (h : ∀ cue, (serve' cue).Forgets (serve cue)) (receiver : Receiver κ)
    (name : String) (code : κ) :
    (receiver.run serve' name code).Forgets (receiver.run serve name code) :=
  .pinning _ (.mapFailure _ (h _))

theorem Receiver.call_forgets (h : ∀ cue, (serve' cue).Forgets (serve cue)) (receiver : Receiver κ)
    (name : String) : (receiver.call serve' name).Forgets (receiver.call serve name) := by
  unfold Receiver.call
  cases Fields.get? receiver.methods name with
  | none => exact .fail _
  | some code => exact receiver.run_forgets h name code

theorem Listener.run_forgets (h : ∀ cue, (serve' cue).Forgets (serve cue)) (l : Listener κ)
    (event : Event) : (l.run serve' event).Forgets (l.run serve event) := by
  cases l with
  | client code => exact h _
  | delegate t methods receiver =>
    refine (Run.Forgets.look _).bind fun table => ?_
    cases event.target.bind fun id => table.find? id event.type with
    | none => exact .pure _
    | some binding =>
      dsimp only
      cases Fields.get? methods binding.method with
      | none => exact .pure _
      | some code => exact receiver.run_forgets h _ code

theorem runListeners_forgets (h : ∀ cue, (serve' cue).Forgets (serve cue)) (event : Event)
    (ls : List (Listener κ)) :
    (runListeners serve' event ls).Forgets (runListeners serve event ls) := by
  induction ls with
  | nil => exact .pure _
  | cons l ls ih => exact (l.run_forgets h event).bind fun _ => ih

theorem ElementId.deliver_forgets (h : ∀ cue, (serve' cue).Forgets (serve cue)) (root : ElementId)
    (type : String) (event : Event) :
    (root.deliver serve' type event).Forgets (root.deliver serve type event) :=
  (Run.Forgets.look _).bind fun ls => (runListeners_forgets h event ls).bind fun _ => .pure _

theorem ElementId.dispatch_forgets (h : ∀ cue, (serve' cue).Forgets (serve cue)) (root : ElementId)
    (type target : String) :
    (root.dispatch serve' type target).Forgets (root.dispatch serve type target) :=
  (Run.Forgets.attempt _ _).bind fun ls =>
    (Run.Forgets.mapFailure _ (runListeners_forgets h _ ls)).bind fun _ => .pure _

theorem Value.observe_forgets (v : Value) (tree : Option TreeId) :
    (v.observe tree : Run κ (σ × η) ObjectId).Forgets (v.observe tree) := by
  intro w
  cases v with
  | object fields => cases tree <;> rfl
  | _ => rfl

theorem Operation.run_forgets (h : ∀ cue, (serve' cue).Forgets (serve cue)) (op : Operation κ) :
    (op.run (fun s => holds s.1) serve').Forgets (op.run holds serve) := by
  cases op <;> unfold Operation.run
  case observe v tree => exact v.observe_forgets tree
  case set o key v => exact o.set_forgets h key v
  case update x => exact x.update_forgets h
  case notify r => exact r.notify_forgets h
  case dispatch root type target => exact root.dispatch_forgets h type target
  case deliver root type event => exact root.deliver_forgets h type event
  case call receiver name => exact receiver.call_forgets h name
  case isAlive n => exact .isAlive holds n
  case watch o key code => exact .attempt _ _
  case compile c => exact .attempt _ _
  case bind root t methods receiver => exact .attempt _ _
  case mount vm config => exact .attempt _ _
  case setMarkup e markup => exact .attempt _ _
  case listen e type code => exact .attempt _ _
  all_goals exact .page _

theorem TreeId.collect_forgets (t : TreeId) (x : WatcherId) {body' : Run κ (σ × η) Unit}
    {body : Run κ σ Unit} (h : body'.Forgets body) :
    (t.collect x body').Forgets (t.collect x body) := by
  intro w
  have hpage : w.forget.page = w.page := rfl
  unfold TreeId.collect
  rw [hpage]
  cases w.page.store.begin t x with
  | error e => rfl
  | ok store =>
    have hw : body { w.forget with page := { w.page with store } } =
        (body' { w with page := { w.page with store } }).map fun r => (r.1, r.2.forget) :=
      h { w with page := { w.page with store } }
    show (body { w.forget with page := { w.page with store } }).map _ = ((body' _).map _).map _
    rw [hw, Option.map_map, Option.map_map]
    rfl

/-! ## 3. Runs -/

theorem Program.recording_forgets {serve' : Cue κ → Run κ (σ × History κ σ) Unit}
    (h : ∀ cue, (serve' cue).Forgets (serve cue)) (p : Program κ σ) :
    (p.recording.run (fun s => holds s.1) serve').Forgets (p.run holds serve) := by
  induction p with
  | done => exact fun _ => rfl
  | fail error => exact fun _ => rfl
  | consult next ih => exact fun w => ih w.client.1 w
  | remember change next ih =>
    exact fun w => ih { w with client := (change w.client.1, w.client.2) }
  | look next ih => exact fun w => ih w.page w
  | perform op next ih =>
    -- noting the request down changes nothing but the history
    exact fun w => (Run.Forgets.outcome (op.run_forgets h)).bind ih (w.noting (.perform op))
  | collect t x body next ihbody ih =>
    exact fun w =>
      (Run.Forgets.outcome (t.collect_forgets x ihbody)).bind ih (w.noting (.collect t x))

end Calls

namespace Client

theorem recording_answer_forgets (c : Client κ σ) (depth : Nat) (cue : Cue κ) :
    (c.recording.answer depth cue).Forgets (c.answer depth cue) := by
  induction depth generalizing cue with
  | zero => exact .exhausted
  | succ depth ih => exact Program.recording_forgets ih (c.respond cue)

/-- **Noting down requests** changes neither whether a run of a program comes to an end, nor its
    outcome, nor the page and the state of the client that it leaves behind. -/
theorem recording_run (c : Client κ σ) (depth : Nat) (p : Program κ σ)
    (w : World κ (σ × History κ σ)) :
    c.run depth p w.forget =
      (c.recording.run depth p.recording w).map fun r => (r.1, r.2.forget) :=
  Program.recording_forgets (c.recording_answer_forgets depth) p w

/-- **Every run that comes to an end has its history** among those that the client lives. -/
theorem lives_history {c : Client κ σ} {depth : Nat} {start : Page κ} {s : σ} {p : Program κ σ}
    (h : (c.run depth p ⟨start, s, []⟩).isSome) :
    c.Lives start s p (c.history depth start s p) := by
  have hforget : c.run depth p ⟨start, s, []⟩ =
      (c.recording.run depth p.recording ⟨start, (s, []), []⟩).map fun r => (r.1, r.2.forget) :=
    c.recording_run depth p ⟨start, (s, []), []⟩
  rw [hforget, Option.isSome_map] at h
  obtain ⟨⟨result, w⟩, hrun⟩ := Option.isSome_iff_exists.1 h
  have hhistory : c.history depth start s p = w.client.2 := by rw [history, hrun]
  exact ⟨depth, result, w, hrun, hhistory ▸ List.prefix_rfl⟩

-- The history up to one of its moments.
theorem lives_take {c : Client κ σ} {depth : Nat} {p : Program κ σ} {start : Page κ} {s : σ}
    (h : (c.run depth p ⟨start, s, []⟩).isSome) {i : Nat} {m : Moment κ σ}
    (hm : (c.history depth start s p)[i]? = some m) :
    c.Lives start s p ((c.history depth start s p).take i ++ [m]) := by
  refine (lives_history h).mono ?_
  have htake := @List.take_add_one _ (c.history depth start s p) i
  rw [hm, Option.toList_some] at htake
  rw [← htake]
  exact List.take_prefix _ _

end Client

end ReactiveView
