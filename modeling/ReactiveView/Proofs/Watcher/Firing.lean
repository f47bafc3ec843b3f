import ReactiveView.Proofs.Client.Forgetting
import ReactiveView.Proofs.Client.Origins
import ReactiveView.Proofs.Watcher.Tracking

/-!
# What a write calls

A write to an observable calls the code of its watchers that are due, in the order of their
registration, until a call fails.  Here the code that is called may read, observe and create
watchers, but does not write.
-/

namespace ReactiveView

variable {κ σ α : Type}

/-! ## 1. Code that does not write -/

/-- The computation comes to an outcome, and has written no data. -/
def Run.LeavesData (x : Run κ σ α) : Prop :=
  ∀ w, ∃ r w', x w = some (r, w') ∧ w.page.store.SameData w'.page.store

section Reading

variable (holds : σ → List Node) (serve : Cue κ → Run κ σ Unit)

theorem Operation.run_leavesData {op : Operation κ} (h : (Request.perform op).Reads) :
    (op.run holds serve).LeavesData := by
  intro w
  cases op with
  | get o key => exact ⟨_, _, rfl, Store.sameData_get w.page.store o key⟩
  | watch o key code =>
    let store := (w.page.store.watch o key (.client code)).2
    exact ⟨_, { w with page := { w.page with store } }, rfl, Store.sameData_watch _ _ _ _⟩
  | isAlive n => exact ⟨_, _, rfl, .refl _⟩
  | observe v tree =>
    cases v with
    | object fields =>
      cases tree with
      | none => exact ⟨_, _, rfl, Store.sameData_wrap w.page.store fields⟩
      | some t => exact ⟨_, _, rfl, Store.sameData_wrapIn w.page.store t fields⟩
    | _ => exact ⟨_, _, rfl, .refl _⟩
  | _ => exact h.elim

-- A program that only reads comes to its end.
theorem Program.run_leavesData (p : Program κ σ) (hp : p.Within Request.Reads) :
    (p.run holds serve).LeavesData := by
  induction p with
  | done => exact fun w => ⟨_, w, rfl, .refl _⟩
  | fail error => exact fun w => ⟨_, w, rfl, .refl _⟩
  | consult next ih => exact fun w => ih w.client (hp w.client) w
  | remember change next ih => exact fun w => ih hp { w with client := change w.client }
  | look next ih => exact fun w => ih w.page (hp w.page) w
  | perform op next ih =>
    intro w
    obtain ⟨result, w₁, hop, hdata⟩ := Operation.run_leavesData holds serve hp.1 w
    obtain ⟨r, w', hrest, hdata'⟩ := ih result (hp.2 result) w₁
    have houtcome : (op.run holds serve).outcome w = some (.ok result, w₁) := by
      rw [Run.outcome, hop]
      rfl
    exact ⟨r, w', (Run.bind_of_ok houtcome).trans hrest, hdata.trans hdata'⟩
  | collect t x body next _ _ => exact hp.1.elim

end Reading

theorem Client.answer_leavesData (c : Client κ σ) (hc : c.Within Request.Reads) (depth : Nat)
    (cue : Cue κ) : (c.answer (depth + 1) cue).LeavesData :=
  (c.respond cue).run_leavesData c.holds (c.answer depth) (hc cue)

/-! ## 2. Calls of watchers -/

/-- A call of the code of a watcher. -/
structure Firing (κ : Type) where
  watcher : WatcherId
  number : Nat
  property : String
  code : κ
  -- The field that the code is called with.
  field : Field
  result : Except Failure Unit

/-- Nothing but reads leads from one world to the other. -/
structure World.ReadsTo (w w' : World κ σ) : Prop where
  data : w.page.store.SameData w'.page.store
  rest : w' = { w with page := { w.page with store := w'.page.store } }

theorem World.ReadsTo.refl (w : World κ σ) : w.ReadsTo w := ⟨.refl _, rfl⟩

theorem World.readsTo_read (w : World κ σ) (o : ObjectId) (key : String) :
    w.ReadsTo (w.read o key) := ⟨Store.sameData_get _ _ _, rfl⟩

theorem World.ReadsTo.trans {w w' w'' : World κ σ} (h : w.ReadsTo w') (h' : w'.ReadsTo w'') :
    w.ReadsTo w'' := by
  refine ⟨h.data.trans h'.data, h'.rest.trans ?_⟩
  rw [h.rest]

/-- These calls of watchers of `o`, each with the field that its property has by then, lead from one
    world to the other.  In between there are only reads. -/
inductive Fires (serve : Cue κ → Run κ σ Unit) (o : ObjectId) :
    List (Firing κ) → World κ σ → World κ σ → Prop where
  | none {w w' : World κ σ} (hreads : w.ReadsTo w') : Fires serve o [] w w'
  | call {a : Firing κ} {calls : List (Firing κ)} {baseline : Field} {w w₁ w₂ w' : World κ σ}
    (hreads : w.ReadsTo w₁)
    (hwatcher : w₁.page.store.watcher? a.watcher =
      some ⟨a.number, o, a.property, .client a.code, baseline⟩)
    (hfield : a.field = w₁.page.store.field o a.property)
    (hcall : serve (.reaction a.code a.field)
      { w₁.read o a.property with
        pins := .object o :: a.field.proxy?.toList.map .object ++ w₁.pins } =
          some (a.result, w₂))
    (hrest : Fires serve o calls { w₂ with pins := w₁.pins } w') :
    Fires serve o (a :: calls) w w'

theorem Fires.reads {serve : Cue κ → Run κ σ Unit} {o : ObjectId} {calls : List (Firing κ)}
    {w w₁ w' : World κ σ} (h : w.ReadsTo w₁) (hf : Fires serve o calls w₁ w') :
    Fires serve o calls w w' := by
  cases hf with
  | none hreads => exact .none (h.trans hreads)
  | call hreads hwatcher hfield hcall hrest =>
    exact .call (h.trans hreads) hwatcher hfield hcall hrest

/-- What it comes to that these calls were made where the watchers `due` were to be called: either
    all of them were, or the last call failed, and the failure names the watcher and its
    property. -/
def Firing.Outcome (due : List WatcherId) (calls : List (Firing κ)) (r : Except Failure Unit) :
    Prop :=
  (calls.map Firing.watcher = due ∧ (∀ a ∈ calls, a.result = .ok ()) ∧ r = .ok ()) ∨
    ∃ before last cause, calls = before ++ [last] ∧ (∀ a ∈ before, a.result = .ok ()) ∧
      last.result = .error cause ∧ calls.map Firing.watcher <+: due ∧
      r = .error (.reactive (.callback last.number last.property cause))

theorem Firing.Outcome.cons {due : List WatcherId} {calls : List (Firing κ)}
    {r : Except Failure Unit} (h : Firing.Outcome due calls r) {a : Firing κ}
    (ha : a.result = .ok ()) : Firing.Outcome (a.watcher :: due) (a :: calls) r := by
  rcases h with ⟨hdue, hall, hr⟩ | ⟨before, last, cause, rfl, hall, hlast, hdue, hr⟩
  · exact .inl ⟨by rw [List.map_cons, hdue], List.forall_mem_cons.2 ⟨ha, hall⟩, hr⟩
  · exact .inr ⟨a :: before, last, cause, rfl, List.forall_mem_cons.2 ⟨ha, hall⟩, hlast,
      List.cons_prefix_cons.2 ⟨rfl, hdue⟩, hr⟩

/-! ## 3. Notifications -/

section Notification

variable (holds : σ → List Node) {serve : Cue κ → Run κ σ Unit} {s : Store (Reaction κ)}
  {o : ObjectId}

-- What is held is alive.
theorem Page.alive_of_mem {p : Page κ} {held : List Node} {n : Node} (h : n ∈ held) :
    p.alive held n = true := by
  have hroots : (held ++ p.anchors).contains n = true :=
    List.contains_iff_mem.2 (List.mem_append_left _ h)
  rw [Page.alive]
  simp only [hroots, Bool.true_or]

/-- **A notification calls the watchers that are due**, one after the other, until a call fails. -/
theorem updateAll_fires (hserve : ∀ cue, (serve cue).LeavesData) (hs : s.Tended)
    (hclient : ∀ {u x}, s.watcher? u = some x → ∃ code, x.reaction = .client code)
    {us : List WatcherId} (hus : us ⊆ s.registered (.ofObject o)) {w : World κ σ}
    (hw : s.SameData w.page.store) (hpin : .object o ∈ w.pins) :
    ∃ r w' calls, updateAll holds serve us w = some (r, w') ∧ s.SameData w'.page.store ∧
      Fires serve o calls w w' ∧ Firing.Outcome (us.filter s.due) calls r := by
  -- on the watchers: what was called before has only read, so that `s` still says who is due
  induction us generalizing w with
  | nil =>
    exact ⟨.ok (), w, [], rfl, hw, .none (.refl w), .inl ⟨rfl, (fun _ h => nomatch h), rfl⟩⟩
  | cons u us ih =>
    obtain ⟨hu, hus⟩ := List.cons_subset.1 hus
    obtain ⟨⟨number, source, key, reaction, baseline⟩, hx, rfl⟩ := hs.source hu
    obtain ⟨code, rfl⟩ := hclient hx
    have hwatcher := hw.watcher hx
    have halive : w.alive holds (.object source) = true :=
      Page.alive_of_mem (List.mem_append_right _ hpin)
    have hdue := hs.due_sameData hw hu
    have hread := hw.trans (Store.sameData_get w.page.store source key)
    rw [Store.due_eq hwatcher] at hdue
    rw [List.filter_cons]
    cases hsd : s.due u with
    | false =>
      have hupdate := WatcherId.update_of_idle holds serve hwatcher halive
        (by simpa [hsd] using hdue)
      obtain ⟨r, w', calls, hrun, hdata, hfires, houtcome⟩ :=
        ih hus (w := w.read source key) hread hpin
      exact ⟨r, w', calls, (Run.bind_of_ok hupdate).trans hrun, hdata,
        hfires.reads (w.readsTo_read source key), houtcome⟩
    | true =>
      -- the code comes to an outcome, and has written nothing
      obtain ⟨result, w₂, hcall, hdata₂⟩ := hserve
        (.reaction code (w.page.store.field source key))
        { w.read source key with
          pins := .object source :: (w.page.store.field source key).proxy?.toList.map .object ++
            w.pins }
      have hupdate := WatcherId.update_of_client holds serve hwatcher halive
        (by simpa [hsd] using hdue) hcall
      have hafter : s.SameData w₂.page.store := hread.trans hdata₂
      let a : Firing κ := ⟨u, number, key, code, w.page.store.field source key, result⟩
      cases result with
      | ok =>
        obtain ⟨r, w', calls, hrun, hdata, hfires, houtcome⟩ :=
          ih hus (w := { w₂ with pins := w.pins }) hafter hpin
        exact ⟨r, w', a :: calls, (Run.bind_of_ok hupdate).trans hrun, hdata,
          .call (.refl w) hwatcher rfl hcall hfires, houtcome.cons (a := a) rfl⟩
      | error cause =>
        refine ⟨_, { w₂ with pins := w.pins }, [a], Run.bind_of_error hupdate, hafter,
          .call (.refl w) hwatcher rfl hcall (.none (.refl _)),
          .inr ⟨[], a, cause, rfl, (fun _ h => nomatch h), rfl, ?_, rfl⟩⟩
        exact List.cons_prefix_cons.2 ⟨rfl, List.nil_prefix⟩

end Notification

/-! ## 4. Writes -/

/-- **What a write calls**, at any moment of a history in which callbacks do not write: the watchers
    that were registered with the observable before and whose fields now differ from their
    baselines, which are the fields that they had when the watchers were created.  Among those whose
    baselines are observables they are just the ones whose property was overwritten since they were
    registered. -/
theorem Client.set_fires {c : Client κ σ} (hc : c.Within Request.Reads) {p : Program κ σ}
    (hp : p.Within Request.ReadsOrWrites) {document : Document (Listener κ)} {entropy : Entropy}
    {s : σ} {g : History κ σ} {m : Moment κ σ}
    (hl : c.Lives { document, entropy } s p (g ++ [m])) {o : ObjectId} {key : String} {v : Value}
    (hset : m.request = .perform (.set o key v)) (depth : Nat) (pins : List Node) :
    let written := m.page.store.write o key v
    let registered := m.page.store.registered (.ofObject o)
    let start : World κ σ := ⟨{ m.page with store := written }, m.client,
      registered.map .watcher ++ .object o :: pins⟩
    ((m.page.store.object? o).isSome → written.slot? o key = some (.plain v)) ∧
    registered.Nodup ∧
    (∀ u ∈ registered, ∃ x, m.page.store.watcher? u = some x ∧ x.source = o ∧
      (∃ m₀ ∈ g, ∃ code, m₀.Creates u o x.property code ∧ x.reaction = .client code ∧
        x.baseline = m₀.page.store.field o x.property) ∧
      ∀ n, x.baseline = .proxy n →
        (written.due u = true ↔ ∃ m' ∈ g ++ [m], m'.Overwrites o u x.property)) ∧
    ∃ r w' calls,
      o.set c.holds (c.answer (depth + 1)) key v ⟨m.page, m.client, pins⟩ =
        some (r, { w' with pins }) ∧
      written.SameData w'.page.store ∧
      Fires (c.answer (depth + 1)) o calls start w' ∧
      Firing.Outcome (registered.filter written.due) calls r := by
  intro written registered start
  have ht := hl.tracked hc hp
  have hw : Tracked written (g ++ [m]) := ht.write rfl hset
  have hregistered : written.registered (.ofObject o) = registered :=
    Store.registered_write m.page.store o key v o
  refine ⟨fun ho => ?_, ht.tended.nodup o, fun u hu => ?_, ?_⟩
  · rw [Store.slot?_write ho, if_pos ⟨rfl, rfl⟩]
  · obtain ⟨x, hx, rfl⟩ := ht.tended.source hu
    obtain ⟨code, hcode⟩ := ht.client hx
    obtain ⟨m₀, hm₀, hcreates, hbaseline⟩ := hl.created hx hcode
    refine ⟨x, hx, rfl, ⟨m₀, hm₀, code, hcreates, hcode, hbaseline⟩,
      fun n hn => hw.proxies ?_ ?_ hn⟩
    · rw [hregistered]
      exact hu
    · exact (Store.watcher?_write _ _ _ _ u).trans hx
  -- a write registers nobody
  · have hus : registered ⊆ written.registered (.ofObject o) := by
      rw [hregistered]
      exact fun _ h => h
    have hpin : Node.object o ∈ start.pins :=
      List.mem_append_right _ List.mem_cons_self
    obtain ⟨r, w', calls, hrun, hdata, hfires, houtcome⟩ := updateAll_fires c.holds
      (c.answer_leavesData hc depth) hw.tended hw.client hus (w := start) (.refl written) hpin
    refine ⟨r, w', calls, ?_, hdata, hfires, houtcome⟩
    rw [ObjectId.set_apply]
    exact congrArg (Option.map _) hrun

/-- Some callbacks are fine, and the others fail. -/
def moodyClient : Client Bool Unit where
  respond
    | .reaction true _ => .done
    | _ => .fail (.client "mood" "not now")
  holds _ := []

/-- Watches a flag three times, and another flag and a nested object once, and sets the flag. -/
def moodyProgram : Program Bool Unit :=
  .perform (.observe (.object [("on", .bool false), ("off", .bool false), ("inner", .object [])])
      none) fun
    | .error error => .fail error
    | .ok o => .perform (.watch o "on" true) fun _ => .perform (.watch o "inner" true) fun _ =>
      .perform (.watch o "off" true) fun _ => .perform (.watch o "on" false) fun _ =>
        .perform (.watch o "on" true) fun _ => .perform (.set o "on" (.bool true)) fun _ => .done

def moodyHistory : History Bool Unit :=
  moodyClient.history 2 { document := {} } () moodyProgram

/-- Whether this is the moment of a write of a truth value. -/
def Moment.sets (m : Moment κ σ) (o : ObjectId) (key : String) (b : Bool) : Bool :=
  match m.request with
  | .perform (.set o' key' (.bool b')) => o' == o && key' == key && b' == b
  | _ => false

theorem Moment.request_of_sets {m : Moment κ σ} {o : ObjectId} {key : String} {b : Bool}
    (h : m.sets o key b = true) : m.request = .perform (.set o key (.bool b)) := by
  unfold sets at h
  split at h
  · rename_i o' key' b' hr
    simp only [Bool.and_eq_true, beq_iff_eq] at h
    obtain ⟨⟨rfl, rfl⟩, rfl⟩ := h
    exact hr
  · cases h

theorem set_fires_moody :
    ∃ m r, ∃ w' : World Bool Unit, ∃ calls : List (Firing Bool), moodyHistory[6]? = some m ∧
      (⟨⟨0⟩, 0⟩ : ObjectId).set moodyClient.holds (moodyClient.answer 1) "on" (.bool true)
        ⟨m.page, m.client, []⟩ = some (r, { w' with pins := [] }) ∧
      Firing.Outcome [⟨⟨0⟩, 0⟩, ⟨⟨0⟩, 3⟩, ⟨⟨0⟩, 4⟩] calls r := by
  have hrun : (moodyClient.run 2 moodyProgram ⟨{ document := {} }, (), []⟩).isSome = true := by
    decide +kernel
  have hsome : (moodyHistory[6]?).isSome = true := by decide +kernel
  have hdue : ∀ m ∈ moodyHistory[6]?,
      ((m.page.store.registered (.ofObject ⟨⟨0⟩, 0⟩)).filter
        (m.page.store.write ⟨⟨0⟩, 0⟩ "on" (.bool true)).due) =
          [⟨⟨0⟩, 0⟩, ⟨⟨0⟩, 3⟩, ⟨⟨0⟩, 4⟩] := by decide +kernel
  have hset : ∀ m ∈ moodyHistory[6]?, m.sets ⟨⟨0⟩, 0⟩ "on" true = true := by decide +kernel
  obtain ⟨m, hm⟩ := Option.isSome_iff_exists.1 hsome
  have hclient : moodyClient.Within Request.Reads := by
    intro cue
    cases cue with
    | reaction code field => cases code <;> trivial
    | event code event => trivial
    | method code receiver => trivial
  have hprogram : moodyProgram.Within Request.ReadsOrWrites := by
    refine ⟨trivial, fun result => ?_⟩
    cases result with
    | error error => trivial
    | ok o =>
      exact ⟨trivial, fun _ => ⟨trivial, fun _ => ⟨trivial, fun _ => ⟨trivial, fun _ =>
        ⟨trivial, fun _ => ⟨trivial, fun _ => trivial⟩⟩⟩⟩⟩⟩
  obtain ⟨-, -, -, r, w', calls, hrun, -, -, houtcome⟩ :=
    Client.set_fires hclient hprogram (Client.lives_take hrun hm)
      (Moment.request_of_sets (hset m hm)) 0 []
  rw [hdue m hm] at houtcome
  exact ⟨m, r, w', calls, hm, hrun, houtcome⟩

end ReactiveView
