import ReactiveView.Proofs.Client.Contract

/-!
# Histories

A client can note down every moment at which its code turns to the page.  Nothing has to be added
to the semantics for that: the history is a part of the state of a client that remembers more, and
forgetting it gives back the run of the original client.  What is said of every moment of a run is
said of these histories.
-/

namespace ReactiveView

/-! ## 1. Moments -/

/-- What client code is about to do. -/
inductive Request (κ : Type) where
  | perform (op : Operation κ)
  | collect (t : TreeId) (w : WatcherId)
  | finish

/-- A page and a client at the time of a request. -/
structure Moment (κ σ : Type) where
  page : Page κ
  client : σ
  request : Request κ

/-- The moments of a run so far, the latest one last. -/
abbrev History (κ σ : Type) := List (Moment κ σ)

variable {κ σ : Type}

/-- The world after a request has been noted down. -/
def World.noting (w : World κ (σ × History κ σ)) (request : Request κ) :
    World κ (σ × History κ σ) :=
  { w with client := (w.client.1, w.client.2 ++ [⟨w.page, w.client.1, request⟩]) }

-- Noting a request down makes the present a moment of the past.
theorem World.noting_cases {w : World κ (σ × History κ σ)} {request : Request κ}
    {h : History κ σ} {m : Moment κ σ} (hpre : h ++ [m] <+: (w.noting request).client.2) :
    (h = w.client.2 ∧ m = ⟨w.page, w.client.1, request⟩) ∨ h ++ [m] <+: w.client.2 := by
  rcases List.prefix_concat_iff.1 hpre with heq | hpre
  · obtain ⟨rfl, hm⟩ := List.append_inj' heq rfl
    cases hm
    exact .inl ⟨rfl, rfl⟩
  · exact .inr hpre

-- A moment of a history that has become longer is the latest one, or was there before.
theorem History.concat_cases {h g₀ g₁ : History κ σ} {m m₀ : Moment κ σ}
    (hh : h ++ [m] = g₀ ++ m₀ :: g₁) :
    (g₁ = [] ∧ m₀ = m) ∨ ∃ g, g₁ = g ++ [m] ∧ h = g₀ ++ m₀ :: g := by
  rcases List.eq_nil_or_concat g₁ with rfl | ⟨g, m', rfl⟩
  · obtain ⟨-, hm₀⟩ := List.append_inj' hh rfl
    cases hm₀
    exact .inl ⟨rfl, rfl⟩
  · rw [List.concat_eq_append, ← List.cons_append, ← List.append_assoc] at hh
    obtain ⟨hpre, hm'⟩ := List.append_inj' hh rfl
    cases hm'
    exact .inr ⟨g, List.concat_eq_append, hpre⟩

-- The moments from `i` on, before the moment `j`.
theorem History.drop_take {h : History κ σ} {i j : Nat} {m₀ : Moment κ σ} (hij : i < j)
    (hm₀ : h[i]? = some m₀) : (h.take j).drop i = m₀ :: (h.take j).drop (i + 1) := by
  have hget : (h.take j)[i]? = some m₀ := (List.getElem?_take_of_lt hij).trans hm₀
  obtain ⟨hlt, heq⟩ := List.getElem?_eq_some_iff.1 hget
  rw [List.drop_eq_getElem_cons hlt, heq]

theorem History.take_eq_append {h : History κ σ} {i j : Nat} {m₀ : Moment κ σ} (hij : i < j)
    (hm₀ : h[i]? = some m₀) : h.take j = h.take i ++ m₀ :: (h.take j).drop (i + 1) := by
  have hsplit := (List.take_append_drop i (h.take j)).symm
  rwa [List.take_take, Nat.min_eq_left (Nat.le_of_lt hij), drop_take hij hm₀] at hsplit

namespace Program

/-- Notes down a request before going on. -/
def note (request : Request κ) (next : Program κ (σ × History κ σ)) :
    Program κ (σ × History κ σ) :=
  .look fun page => .remember (fun c => (c.1, c.2 ++ [⟨page, c.1, request⟩])) next

/-- The program that notes down every request before it makes it, its end included. -/
def recording : Program κ σ → Program κ (σ × History κ σ)
  | done => note .finish .done
  | fail error => note .finish (.fail error)
  | consult next => .consult fun c => (next c.1).recording
  | remember change next => .remember (fun c => (change c.1, c.2)) next.recording
  | look next => .look fun page => (next page).recording
  | perform op next => note (.perform op) (.perform op fun result => (next result).recording)
  | collect t w body next =>
    note (.collect t w) (.collect t w body.recording fun result => (next result).recording)

/-- Every request of the program, whatever it is told, is a permitted one. -/
def Within (permits : Request κ → Prop) : Program κ σ → Prop
  | done => True
  | fail _ => True
  | consult next => ∀ s, (next s).Within permits
  | remember _ next => next.Within permits
  | look next => ∀ page, (next page).Within permits
  | perform op next => permits (.perform op) ∧ ∀ result, (next result).Within permits
  | collect t w body next =>
    permits (.collect t w) ∧ body.Within permits ∧ ∀ result, (next result).Within permits

-- Where everything is permitted, every program is within what is permitted.
theorem within_all (p : Program κ σ) : p.Within fun _ => True := by
  induction p with
  | done => trivial
  | fail error => trivial
  | consult next ih => exact ih
  | remember change next ih => exact ih
  | look next ih => exact ih
  | perform op next ih => exact ⟨trivial, ih⟩
  | collect t w body next ihbody ih => exact ⟨trivial, ihbody, ih⟩

end Program

namespace Client

/-- The client that notes down every request of its code. -/
def recording (c : Client κ σ) : Client κ (σ × History κ σ) where
  respond cue := (c.respond cue).recording
  holds s := c.holds s.1

/-- All the code of a client that can be called makes only permitted requests. -/
def Within (permits : Request κ → Prop) (c : Client κ σ) : Prop :=
  ∀ cue, (c.respond cue).Within permits

/-- The history `h` is how a run of a program begins, on the page `start` and with the client in
    the state `s`. -/
def Lives (c : Client κ σ) (start : Page κ) (s : σ) (p : Program κ σ) (h : History κ σ) : Prop :=
  ∃ depth result w,
    c.recording.run depth p.recording ⟨start, (s, []), []⟩ = some (result, w) ∧ h <+: w.client.2

/-- The history of a run, if it comes to an end. -/
def history (c : Client κ σ) (depth : Nat) (start : Page κ) (s : σ) (p : Program κ σ) :
    History κ σ :=
  match c.recording.run depth p.recording ⟨start, (s, []), []⟩ with
  | none => []
  | some (_, w) => w.client.2

-- What began a run did so at every earlier moment.
theorem Lives.mono {c : Client κ σ} {start : Page κ} {s : σ} {p : Program κ σ}
    {h h' : History κ σ} (hl : c.Lives start s p h') (hpre : h <+: h') : c.Lives start s p h := by
  obtain ⟨depth, result, w, hrun, hw⟩ := hl
  exact ⟨depth, result, w, hrun, hpre.trans hw⟩

end Client

/-! ## 2. Invariants of histories -/

section Rule

variable (permits : Request κ → Prop) (holds : σ × History κ σ → List Node)
  (serve : Cue κ → Run κ (σ × History κ σ) Unit)

/-- What it takes for `between` to hold whenever client code runs, and for `during` to hold while an
    operation is under way. -/
structure Discipline (between during : World κ (σ × History κ σ) → Prop) : Prop where
  weaken : ∀ {w}, during w → between w
  remember : ∀ {w} (s : σ), between w → between { w with client := (s, w.client.2) }
  finish : ∀ {w}, between w → during (w.noting .finish)
  perform : ∀ {op : Operation κ}, permits (.perform op) →
    (op.run holds serve).Ensures (fun w => ∃ v, between v ∧ w = v.noting (.perform op))
      fun _ => between
  refuse : ∀ {w t x error}, permits (.collect t x) → between w →
    w.page.store.begin t x = .error error → between (w.noting (.collect t x))
  enter : ∀ {w t x store}, permits (.collect t x) → between w →
    w.page.store.begin t x = .ok store →
      between { w.noting (.collect t x) with page := { w.page with store } }
  leave : ∀ {w t x}, permits (.collect t x) → during w →
    between { w with page := { w.page with store := w.page.store.vacate t } }

variable {permits holds serve} {between during : World κ (σ × History κ σ) → Prop}

theorem Program.recording_ensures (d : Discipline permits holds serve between during)
    (p : Program κ σ) (hp : p.Within permits) :
    (p.recording.run holds serve).Ensures between fun _ => during := by
  induction p with
  | done =>
    intro w hw r w' h
    cases h
    exact d.finish hw
  | fail error =>
    intro w hw r w' h
    cases h
    exact d.finish hw
  | consult next ih =>
    intro w hw r w' h
    exact ih w.client.1 (hp w.client.1) w hw r w' h
  | remember change next ih =>
    intro w hw r w' h
    exact ih hp _ (d.remember (change w.client.1) hw) r w' h
  | look next ih =>
    intro w hw r w' h
    exact ih w.page (hp w.page) w hw r w' h
  | perform op next ih =>
    intro w hw r w' h
    change ((op.run holds serve).outcome >>= fun result => (next result).recording.run holds serve)
      (w.noting (.perform op)) = some (r, w') at h
    obtain ⟨result, w₁, h₁, h₂⟩ := Run.outcome_bind_eq_some h
    -- the request is noted down on the page as it is before the operation
    have hb : between w₁ := d.perform hp.1 _ ⟨w, hw, rfl⟩ result w₁ h₁
    exact ih result (hp.2 result) w₁ hb r w' h₂
  | collect t x body next ihbody ih =>
    intro w hw r w' h
    change ((t.collect x (body.recording.run holds serve)).outcome >>=
      fun result => (next result).recording.run holds serve) (w.noting (.collect t x)) =
        some (r, w') at h
    obtain ⟨result, w₁, h₁, h₂⟩ := Run.outcome_bind_eq_some h
    have hb : between w₁ := by
      rcases TreeId.collect_eq_some h₁ with ⟨error, hbegin, rfl⟩ | ⟨store, w₂, hbegin, hbody, rfl⟩
      · exact d.refuse hp.1 hw hbegin
      · have hentered := d.enter hp.1 hw hbegin
        exact d.leave (x := x) hp.1 (ihbody hp.2.1 _ hentered _ _ hbody)
    exact ih result (hp.2.2 result) w₁ hb r w' h₂

-- A call that nests at most `depth` deep keeps what holds during an operation, if every operation
-- does so whose calls do.
theorem Client.recording_answer_keeps {c : Client κ σ} (hc : c.Within permits)
    (d : ∀ serve : Cue κ → Run κ (σ × History κ σ) Unit, (∀ cue, (serve cue).Keeps during) →
      Discipline permits c.recording.holds serve between during) (depth : Nat) (cue : Cue κ) :
    (c.recording.answer depth cue).Keeps during := by
  induction depth generalizing cue with
  | zero =>
    intro w _ r w' h
    cases h
  | succ depth ih =>
    intro w hw
    have hd := d (c.recording.answer depth) ih
    exact Program.recording_ensures hd (c.respond cue) (hc cue) w (hd.weaken hw)

-- The invariant of a run holds at its end, and so for the whole of its history.
theorem Client.Lives.ensures {c : Client κ σ} {start : Page κ} {s : σ} {p : Program κ σ}
    {h : History κ σ} (hl : c.Lives start s p h)
    {inner : Request κ → Prop} {outerBetween outerDuring : World κ (σ × History κ σ) → Prop}
    (hc : c.Within inner) (hp : p.Within permits)
    (d : ∀ serve : Cue κ → Run κ (σ × History κ σ) Unit, (∀ cue, (serve cue).Keeps during) →
      Discipline inner c.recording.holds serve between during)
    (d' : ∀ serve : Cue κ → Run κ (σ × History κ σ) Unit, (∀ cue, (serve cue).Keeps during) →
      Discipline permits c.recording.holds serve outerBetween outerDuring)
    (hstart : outerBetween ⟨start, (s, []), []⟩) :
    ∃ w, outerDuring w ∧ h <+: w.client.2 := by
  obtain ⟨depth, result, w, hrun, hpre⟩ := hl
  have hserve := Client.recording_answer_keeps hc d depth
  exact ⟨w, Program.recording_ensures (d' _ hserve) p hp _ hstart _ _ hrun, hpre⟩

end Rule

end ReactiveView
