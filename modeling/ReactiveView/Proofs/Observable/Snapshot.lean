import ReactiveView.Proofs.Observable.Shape
import ReactiveView.Proofs.Store.Snapshot

/-!
# Observables as nested maps

Seen through their snapshots the observables are plain nested maps: reading does not show, a write
is the insertion at the end of its path, and what was overwritten is cut off for good.
-/

namespace ReactiveView

variable {κ σ : Type}

/-! ## 1. Views between two moments -/

/-- The values that come with the request have their keys in order. -/
structure Request.WellFormed (request : Request κ) : Prop where
  observed : ∀ fields ∈ request.observed, (Value.object fields).WellFormed
  written : ∀ {o key v}, request = .perform (.set o key v) → v.WellFormed

theorem Store.Change.sameView {ρ : Type} {s : Store ρ} (hf : s.Forest) (hm : s.Mapped)
    (change : Store.Change ρ) : s.SameView (change.apply s) :=
  (change.reslots s).sameView hf hm (change.sameData s).toGrows

theorem course_mapped :
    Course (fun request : Request κ => request.WellFormed) (fun s => s.Forest ∧ s.Mapped)
      fun W s s' => (∀ o key, ¬ W o key) → s.SameView s' where
  finish := ⟨(fun _ h => nomatch h), (fun h => nomatch h)⟩
  empty := ⟨.empty, .empty⟩
  write hw hs := ⟨hs.1.write _ _ _, hs.2.write _ _ (hw.written rfl)⟩
  change {s change} hnew hs := by
    refine ⟨hs.1.change change, hs.2.reslots (fun fields hf => ?_) (change.reslots s)⟩
    obtain ⟨request, hr, hfields⟩ := hnew fields hf
    exact hr.observed fields hfields
  refl s _ := .refl s
  written o key v _ _ hW := (hW o key (.inr ⟨rfl, rfl⟩)).elim
  changed _ hs h hW := (h hW).trans (Store.Change.sameView hs.1 hs.2 _)

-- A request that is no write changes no snapshot.
theorem Moment.sameView {m : Moment κ σ} (hr : m.request.WellFormed)
    (hset : ∀ o key, ¬ m.request.Sets o key) (hf : m.page.store.Forest)
    (hm : m.page.store.Mapped) : m.page.store.SameView m.store := by
  have hreach := m.request.effect_reaches hset m.page
  refine (hreach.keeps (fun s => (s.Forest ∧ s.Mapped) ∧ m.page.store.SameView s)
    (fun {s change} hnew hs => ?_) ⟨⟨hf, hm⟩, .refl _⟩).2
  have hnew' : ∀ fields ∈ change.observed, ∃ request : Request κ, request.WellFormed ∧
      fields ∈ request.observed := fun fields hfields => ⟨_, hr, hnew fields hfields⟩
  exact ⟨course_mapped.change hnew' hs.1, hs.2.trans (Store.Change.sameView hs.1.1 hs.1.2 change)⟩

/-! ## 2. Cut off observables -/

namespace Store

variable {ρ : Type} {s s' : Store ρ} {W : ObjectId → String → Prop} {o n q x : ObjectId}
  {key : String} {v : Value} {path : List String}

-- An observable that was overwritten stands in no slot any more.
theorem Since.not_nests (h : (s.write o key v).Since W s') (hf : s.Forest) (hm' : s'.Mapped)
    (hn : s.Nests o key n) (l : String) : ¬ s'.Nests q l n := by
  intro hq
  rcases h.nested (hm'.slot?_of_nests hq) with hnone | ⟨-, hslot⟩
  · have hpresent := (grows_write s o key v).object?_isSome (hf.present hn)
    rw [hnone] at hpresent
    cases hpresent
  · obtain ⟨rfl, rfl⟩ := hf.single (nests_of_write (nests_of_slot? hslot)) hn
    exact slot?_write_ne_nested s _ _ v n hslot

-- Nothing but itself leads to an observable that stands in no slot.
theorem LeadsTo.eq_of_root (h : s.LeadsTo q path n) (hroot : ∀ {p l}, ¬ s.Nests p l n) : q = n := by
  cases h with
  | here => rfl
  | down _ hn => exact (hroot hn).elim

-- What stands below an observable without a slot is out of reach for everything that came before.
theorem Forest.not_leadsTo_of_root (hf : s.Forest) (hroot : ∀ {p l}, ¬ s.Nests p l n)
    (hlt : q.index < n.index) {path' : List String} (hx : s.LeadsTo n path' x) :
    ¬ s.LeadsTo q path x := by
  intro hq
  rcases hf.leadsTo_or hq hx with ⟨r, hr⟩ | ⟨r, hr⟩
  · rw [hr.eq_of_root hroot] at hlt
    exact Nat.lt_irrefl _ hlt
  · exact absurd hlt (Nat.not_lt.2 (hf.le_of_leadsTo hr))

end Store

/-! ## 3. Every history -/

/-- **The store is a plain nested map** to its clients, at every moment of every history.  Reads and
    new watchers change no snapshot.  From any moment to a later one without a write in between all
    snapshots stay as they are; and from a write on, until the next one, the snapshots from which a
    path leads to the written observable differ from those before it by the insertion at the end of
    that path, and the others not at all.  An observable that was overwritten keeps its snapshot,
    and from then on no write to it or below it shows in the snapshots that contained it. -/
theorem Client.snapshot_refines {c : Client κ σ} (hc : c.Within Request.WellFormed)
    {p : Program κ σ} (hp : p.Within Request.WellFormed) {document : Document (Listener κ)}
    {entropy : Entropy} {s : σ} {g : History κ σ} {m : Moment κ σ}
    (hl : c.Lives { document, entropy } s p (g ++ [m])) :
    let store := m.page.store
    (∀ {q}, (store.object? q).isSome →
      (∀ o key, (store.get o key).2.snapshot q = store.snapshot q) ∧
      ∀ o key reaction, (store.watch o key reaction).2.snapshot q = store.snapshot q) ∧
    ∀ {g₀ m₀ g₁}, g = g₀ ++ m₀ :: g₁ →
      let before := m₀.page.store
      ((∀ o key, ¬ History.Writes (m₀ :: g₁) o key) →
        ∀ {q}, (before.object? q).isSome → store.snapshot q = before.snapshot q) ∧
      ∀ {o key v}, m₀.request = .perform (.set o key v) → (before.object? o).isSome →
        ((∀ q l, ¬ History.Writes g₁ q l) → ∀ {q}, (before.object? q).isSome →
          (∀ path, before.LeadsTo q path o →
            store.snapshot q = (before.snapshot q).changeAt (Value.put key v) path) ∧
          ((∀ path, ¬ before.LeadsTo q path o) → store.snapshot q = before.snapshot q)) ∧
        ∀ {n}, before.slot? o key = some (.nested n) →
          (before.write o key v).snapshot n = before.snapshot n ∧
          ∀ {q path x path'}, before.LeadsTo q path o → store.LeadsTo n path' x →
            ∀ l u, (store.write x l u).snapshot q = store.snapshot q := by
  intro store
  obtain ⟨-, hpast⟩ := hl.course (fun cue => (c.respond cue).within_all) p.within_all course_forest
  obtain ⟨⟨hf, hm⟩, hview⟩ := hl.course hc hp course_mapped
  refine ⟨fun hq => ⟨fun o key => ?_, fun o key reaction => ?_⟩, fun {g₀ m₀ g₁} hg => ?_⟩
  · exact (Store.Change.sameView hf hm (.read o key) _ hq).2
  · exact (Store.Change.sameView hf hm (.watch o key reaction) _ hq).2
  intro before
  have hl₀ : c.Lives { document, entropy } s p (g₀ ++ [m₀]) :=
    hl.mono ⟨g₁ ++ [m], by rw [hg]; simp⟩
  obtain ⟨⟨hf₀, hm₀⟩, -⟩ := hl₀.course hc hp course_mapped
  have hr₀ : m₀.request.WellFormed :=
    hl.permitted hc hp course_mapped.finish m₀ (by rw [hg]; simp)
  refine ⟨fun hW q hq => ?_, fun {o key v} hset ho => ?_⟩
  · have hset : ∀ o key, ¬ m₀.request.Sets o key := fun o key h =>
      hW o key ⟨m₀, List.mem_cons_self, h⟩
    have hrest := hview hg fun o key ⟨m', hm', h⟩ => hW o key ⟨m', List.mem_cons_of_mem _ hm', h⟩
    exact ((Moment.sameView hr₀ hset hf₀ hm₀).trans hrest q hq).2
  have hstore : m₀.store = before.write o key v := by
    rw [Moment.store, hset]
    rfl
  refine ⟨fun hW q hq => ?_, fun {n} hslot => ⟨?_, fun {q path x path'} hl hx l u => ?_⟩⟩
  · have hrest := hview hg hW
    rw [hstore] at hrest
    have hsame := (hrest q ((Store.grows_write _ _ _ _).object?_isSome hq)).2
    rw [hsame]
    exact hf₀.snapshot_write hm₀ ho key v q
  · exact (hf₀.snapshot_write hm₀ ho key v n).2 fun _ =>
      hf₀.not_leadsTo_of_nests (Store.nests_of_slot? hslot)
  · have hn := Store.nests_of_slot? hslot
    have hsince := hpast hg
    rw [hstore] at hsince
    have hlt : q.index < n.index := Nat.lt_of_le_of_lt (hf₀.le_of_leadsTo hl) (hf₀.below hn)
    have hpresent : (store.object? n).isSome :=
      hsince.grows.object?_isSome ((Store.grows_write _ _ _ _).object?_isSome (hf₀.present hn))
    exact (hf.snapshot_write hm (hx.isSome hf hpresent) l u q).2 fun _ =>
      hf.not_leadsTo_of_root (fun {_ l'} => hsince.not_nests hf₀ hm hn l') hlt hx

/-- A client whose callbacks fail. -/
def failingClient : Client Unit Unit where
  respond _ := .fail (.client "mood" "not now")
  holds _ := []

/-- Watches a nested object and writes to it. -/
def nestedProgram : Program Unit Unit :=
  .perform (.observe (.object [("a", .object [])]) none) fun _ =>
    .perform (.get ⟨⟨0⟩, 0⟩ "a") fun _ => .perform (.watch ⟨⟨0⟩, 1⟩ "x" ()) fun _ =>
      .perform (.set ⟨⟨0⟩, 1⟩ "x" (.bool true)) fun _ => .done

def nestedHistory : History Unit Unit :=
  failingClient.history 2 { document := {} } () nestedProgram

theorem Request.WellFormed.of_none {request : Request κ} (h : request.observed = none)
    (h' : request.written? = none) : request.WellFormed := by
  refine ⟨fun fields hf => ?_, fun {o key v} hset => ?_⟩
  · rw [h] at hf
    cases hf
  · rw [Request.written?_eq_some_iff.2 ⟨v, hset⟩] at h'
    cases h'

theorem nestedProgram_wellFormed : nestedProgram.Within Request.WellFormed := by
  refine ⟨⟨fun fields hf => ?_, (fun h => nomatch h)⟩, fun _ => ⟨.of_none rfl rfl,
    fun _ => ⟨.of_none rfl rfl, fun _ => ⟨⟨(fun _ h => nomatch h), fun h => ?_⟩,
      fun _ => trivial⟩⟩⟩⟩
  · cases hf
    exact ⟨by simp [Fields.Ordered], ⟨by simp [Fields.Ordered], trivial⟩, trivial⟩
  · cases h
    trivial

theorem snapshot_refines_nested :
    ∃ m₀ m v, nestedHistory[3]? = some m₀ ∧ nestedHistory[5]? = some m ∧
      m₀.request = .perform (.set ⟨⟨0⟩, 1⟩ "x" v) ∧
      m.page.store.snapshot ⟨⟨0⟩, 0⟩ =
        (m₀.page.store.snapshot ⟨⟨0⟩, 0⟩).changeAt (Value.put "x" v) ["a"] := by
  have hrun : (failingClient.run 2 nestedProgram ⟨{ document := {} }, (), []⟩).isSome = true := by
    decide +kernel
  have hsome : (nestedHistory[3]?).isSome = true ∧ (nestedHistory[4]?).isSome = true ∧
      (nestedHistory[5]?).isSome = true := by decide +kernel
  have hset : ∀ m ∈ nestedHistory[3]?, m.request.Sets ⟨⟨0⟩, 1⟩ "x" := by decide +kernel
  have hcallback : ∀ m ∈ nestedHistory[4]?, m.request.written? = none := by decide +kernel
  have hthere : ∀ m ∈ nestedHistory[3]?, (m.page.store.object? ⟨⟨0⟩, 0⟩).isSome = true ∧
      (m.page.store.object? ⟨⟨0⟩, 1⟩).isSome = true ∧
      (m.page.store.get ⟨⟨0⟩, 0⟩ "a").1.proxy? = some ⟨⟨0⟩, 1⟩ := by decide +kernel
  obtain ⟨m₀, hm₀⟩ := Option.isSome_iff_exists.1 hsome.1
  obtain ⟨m₁, hm₁⟩ := Option.isSome_iff_exists.1 hsome.2.1
  obtain ⟨m, hm⟩ := Option.isSome_iff_exists.1 hsome.2.2
  obtain ⟨v, hv⟩ := hset m₀ hm₀
  obtain ⟨hroot, hnested, hproxy⟩ := hthere m₀ hm₀
  have htake : nestedHistory.take 5 = nestedHistory.take 3 ++ m₀ :: [m₁] := by
    have h₄ := @List.take_add_one _ nestedHistory 4
    have h₃ := @List.take_add_one _ nestedHistory 3
    rw [hm₁, Option.toList_some] at h₄
    rw [hm₀, Option.toList_some] at h₃
    rw [h₄, h₃, List.append_assoc]
    rfl
  have hquiet : ∀ o key, ¬ History.Writes [m₁] o key := by
    rintro o key ⟨m', hm', hwrite⟩
    rw [List.mem_singleton.1 hm', ← Request.written?_eq_some_iff, hcallback m₁ hm₁] at hwrite
    cases hwrite
  have hslot : m₀.page.store.slot? ⟨⟨0⟩, 0⟩ "a" = some (.nested ⟨⟨0⟩, 1⟩) := by
    refine (Store.slot?_of_field (Field.eq_proxy hproxy)).resolve_right fun hnone => ?_
    rw [hnone] at hnested
    cases hnested
  have hpath : m₀.page.store.LeadsTo ⟨⟨0⟩, 0⟩ ["a"] ⟨⟨0⟩, 1⟩ :=
    .down .here (Store.nests_of_slot? hslot)
  have hlives := Client.lives_take hrun hm
  have hclient : failingClient.Within Request.WellFormed := fun _ => trivial
  obtain ⟨-, hpast⟩ := Client.snapshot_refines hclient nestedProgram_wellFormed hlives
  obtain ⟨-, hwritten⟩ := hpast htake
  exact ⟨m₀, m, v, hm₀, hm, hv, ((hwritten hv hnested).1 hquiet hroot).1 _ hpath⟩

end ReactiveView
