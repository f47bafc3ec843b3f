import ReactiveView.Proofs.Page.Leads
import ReactiveView.Proofs.Page.Mounted

/-!
# Where watchers and views come from

Every watcher of client code was created at an earlier moment of the history, and every view was
mounted at one.  What such a watcher compares its property with, and the watcher of a placeholder
its own, is the field that was read then: a baseline never changes.
-/

namespace ReactiveView

variable {κ σ : Type}

/-! ## 1. Watchers of client code -/

/-- At this moment client code creates the watcher `u` of the property `key` of `o`, which is going
    to call `code`. -/
def Moment.Creates (m : Moment κ σ) (u : WatcherId) (o : ObjectId) (key : String) (code : κ) :
    Prop :=
  m.request = .perform (.watch o key code) ∧
    (m.page.store.watch o key (.client code)).1 = .ok u

section Effects

variable {p : Page κ} {u : WatcherId} {x : Watcher (Reaction κ)}

theorem Page.watcher?_compile {c : CompilerId}
    (hx : (p.compile c).2.store.watcher? u = some x) :
    p.store.watcher? u = some x ∨ ∃ d, x.reaction = .render d := by
  rcases compile_parts p c with hidle | ⟨y, y', -, -, hs | ⟨id, markup, result, hr⟩⟩
  · rw [hidle] at hx
    exact .inl hx
  · exact (hs.only hx).imp_right fun h => ⟨c, h⟩
  · exact (hr.only hx).imp_right fun h => ⟨c, h⟩

theorem Page.watcher?_mount {vm : ViewModel κ} {config : Config}
    (hx : (p.mount vm config).2.store.watcher? u = some x) :
    p.store.watcher? u = some x ∨ ∃ d, x.reaction = .render d := by
  rcases mount_parts p vm config with hp | ⟨root, hstore, -⟩
  · rw [hp] at hx
    exact .inl hx
  · rw [hstore] at hx
    refine (watcher?_compile hx).imp_left fun hx => ?_
    exact (Store.watcher?_wrap p.store vm.data u).symm.trans hx

-- A watcher of client code that an operation leaves behind was there before, or is the one that it
-- creates.
theorem Operation.watcher?_effect {op : Operation κ} {code : κ}
    (hx : (op.effect p).store.watcher? u = some x) (hcode : x.reaction = .client code) :
    p.store.watcher? u = some x ∨ op = .watch x.source x.property code ∧
      (p.store.watch x.source x.property (.client code)).1 = .ok u ∧
        x.baseline = p.store.field x.source x.property := by
  have hno : ∀ d, x.reaction ≠ .render d := by
    intro d hd
    rw [hcode] at hd
    cases hd
  cases op with
  | observe v tree =>
    cases v with
    | object fields =>
      cases tree with
      | none => exact .inl ((Store.watcher?_wrap p.store fields u).symm.trans hx)
      | some t => exact .inl ((Store.watcher?_wrapIn p.store t fields u).symm.trans hx)
    | _ => exact .inl hx
  | get o key => exact .inl ((Store.watcher?_get p.store o key u).symm.trans hx)
  | set o key v => exact .inl ((Store.watcher?_write p.store o key v u).symm.trans hx)
  | watch o key code' =>
    rcases Store.watcher?_watch hx with hx | ⟨hok, rfl⟩
    · exact .inl hx
    · cases hcode
      exact .inr ⟨rfl, hok, rfl⟩
  | register r w => exact .inl ((Store.watcher?_register p.store r w u).symm.trans hx)
  | newCompiler template data root ids table => cases table <;> exact .inl hx
  | compile c => exact (Page.watcher?_compile hx).imp_right fun ⟨d, hd⟩ => (hno d hd).elim
  | bind root t methods receiver =>
    rw [effect, Page.bind_snd, Page.store_bindTypes] at hx
    exact .inl hx
  | mount vm config => exact (Page.watcher?_mount hx).imp_right fun ⟨d, hd⟩ => (hno d hd).elim
  | _ => exact .inl hx

end Effects

/-- **The baseline of a watcher of client code** is the field that its property had at the moment
    at which the watcher was created. -/
theorem Client.Lives.created {c : Client κ σ} {document : Document (Listener κ)}
    {entropy : Entropy} {s : σ} {prog : Program κ σ} {g : History κ σ} {m : Moment κ σ}
    (hl : c.Lives { document, entropy } s prog (g ++ [m])) {u : WatcherId}
    {x : Watcher (Reaction κ)} {code : κ} (hx : m.page.store.watcher? u = some x)
    (hcode : x.reaction = .client code) :
    ∃ m₀ ∈ g, m₀.Creates u x.source x.property code ∧
      x.baseline = m₀.page.store.field x.source x.property := by
  refine hl.follows (fun p h => ∀ {u x code}, p.store.watcher? u = some x →
      x.reaction = .client code → ∃ m₀ ∈ h, m₀.Creates u x.source x.property code ∧
        x.baseline = m₀.page.store.field x.source x.property)
    (fun cue => (c.respond cue).within_all) prog.within_all trivial
    (fun {p h s request} _ hall {u x code} hx hcode => ?_)
    (fun {p h} o key hall {u x code} hx hcode =>
      hall ((Store.watcher?_get p.store o key u).symm.trans hx) hcode)
    (fun {p h y y' d} hall _ _ {u x code} hx hcode => ?_)
    (fun {p h t v} _ hall {u x code} hx hcode => ?_)
    (fun h => nomatch h) hx hcode
  · -- the request is noted down together with its effect
    have hold : p.store.watcher? u = some x → ∃ m₀ ∈ h ++ [⟨p, s, request⟩],
        m₀.Creates u x.source x.property code ∧
          x.baseline = m₀.page.store.field x.source x.property := fun hx =>
      (hall hx hcode).imp fun _ hm₀ => hm₀.imp_left (List.mem_append_left _)
    cases request with
    | perform op =>
      rcases Operation.watcher?_effect hx hcode with hx | ⟨rfl, hok, hbaseline⟩
      · exact hold hx
      · exact ⟨_, List.mem_append_right _ (List.mem_singleton.2 rfl), ⟨rfl, hok⟩, hbaseline⟩
    | finish => exact hold hx
    | collect t w =>
      refine hold ?_
      rw [Request.effect] at hx
      rcases Store.Change.begin_cases p.store t w with hsame | ⟨-, hbegun⟩
      · rw [hsame] at hx
        exact hx
      · rw [hbegun] at hx
        exact (Store.watcher?_occupy p.store t w u).symm.trans hx
  · rcases Page.watcher?_compile hx with hx | ⟨d, hd⟩
    · exact hall hx hcode
    · rw [hcode] at hd
      cases hd
  · exact hall ((Store.watcher?_vacate p.store t u).symm.trans hx) hcode

/-! ## 2. Views -/

/-- The view that client code mounts at this moment, and what the page is then. -/
def Moment.mounted? (m : Moment κ σ) : Option (EngineId × Page κ) :=
  match m.request with
  | .perform (.mount vm config) =>
    match m.page.mount vm config with
    | (.ok e, p) => some (e, p)
    | (.error _, _) => none
  | _ => none

theorem Moment.mounted?_of_ok {m : Moment κ σ} {vm : ViewModel κ} {config : Config} {e : EngineId}
    {p : Page κ} (hrequest : m.request = .perform (.mount vm config))
    (hmount : m.page.mount vm config = (.ok e, p)) : m.mounted? = some (e, p) := by
  rw [mounted?, hrequest]
  dsimp only
  rw [hmount]

theorem Moment.mount_of_mounted? {m : Moment κ σ} {e : EngineId} {p : Page κ}
    (h : m.mounted? = some (e, p)) : ∃ vm config, m.request = .perform (.mount vm config) ∧
      m.page.mount vm config = (.ok e, p) := by
  unfold mounted? at h
  split at h
  · rename_i vm config hrequest
    split at h
    · rename_i hmount
      cases h
      exact ⟨vm, config, hrequest, hmount⟩
    · cases h
  · cases h

-- Only a mount adds a view.
theorem Request.engines_effect (request : Request κ) (p : Page κ) :
    (request.effect p).engines = p.engines ∨
      ∃ vm config, request = .perform (.mount vm config) := by
  cases request with
  | finish => exact .inl rfl
  | collect t w => exact .inl rfl
  | perform op =>
    cases op with
    | observe v tree =>
      cases v with
      | object fields => cases tree <;> exact .inl rfl
      | _ => exact .inl rfl
    | newCompiler template data root ids table => cases table <;> exact .inl rfl
    | compile c => exact .inl (Page.recompiled p c).engines
    | bind root t methods receiver => exact .inl (Page.still_bind p root t methods receiver).engines
    | mount vm config => exact .inr ⟨vm, config, rfl⟩
    | _ => exact .inl rfl

/-- **Every view was mounted** at an earlier moment. -/
theorem Client.Lives.mounted {c : Client κ σ} {document : Document (Listener κ)}
    {entropy : Entropy} {s : σ} {prog : Program κ σ} {g : History κ σ} {m : Moment κ σ}
    (hl : c.Lives { document, entropy } s prog (g ++ [m])) {e : EngineId} {engine : Engine κ}
    (he : m.page.engine? e = some engine) : ∃ m₀ ∈ g, ∃ p₀, m₀.mounted? = some (e, p₀) := by
  refine hl.follows (fun p h => ∀ {e engine}, p.engine? e = some engine →
      ∃ m₀ ∈ h, ∃ p₀, m₀.mounted? = some (e, p₀))
    (fun cue => (c.respond cue).within_all) prog.within_all trivial
    (fun {p h s request} _ hall {e engine} he => ?_) (fun _ _ hall => hall)
    (fun {p h x y d} hall _ _ {e engine} he => ?_) (fun _ hall => hall) (fun h => nomatch h) he
  · have hold : p.engine? e = some engine →
        ∃ m₀ ∈ h ++ [⟨p, s, request⟩], ∃ p₀, m₀.mounted? = some (e, p₀) := fun he =>
      (hall he).imp fun _ hm₀ => hm₀.imp_left (List.mem_append_left _)
    rcases request.engines_effect p with hsame | ⟨vm, config, rfl⟩
    · rw [Page.engine?, hsame] at he
      exact hold he
    · rcases (Page.mounting p vm config).engine? he with he | ⟨hok, -⟩
      · exact hold he
      · exact ⟨_, List.mem_append_right _ (List.mem_singleton.2 rfl), (p.mount vm config).2,
          Moment.mounted?_of_ok rfl (Prod.ext hok rfl)⟩
  · rw [Page.engine?, (Page.recompiled p d).engines] at he
    exact hall he

-- Records in tables leave views alone.
theorem Page.Leads.orderly {permits : Request κ → Prop} {edits : TableId → Prop}
    {document : Document (Listener κ)} {entropy : Entropy} {q : Page κ}
    (h : Page.Leads permits edits { document, entropy } q) : q.Orderly :=
  h.keeps Orderly (fun hq hmove => hq.move hmove) (fun o key v hq => hq.write o key v)
    (fun _ _ _ hq => hq.grows (calm_modifyTable _ _ _).grows rfl)
    (orderly_of_document document entropy)

/-- **The baselines of a view** are the fields that its placeholders had when the view was
    mounted. -/
theorem Client.Lives.watchesSince {c : Client κ σ} {document : Document (Listener κ)}
    {entropy : Entropy} {s : σ} {prog : Program κ σ} {g : History κ σ} {m m₀ : Moment κ σ}
    (hl : c.Lives { document, entropy } s prog (g ++ [m])) (hm₀ : m₀ ∈ g) {e : EngineId}
    {p₀ : Page κ} (hmounted : m₀.mounted? = some (e, p₀)) {engine : Engine κ}
    (he : m.page.engine? e = some engine) {x : Compiler}
    (hx : m.page.compiler? engine.compiler = some x) :
    p₀.store.WatchesSince m.page.store engine.data (.render engine.compiler) x.template.slots
      x.watchers := by
  have hc : c.Within fun _ => True := fun cue => (c.respond cue).within_all
  have hleads : Page.Leads _ (fun _ => False) { document, entropy } m₀.page :=
    hl.leads hc prog.within_all (List.mem_append_left _ hm₀)
  have hsince : Page.Leads _ (fun _ => False) (m₀.request.effect m₀.page) m.page :=
    hl.leads_since hc prog.within_all trivial hm₀
  obtain ⟨vm, config, hrequest, hmount⟩ := Moment.mount_of_mounted? hmounted
  have hgrows := hsince.grows
  rw [hrequest] at hgrows
  change (m₀.page.mount vm config).2.Grows m.page at hgrows
  rw [hmount] at hgrows
  -- the view is the one that the mount has added, and its compiler has gone on from there
  obtain ⟨engine₀, y, he₀, hnew⟩ := Page.new_of_mount_ok hleads.orderly.sound hmount
  obtain rfl : engine₀ = engine := Option.some.inj ((hgrows.engine he₀).symm.trans he)
  obtain ⟨y', hy', hcont⟩ := hnew.toMounted.grows hgrows
  obtain rfl : y' = x := Option.some.inj (hy'.found.symm.trans hx)
  rw [hcont.template, hcont.watchers hnew.settled, ← hnew.data]
  exact hnew.since.grows hgrows.store

end ReactiveView
