import ReactiveView.Proofs.Client.Effects

/-!
# Pages that lead to one another

A page becomes another one by moves and writes, and by records that somebody who holds a binding
table makes in it.  The pages between two calls of client code are among those, so that what is said
of every page that one leads to is said of every moment of the histories that begin there.
-/

namespace ReactiveView

variable {κ σ : Type}

/-! ## 1. Pages that can be reached from others -/

/-- The page `p` can become the other one by permitted moves and writes, and by records in the
    tables in `edits`. -/
inductive Page.Leads (permits : Request κ → Prop) (edits : TableId → Prop) (p : Page κ) :
    Page κ → Prop where
  | refl : Leads permits edits p p
  | move {q q'} (h : Leads permits edits p q) (hq : q.Move permits q') : Leads permits edits p q'
  | write {q o key v} (h : Leads permits edits p q) (hv : permits (.perform (.set o key v))) :
    Leads permits edits p { q with store := q.store.write o key v }
  | record {q t} (id : String) (b : Binding) (h : Leads permits edits p q) (ht : edits t) :
    Leads permits edits p (q.modifyTable t fun table => table.insert id b)

variable {permits : Request κ → Prop} {edits : TableId → Prop} {p q : Page κ}

/-- **What moves, writes and records keep** holds of every page that one leads to. -/
theorem Page.Leads.keeps (h : p.Leads permits edits q) (inv : Page κ → Prop)
    (hmove : ∀ {q q'}, inv q → q.Move permits q' → inv q')
    (hwrite : ∀ {q} o key v, inv q → inv { q with store := q.store.write o key v })
    (hrecord : ∀ {q t} id b, edits t → inv q →
      inv (q.modifyTable t fun table => table.insert id b))
    (hp : inv p) : inv q := by
  induction h with
  | refl => exact hp
  | move _ hq ih => exact hmove ih hq
  | write _ _ ih => exact hwrite _ _ _ ih
  | record id b _ ht ih => exact hrecord id b ht ih

-- The case in which nobody records anything.
theorem Page.Leads.all (h : p.Leads permits (fun _ => False) q) (inv : Page κ → Prop)
    (hmove : ∀ {q q'}, inv q → q.Move permits q' → inv q')
    (hwrite : ∀ {q} o key v, inv q → inv { q with store := q.store.write o key v })
    (hp : inv p) : inv q :=
  h.keeps inv hmove hwrite (fun _ _ ht => ht.elim) hp

/-- **What changes and writes keep of a store** holds of every page that an empty one leads to. -/
theorem Page.Leads.course {inv : Store (Reaction κ) → Prop}
    {R : (ObjectId → String → Prop) → Store (Reaction κ) → Store (Reaction κ) → Prop}
    (d : Course permits inv R) {document : Document (Listener κ)} {entropy : Entropy}
    (h : Page.Leads permits edits { document, entropy } q) : inv q.store := by
  induction h with
  | refl => exact d.empty
  | move _ hq ih => exact hq.reaches.keeps inv (fun hc hs => d.change hc.observed hs) ih
  | write _ hv ih => exact d.write hv ih
  | record _ _ _ _ ih => exact ih

/-- **Nothing is removed** on the way. -/
theorem Page.Leads.grows (h : p.Leads permits edits q) : p.Grows q :=
  h.keeps p.Grows (fun hq hmove => hq.trans hmove.grows)
    (fun o key v hq => hq.trans (Page.grows_write _ o key v))
    (fun _ _ _ hq => hq.trans (Page.calm_modifyTable _ _ _).grows) (Page.Calm.refl p).grows

/-- **A history leads to its moments.** -/
theorem Client.Lives.leads {c : Client κ σ} {start : Page κ} {s : σ} {prog : Program κ σ}
    {h : History κ σ} (hl : c.Lives start s prog h) (hc : c.Within permits)
    (hp : prog.Within permits) {m : Moment κ σ} (hm : m ∈ h) :
    start.Leads permits edits m.page :=
  hl.all (fun q => start.Leads permits edits q) hc hp (fun hq hmove => hq.move hmove)
    (fun hv hq => hq.write hv) .refl m hm

/-! ## 2. From one moment to another -/

-- The effect of an operation is a few moves, or a write.
theorem Operation.leads_effect {op : Operation κ} (h : permits (.perform op))
    (hl : p.Leads permits edits q) : p.Leads permits edits (op.effect q) := by
  cases op with
  | observe v tree =>
    cases v with
    | object fields =>
      cases tree with
      | none => exact hl.move (.wrap fields h)
      | some t => exact hl.move (.wrapIn t fields h)
    | _ => exact hl
  | get o key => exact hl.move (.read o key)
  | set o key v => exact hl.write h
  | watch o key code => exact hl.move (.watch o key code h)
  | newRegistry => exact hl.move (.newRegistry h)
  | register r w => exact hl.move (.register r w h)
  | createElement id => exact hl.move (.createElement id h)
  | setMarkup e markup => exact hl.move (.setMarkup e markup h)
  | listen e type code => exact hl.move (.listen e type code h)
  | refuse writes listens => exact hl.move (.refuse writes listens h)
  | newCompiler template data root ids table =>
    cases table with
    | none =>
      have htable := hl.move (.newTable ⟨template, data, root, ids, h⟩)
      exact htable.move (.newCompiler template data root ids none _ h)
    | some t => exact hl.move (.newCompiler template data root ids (some t) t h)
  | compile c => exact hl.move (.compile c (.inl h))
  | bind root t methods receiver => exact hl.move (.bind root t methods receiver h)
  | mount vm config => exact hl.move (.mount vm config h)
  | _ => exact hl

theorem Request.leads_effect {request : Request κ} (h : permits request)
    (hl : p.Leads permits edits q) : p.Leads permits edits (request.effect q) := by
  cases request with
  | perform op => exact Operation.leads_effect h hl
  | finish => exact hl
  | collect t w =>
    rw [effect]
    rcases Store.Change.begin_cases q.store t w with hsame | ⟨hactive, hbegun⟩
    · rw [hsame]
      exact hl
    · rw [hbegun]
      exact hl.move (.occupy t w h hactive)

/-- **What a moment leaves behind leads to every later moment.** -/
theorem Client.Lives.leads_since {c : Client κ σ} {start : Page κ} {s : σ} {prog : Program κ σ}
    {g : History κ σ} {m : Moment κ σ} (hl : c.Lives start s prog (g ++ [m]))
    (hc : c.Within permits) (hp : prog.Within permits) (hfinish : permits .finish)
    {m₀ : Moment κ σ} (hm₀ : m₀ ∈ g) :
    (m₀.request.effect m₀.page).Leads permits edits m.page := by
  refine hl.follows
    (fun p h => ∀ m₀ ∈ h, (m₀.request.effect m₀.page).Leads permits edits p) hc hp hfinish
    (fun {p h s request} hr hall m₁ hm₁ => ?_)
    (fun o key hall m₁ hm₁ => (hall m₁ hm₁).move (.read o key))
    (fun hall hx hy m₁ hm₁ => (hall m₁ hm₁).move (.compile _ (.inr ⟨_, _, hx, hy⟩)))
    (fun hr hall m₁ hm₁ => (hall m₁ hm₁).move (.vacate _ _ hr)) (fun _ h => nomatch h) m₀ hm₀
  rcases List.mem_append.1 hm₁ with hm₁ | hm₁
  · exact Request.leads_effect hr (hall m₁ hm₁)
  · rw [List.mem_singleton.1 hm₁]
    exact .refl

end ReactiveView
