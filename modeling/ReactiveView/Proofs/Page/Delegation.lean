import ReactiveView.Proofs.BindingTable
import ReactiveView.Proofs.Document.Listeners
import ReactiveView.Proofs.Page.Leads
import ReactiveView.Proofs.Page.Mounted
import ReactiveView.Proofs.Page.Tables

/-!
# Delegated listeners

A bind attaches one delegated listener for each event type that the table has at that time.  From
then on neither tables nor listeners lose anything, and only three kinds of requests attach further
listeners.  A view binds the event type of its template when it is mounted, and all that its
compiler records later has that same event type.
-/

namespace ReactiveView

variable {κ : Type}

/-- The request attaches listeners to the element `root`, whose id is `id`. -/
def Request.AttachesTo (root : ElementId) (id : String) : Request κ → Prop
  | .perform (.listen e _ _) => e = root
  | .perform (.bind e _ _ _) => e = root
  | .perform (.mount _ config) => config.rootId = id
  | _ => False

-- Of several listeners that differ only in their types, an event reaches the one for its own type.
theorem Element.listenersFor_of_types {ℓ : Type} {el : Element ℓ} {types : List String} {l : ℓ}
    (h : el.listeners = types.map fun type => (type, l)) (hn : types.Nodup) (type : String) :
    el.listenersFor type = if type ∈ types then [l] else [] := by
  rw [listenersFor, h]
  clear h
  induction types with
  | nil => rfl
  | cons head types ih =>
    obtain ⟨hhead, hn⟩ := List.nodup_cons.1 hn
    by_cases htype : head = type
    · subst htype
      have hrest := ih hn
      rw [if_neg hhead] at hrest
      rw [if_pos List.mem_cons_self, List.map_cons, List.filter_cons_of_pos (by simp),
        List.map_cons, hrest]
    · have hmem : type ∈ head :: types ↔ type ∈ types :=
        ⟨fun h => (List.mem_cons.1 h).resolve_left fun e => htype e.symm, List.mem_cons_of_mem _⟩
      rw [List.map_cons, List.filter_cons_of_neg (by simpa using htype), ih hn]
      exact if_congr hmem.symm rfl rfl

namespace Page

/-! ## 1. Binding -/

section Bind

variable {p p' : Page κ} {root : ElementId} {t : TableId} {methods : Fields κ}
  {receiver : Receiver κ}

-- Where no registration is refused, each of the types gets its listener.
theorem bindTypes_ok {types : List String} {el : Element (Listener κ)}
    (h : p.bindTypes root t methods receiver types = (.ok (), p'))
    (hel : p.document.element? root = some el) :
    p'.document.element? root = some { el with
      listeners := el.listeners ++ types.map fun type => (type, .delegate t methods receiver) } := by
  induction types generalizing p el with
  | nil =>
    cases h
    rw [List.map_nil, List.append_nil]
    exact hel
  | cons type types ih =>
    rw [bindTypes] at h
    split at h
    · cases h
    · rename_i document hlisten
      have hfirst := Document.element?_listen_of_ok hlisten hel
      rw [ih h hfirst, List.map_cons, List.append_assoc]
      rfl

/-- **A bind** attaches one listener for each event type of the table, each of them once. -/
theorem bind_ok {types : List String} {el : Element (Listener κ)}
    (h : p.bind root t methods receiver = (.ok types, p'))
    (hel : p.document.element? root = some el) :
    types = (p.table t).eventTypes ∧ p'.document.element? root = some { el with
      listeners := el.listeners ++ types.map fun type => (type, .delegate t methods receiver) } := by
  rw [bind] at h
  split at h
  · cases h
  · rename_i q hrun
    cases h
    exact ⟨rfl, bindTypes_ok hrun hel⟩

theorem attached_bindTypes (p : Page κ) (root : ElementId) (t : TableId) (methods : Fields κ)
    (receiver : Receiver κ) (types : List String) :
    p.document.Attached (· = root) (p.bindTypes root t methods receiver types).2.document := by
  induction types generalizing p with
  | nil => exact .refl _ _
  | cons type types ih =>
    have hone := p.document.attached_listen root type (.delegate t methods receiver)
    rw [bindTypes]
    split
    · rename_i error document hl
      rwa [hl] at hone
    · rename_i document hl
      rw [hl] at hone
      exact hone.trans (ih { p with document })

theorem attached_bind (p : Page κ) (root : ElementId) (t : TableId) (methods : Fields κ)
    (receiver : Receiver κ) :
    p.document.Attached (· = root) (p.bind root t methods receiver).2.document := by
  rw [bind_snd]
  exact attached_bindTypes p root t methods receiver _

end Bind

/-! ## 2. What attaches listeners -/

-- A compile leaves the document alone, or writes into the element of its compiler.
theorem document_compile (p : Page κ) (c : CompilerId) :
    (p.compile c).2.document = p.document ∨ ∃ x markup, p.compiler? c = some x ∧
      (p.compile c).2.document = (p.document.setMarkup x.root markup).2 := by
  rcases compile_parts p c with h | ⟨x, y, hx, -, hs | ⟨id, markup, result, hr⟩⟩
  · exact .inl (by rw [h])
  · exact .inl hs.document
  · exact .inr ⟨x, markup, hx, by rw [hr.document]⟩

theorem attached_compile (busy : ElementId → Prop) (p : Page κ) (c : CompilerId) :
    p.document.Attached busy (p.compile c).2.document := by
  rcases document_compile p c with h | ⟨x, markup, -, h⟩
  · rw [h]
    exact .refl _ _
  · rw [h]
    exact Document.attached_setMarkup busy _ x.root markup

theorem attached_mount (p : Page κ) (vm : ViewModel κ) (config : Config) :
    p.document.Attached (fun e => p.document.byId? config.rootId = some e)
      (p.mount vm config).2.document := by
  have hcompiled : ∀ {root q result}, (p.staged vm config root).compile ⟨p.compilers.size⟩ =
      (result, q) → p.document.Attached (fun e => p.document.byId? config.rootId = some e)
        q.document := by
    intro root q result hcompile
    have hone := attached_compile (fun e => p.document.byId? config.rootId = some e)
      (p.staged vm config root) ⟨p.compilers.size⟩
    rwa [hcompile] at hone
  have hbound : ∀ {root result} {q q' : Page κ}, p.document.byId? config.rootId = some root →
      q.bind root ⟨p.tables.size⟩ vm.methods (p.stagedReceiver vm) = (result, q') →
        q.document.Attached (fun e => p.document.byId? config.rootId = some e) q'.document := by
    intro root result q q' hroot hbind
    have hone := attached_bind q root ⟨p.tables.size⟩ vm.methods (p.stagedReceiver vm)
    rw [hbind] at hone
    exact hone.mono fun e he => he ▸ hroot
  have hmount := mounting p vm config
  generalize p.mount vm config = mounted at hmount
  cases hmount with
  | homeless => exact .refl _ _
  | stopped _ hcompile => exact hcompiled hcompile
  | unbound hroot hcompile hbind => exact (hcompiled hcompile).trans (hbound hroot hbind)
  | done hroot hcompile hbind =>
    have hdone := (hcompiled hcompile).trans (hbound hroot hbind)
    exact hdone

/-- **Listeners are attached by the requests that say so**, and to no other elements. -/
theorem Move.attached {permits : Request κ → Prop} {p p' : Page κ} (h : p.Move permits p') :
    p.document.Attached (fun e => ∃ el request, p.document.element? e = some el ∧
      permits request ∧ request.AttachesTo e el.id) p'.document := by
  -- for a request that names its element
  have hnamed : ∀ {request root}, permits request → (∀ id, request.AttachesTo root id) →
      p.document.Attached (· = root) p'.document →
      p.document.Attached (fun e => ∃ el request, p.document.element? e = some el ∧
        permits request ∧ request.AttachesTo e el.id) p'.document := by
    intro request root hr ha hd e el hel
    obtain ⟨el', hel', hid, hpre, hsame⟩ := hd e el hel
    refine ⟨el', hel', hid, hpre, fun hn => hsame fun he => hn ?_⟩
    subst he
    exact ⟨el, request, hel, hr, ha el.id⟩
  cases h with
  | createElement id _ => exact Document.attached_create _ _ id
  | setMarkup e markup _ => exact Document.attached_setMarkup _ _ e markup
  | compile c _ => exact attached_compile _ p c
  | listen e type code hr => exact hnamed hr (fun _ => rfl) (Document.attached_listen _ e type _)
  | bind root t methods receiver hr =>
    exact hnamed hr (fun _ => rfl) (attached_bind p root t methods receiver)
  | mount vm config hr =>
    refine (attached_mount p vm config).mono fun e he => ?_
    obtain ⟨el, hel, hid⟩ := Document.element?_of_byId?_eq_some he
    exact ⟨el, _, hel, hr, hid.symm⟩
  | _ => exact Document.Attached.refl _ _

/-- The element `root` is there, with this id and just these listeners. -/
def HearsOnly (root : ElementId) (id : String) (listeners : List (String × Listener κ))
    (p : Page κ) : Prop :=
  ∃ el, p.document.element? root = some el ∧ el.id = id ∧ el.listeners = listeners

/-- **Nobody else listens**: while no request attaches listeners to an element, it keeps just those
    that it has. -/
theorem Leads.hearsOnly {edits : TableId → Prop} {p q : Page κ} {root : ElementId} {id : String}
    {listeners : List (String × Listener κ)}
    (h : p.Leads (fun request => ¬ request.AttachesTo root id) edits q)
    (hp : p.HearsOnly root id listeners) : q.HearsOnly root id listeners := by
  refine h.keeps (HearsOnly root id listeners) (fun {q q'} hq hmove => ?_) (fun _ _ _ hq => hq)
    (fun _ _ _ hq => hq) hp
  obtain ⟨el, hel, rfl, rfl⟩ := hq
  obtain ⟨el', hel', hid, -, hsame⟩ := hmove.attached root el hel
  refine ⟨el', hel', hid, hsame ?_⟩
  rintro ⟨x, request, hx, hpermit, hattach⟩
  rw [hel] at hx
  cases hx
  exact hpermit hattach

/-! ## 3. What tables hold -/

-- A compile leaves the tables alone, or records what its template binds.
theorem tables_compile (p : Page κ) (c : CompilerId) :
    (p.compile c).2.tables = p.tables ∨ ∃ x b id, p.compiler? c = some x ∧
      x.template.binding? = some b ∧
      (p.compile c).2.tables = p.tables.modify x.table.index fun t => t.insert id b := by
  rcases compile_parts p c with h | ⟨x, y, hx, -, hs | ⟨id, markup, result, hr⟩⟩
  · exact .inl (by rw [h])
  · exact .inl hs.tables
  · have hdrawn := hr.drawn
    split at hdrawn
    · exact .inl hdrawn.2.2.2
    · rename_i b hb
      obtain ⟨i, -, -, htables⟩ := hdrawn
      exact .inr ⟨x, b, i, hx, hb, htables⟩

-- A row of a table behind a compile was there before, or is what the compiler recorded.
theorem mem_rows_compile {p : Page κ} {c : CompilerId} {t : TableId} {row : String × Binding}
    (h : row ∈ ((p.compile c).2.table t).rows) :
    row ∈ (p.table t).rows ∨
      ∃ x, p.compiler? c = some x ∧ x.table = t ∧ x.template.binding? = some row.2 := by
  rcases tables_compile p c with htables | ⟨x, b, id, hx, hb, htables⟩
  · rw [table, htables] at h
    exact .inl h
  · rw [table_of_modify htables] at h
    split at h
    · rename_i hin
      rcases BindingTable.mem_rows_insert h with rfl | h
      · exact .inr ⟨x, hx, hin.1, hb⟩
      · exact .inl h
    · exact .inl h

-- No table loses an id.
theorem ids_subset_compile (p : Page κ) (c : CompilerId) (t : TableId) :
    (p.table t).ids ⊆ ((p.compile c).2.table t).ids := by
  rcases tables_compile p c with htables | ⟨x, b, id, -, -, htables⟩
  · rw [show (p.compile c).2.table t = p.table t by rw [table, htables]; rfl]
    exact List.Subset.refl _
  · rw [table_of_modify htables]
    split
    · exact (BindingTable.ids_prefix_insert _ _ _).subset
    · exact List.Subset.refl _

/-- Every row of a table carries the binding of a template whose compiler fills the table. -/
def Supplied (p : Page κ) : Prop :=
  ∀ {t row}, row ∈ (p.table t).rows →
    ∃ c x, p.compiler? c = some x ∧ x.table = t ∧ x.template.binding? = some row.2

theorem Supplied.calm {p p' : Page κ} (h : p.Supplied) (hc : p.Calm p')
    (ht : ∀ t, p'.table t = p.table t) : p'.Supplied := by
  intro t row hrow
  rw [ht] at hrow
  obtain ⟨c, x, hx, hrest⟩ := h hrow
  exact ⟨c, x, hc.compiler hx, hrest⟩

theorem Supplied.compile {p : Page κ} (h : p.Supplied) (c : CompilerId) :
    (p.compile c).2.Supplied := by
  intro t row hrow
  have hfrom : ∃ d x, p.compiler? d = some x ∧ x.table = t ∧ x.template.binding? = some row.2 := by
    rcases mem_rows_compile hrow with hrow | hnew
    · exact h hrow
    · exact ⟨c, hnew⟩
  obtain ⟨d, x, hx, htable, hbinding⟩ := hfrom
  obtain ⟨x', hx', hcont⟩ := (recompiled p c).grows.compiler hx
  exact ⟨d, x', hx', hcont.table.trans htable, by rw [hcont.template]; exact hbinding⟩

theorem Move.supplied {permits : Request κ → Prop} {p p' : Page κ} (h : p.Move permits p')
    (hp : p.Supplied) : p'.Supplied :=
  h.of_calm Supplied Supplied.calm Supplied.compile hp

theorem ids_subset_mount (p : Page κ) (vm : ViewModel κ) (config : Config) (t : TableId) :
    (p.table t).ids ⊆ ((p.mount vm config).2.table t).ids :=
  mount_of_calm (fun q => (p.table t).ids ⊆ (q.table t).ids)
    (fun h _ ht => by rw [ht]; exact h)
    (fun h _ => List.Subset.trans h (ids_subset_compile _ _ t)) (List.Subset.refl _) vm config

theorem Move.ids_subset {permits : Request κ → Prop} {p p' : Page κ} (h : p.Move permits p')
    (t : TableId) : (p.table t).ids ⊆ (p'.table t).ids :=
  h.of_calm (fun q => (p.table t).ids ⊆ (q.table t).ids)
    (fun h _ ht => by rw [ht]; exact h)
    (fun h _ => List.Subset.trans h (ids_subset_compile _ _ t)) (List.Subset.refl _)

/-! ## 4. Views that hear of their events -/

/-- The view `e`, whose compiler is now `x`, has all that its compiler drew in its table, and a
    listener for the event type of its template. -/
structure Heard (p : Page κ) (e : Engine κ) (x : Compiler) : Prop where
  found : p.compiler? e.compiler = some x
  hasTable : p.HasTable x.table
  drawn : ∀ {id}, x.lastId = some id → id ∈ (p.table x.table).ids
  listens : ∀ {b}, x.template.binding? = some b → b.eventType ∈ e.boundTypes ∧
    ∃ el, p.document.element? e.root = some el ∧
      (b.eventType, .delegate x.table e.receiver.methods e.receiver) ∈ el.listeners

/-- Every view of the page is heard. -/
def Attentive (p : Page κ) : Prop :=
  ∀ {e engine}, p.engine? e = some engine → ∃ x, p.Heard engine x

-- The listeners of a view stay when others come.
theorem Heard.listens_of_attached {p p' : Page κ} {e : Engine κ} {x x' : Compiler}
    {busy : ElementId → Prop} (h : p.Heard e x) (hc : x.Continues x')
    (ha : p.document.Attached busy p'.document) {b : Binding}
    (hb : x'.template.binding? = some b) : b.eventType ∈ e.boundTypes ∧
      ∃ el, p'.document.element? e.root = some el ∧
        (b.eventType, .delegate x'.table e.receiver.methods e.receiver) ∈ el.listeners := by
  rw [hc.template] at hb
  obtain ⟨htype, el, hel, hmem⟩ := h.listens hb
  obtain ⟨el', hel', -, hpre, -⟩ := ha _ _ hel
  rw [hc.table]
  exact ⟨htype, el', hel', hpre.subset hmem⟩

theorem Heard.calm {p p' : Page κ} {e : Engine κ} {x : Compiler} {busy : ElementId → Prop}
    (h : p.Heard e x) (hc : p.Calm p') (hids : (p.table x.table).ids ⊆ (p'.table x.table).ids)
    (ha : p.document.Attached busy p'.document) : p'.Heard e x :=
  ⟨hc.compiler h.found, hc.hasTable h.hasTable, fun hid => hids (h.drawn hid),
    fun hb => h.listens_of_attached (.refl x) ha hb⟩

-- What a compile draws goes into the table.
theorem Rendered.mem_ids {p p' : Page κ} {c : CompilerId} {x x' : Compiler} {id : String}
    {markup : String} {result : Except DocumentError Unit}
    (h : p.Rendered c x (some id) markup result x' p') (ht : p.HasTable x.table) :
    ∃ b, x.template.binding? = some b ∧ (id, b) ∈ (p'.table x.table).rows := by
  have hdrawn := h.drawn
  split at hdrawn
  · exact nomatch hdrawn.1
  · rename_i b hb
    obtain ⟨i, hi, -, htables⟩ := hdrawn
    cases hi
    refine ⟨b, hb, ?_⟩
    rw [table_of_modify htables, if_pos ⟨rfl, ht⟩]
    exact BindingTable.mem_rows_insert_self _ _ _

theorem Heard.compile {p : Page κ} {e : Engine κ} {x : Compiler} (h : p.Heard e x)
    (c : CompilerId) : ∃ x', (p.compile c).2.Heard e x' := by
  have hre := recompiled p c
  obtain ⟨x', hx', hcont⟩ := hre.grows.compiler h.found
  refine ⟨x', hx', ?_, fun {id} hid => ?_,
    fun hb => h.listens_of_attached hcont (attached_compile (fun _ => False) p c) hb⟩
  · rw [hcont.table]
    exact hre.hasTable h.hasTable
  · rw [hcont.table]
    by_cases hc : e.compiler = c
    · subst hc
      have hold : x'.lastId = x.lastId → id ∈ ((p.compile e.compiler).2.table x.table).ids := by
        intro hlast
        rw [hlast] at hid
        exact ids_subset_compile p e.compiler _ (h.drawn hid)
      rcases compile_found h.found with hidle | ⟨-, y, hs | ⟨drawn, markup, result, hr⟩⟩
      · rw [hidle, h.found] at hx'
        cases hx'
        exact hold rfl
      · obtain rfl : y = x' := Option.some.inj (hs.compiler.symm.trans hx')
        exact hold (by rw [hs.frame])
      · obtain rfl : y = x' := Option.some.inj (hr.compiler.symm.trans hx')
        have hlast : y.lastId = drawn.or x.lastId := by rw [hr.frame]
        cases drawn with
        | none => exact hold hlast
        | some i =>
          rw [hid] at hlast
          cases hlast
          obtain ⟨b, -, hrow⟩ := hr.mem_ids h.hasTable
          exact List.mem_map_of_mem hrow
    · rw [hre.others _ hc, h.found] at hx'
      cases hx'
      exact ids_subset_compile p c _ (h.drawn hid)

-- The first compile of a view records the binding of the template under the id that it draws.
theorem recorded_staged {p q : Page κ} {vm : ViewModel κ} {config : Config} {root : ElementId}
    {x : Compiler}
    (hcompile : (p.staged vm config root).compile ⟨p.compilers.size⟩ = (.ok (), q))
    (hfound : q.compiler? ⟨p.compilers.size⟩ = some x) :
    (∀ {id}, x.lastId = some id → id ∈ (q.table x.table).ids) ∧
      ∀ {b}, x.template.binding? = some b → ∃ row ∈ (q.table x.table).rows, row.2 = b := by
  have hx := compiler?_staged p vm config root
  obtain ⟨y, hy, hcont⟩ :=
    (recompiled (p.staged vm config root) ⟨p.compilers.size⟩).continues hx
  rw [hcompile] at hy
  obtain rfl : y = x := Option.some.inj (hy.symm.trans hfound)
  cases ht : (p.stagedCompiler vm config root).template.isEmpty with
  | true =>
    rw [compile_of_isEmpty hx ht] at hcompile
    cases hcompile
    rw [hx] at hfound
    cases hfound
    refine ⟨fun hid => ?_, fun hb => ?_⟩
    · cases hid
    · rw [show (p.stagedCompiler vm config root).template.binding? = none from
        (Template.of_isEmpty ht).2] at hb
      cases hb
  | false =>
    obtain ⟨drawn, markup, z, hr⟩ := rendered_of_ok hx ht hcompile
    obtain rfl : z = y := Option.some.inj (hr.compiler.symm.trans hfound)
    obtain ⟨hlast, hbound⟩ := hr.lastId fun _ => rfl
    rw [Compiler.Bound, hlast] at hbound
    rw [hlast]
    cases drawn with
    | none =>
      refine ⟨fun hid => ?_, fun hb => ?_⟩
      · cases hid
      · rw [hb] at hbound
        cases hbound
    | some i =>
      obtain ⟨b, hb, hrow⟩ := hr.mem_ids (hasTable_staged p vm config root)
      rw [hcont.table, hcont.template]
      refine ⟨fun hid => ?_, fun hb' => ?_⟩
      · cases hid
        exact List.mem_map_of_mem hrow
      · rw [hb] at hb'
        cases hb'
        exact ⟨_, hrow, rfl⟩

-- A view that has just been mounted.
theorem heard_mount {p q q' : Page κ} {vm : ViewModel κ} {config : Config} {root : ElementId}
    {types : List String} (hroot : p.document.byId? config.rootId = some root)
    (hcompile : (p.staged vm config root).compile ⟨p.compilers.size⟩ = (.ok (), q))
    (hbind : q.bind root ⟨p.tables.size⟩ vm.methods (p.stagedReceiver vm) = (.ok types, q')) :
    ∃ x, q'.Heard (p.stagedEngine vm root types) x := by
  have hx := compiler?_staged p vm config root
  have hre := recompiled (p.staged vm config root) ⟨p.compilers.size⟩
  rw [hcompile] at hre
  obtain ⟨x, hfound, hcont⟩ := hre.continues hx
  have hstill := still_bind q root ⟨p.tables.size⟩ vm.methods (p.stagedReceiver vm)
  rw [hbind] at hstill
  obtain ⟨el₀, hel₀, -⟩ := Document.element?_of_byId?_eq_some hroot
  obtain ⟨el, hel, -, -, -⟩ := attached_compile (fun _ => False) (p.staged vm config root)
    ⟨p.compilers.size⟩ root el₀ hel₀
  rw [hcompile] at hel
  obtain ⟨rfl, hel'⟩ := bind_ok hbind hel
  have htable : q.HasTable x.table := by
    rw [hcont.table]
    exact hre.hasTable (hasTable_staged p vm config root)
  obtain ⟨hdrawn, hrow⟩ := recorded_staged hcompile hfound
  refine ⟨x, ?_, hstill.hasTable htable, fun hid => ?_, fun {b} hb => ?_⟩
  · show q'.compilers.get? _ = _
    rw [hstill.compilers]
    exact hfound
  · rw [hstill.table]
    exact hdrawn hid
  · obtain ⟨row, hmem, rfl⟩ := hrow hb
    have htype : row.2.eventType ∈ (q.table ⟨p.tables.size⟩).eventTypes :=
      BindingTable.mem_eventTypes.2 ⟨row, by rwa [hcont.table] at hmem, rfl⟩
    refine ⟨htype, _, hel', List.mem_append_right _ ?_⟩
    rw [hcont.table]
    exact List.mem_map_of_mem htype

theorem Attentive.mount {p : Page κ} (h : p.Attentive) (vm : ViewModel κ) (config : Config) :
    (p.mount vm config).2.Attentive := by
  intro e engine he
  rcases (mounting p vm config).engine? he with he | ⟨-, root, q, types, q', hroot, hcompile,
    hbind, rfl, hmounted⟩
  · obtain ⟨x, hx⟩ := h he
    exact ⟨x, hx.calm (calm_mount p vm config) (ids_subset_mount p vm config _)
      (attached_mount p vm config)⟩
  · obtain ⟨x, hx⟩ := heard_mount hroot hcompile hbind
    rw [hmounted]
    exact ⟨x, hx.calm (calm_engine q' _) (List.Subset.refl _) (.refl (fun _ => False) _)⟩

/-- **Views go on hearing of their events.** -/
theorem Move.attentive {permits : Request κ → Prop} {p p' : Page κ} (h : p.Move permits p')
    (hp : p.Attentive) : p'.Attentive := by
  rcases h.engines_or_mount with hengines | ⟨vm, config, -, rfl⟩
  · intro e engine he
    rw [engine?, hengines] at he
    obtain ⟨x, hx⟩ := hp he
    rcases h.calm_or_compile with hcalm | ⟨c, rfl⟩
    · exact ⟨x, hx.calm hcalm (h.ids_subset _) h.attached⟩
    · exact hx.compile c
  · exact hp.mount vm config

/-- **What is recorded is listened for.**  Wherever a page without views leads, the rows of the
    table of a view that fills it alone carry what its template binds, and the view has a listener
    for that. -/
theorem Leads.heard {permits : Request κ → Prop} {document : Document (Listener κ)}
    {entropy : Entropy} {q : Page κ}
    (h : Leads permits (fun _ => False) { document, entropy } q) : q.Supplied ∧ q.Attentive :=
  h.all (fun q => q.Supplied ∧ q.Attentive)
    (fun hq hmove => ⟨hmove.supplied hq.1, hmove.attentive hq.2⟩)
    (fun _ _ _ hq => ⟨hq.1, fun he => (hq.2 he).imp fun _ hx =>
      ⟨hx.found, hx.hasTable, hx.drawn, hx.listens⟩⟩)
    ⟨(fun h => nomatch h), fun h => nomatch h⟩

end Page

end ReactiveView
