import ReactiveView.Proofs.Page.Mounted
import ReactiveView.Proofs.Page.Tables
import ReactiveView.Proofs.Store.Written

/-!
# Several renders in a row

What a number of renders of one mounted view leave behind, all of them taken by the document or all
but the last.
-/

namespace ReactiveView.Page

variable {κ : Type}

/-- On the way from `p` to `p'` the view `e` rendered `n` times, drawing `ids`; the document took
    the first `k` of the renders and refused the others. -/
structure Rerendered (p : Page κ) (e : Engine κ) (x : Compiler) (n k : Nat) (ids : List String)
    (p' : Page κ) (x' : Compiler) : Prop where
  view : p'.Mounted e x'
  continues : x.Continues x'
  sound : p'.store.Sound
  store : p.store.SameData p'.store
  active : ∀ t, p'.store.active t = p.store.active t
  holds : ∀ {key v}, p.store.Holds x.data key v → p'.store.Holds x.data key v
  engines : p'.engines = p.engines
  renders : x'.renders = x.renders + n
  drawn : IdSource.Draws x.ids p.entropy ids x'.ids p'.entropy
  count : ids.length = if x.template.binding?.isSome then n else 0
  table : p'.table x.table =
    match x.template.binding? with
    | none => p.table x.table
    | some b => (p.table x.table).insertAll ids b
  refusals : p'.document.refusedWrites = p.document.refusedWrites.skip n
  element : ∀ {el}, p.document.element? x.root = some el →
    p'.document.element? x.root =
      some { el with
        markup := if k = 0 then el.markup else x'.lastMarkup, writes := el.writes + k }
  lastMarkup : x'.lastMarkup =
    if k = 0 then x.lastMarkup
    else x.template.render (fun key => (p'.store.field x.data key).display) ids[k - 1]?

theorem Rerendered.refl {p : Page κ} {e : Engine κ} {x : Compiler} (hm : p.Mounted e x)
    (hs : p.store.Sound) : p.Rerendered e x 0 0 [] p x := by
  refine ⟨hm, .refl x, hs, .refl _, fun _ => rfl, id, rfl, rfl, .none, ?_, ?_, rfl,
    fun h => h, rfl⟩
  · split <;> rfl
  · split <;> rfl

variable {p q : Page κ} {e : Engine κ} {x y : Compiler} {n : Nat} {ids : List String}

-- A read in between makes no difference.
theorem Rerendered.read (h : p.Rerendered e x n n ids q y) (key : String) :
    p.Rerendered e x n n ids { q with store := (q.store.get x.data key).2 } y := by
  have hdata := Store.sameData_get q.store x.data key
  have hcalm : q.Calm { q with store := (q.store.get x.data key).2 } :=
    ⟨hdata, fun h => h.get _ _, id, id, id, id⟩
  refine ⟨h.view.calm hcalm, h.continues, h.sound.get _ _, h.store.trans hdata,
    fun t => (Store.active_get _ _ _ t).trans (h.active t), fun hv => (h.holds hv).get key,
    h.engines, h.renders, h.drawn, h.count, h.table, h.refusals, h.element, ?_⟩
  have ho : (q.store.object? x.data).isSome := by
    rw [← h.continues.data]
    exact h.view.object
  rw [h.lastMarkup]
  exact if_congr Iff.rfl rfl ((hdata.alike ho).render x.template _).symm

-- What the template shows of the data does not depend on the renders.
theorem Rerendered.texts (h : p.Rerendered e x n n ids q y) {s : Store (Reaction κ)}
    (hs : q.store.SameData s) (id : Option String) :
    x.template.render (fun key => (s.field x.data key).display) id =
      x.template.render (fun key => (q.store.field x.data key).display) id := by
  have ho : (q.store.object? x.data).isSome := by
    rw [← h.continues.data]
    exact h.view.object
  exact (hs.alike ho).render x.template id

-- What a further render draws and records.
theorem Rerendered.recorded (h : p.Rerendered e x n n ids q y) {id : Option String}
    {markup : String} {result : Except DocumentError Unit} {q' : Page κ} {y' : Compiler}
    (hr : q.Rendered e.compiler y id markup result y' q') :
    IdSource.Draws x.ids p.entropy (ids ++ id.toList) y'.ids q'.entropy ∧
      (ids ++ id.toList).length = (if x.template.binding?.isSome then n + 1 else 0) ∧
      q'.table x.table =
        match x.template.binding? with
        | none => p.table x.table
        | some b => (p.table x.table).insertAll (ids ++ id.toList) b := by
  have hdrawn := hr.drawn
  have hcount := h.count
  have htable := h.table
  rw [h.continues.template] at hdrawn
  cases hb : x.template.binding? with
  | none =>
    simp only [hb] at hdrawn hcount htable
    obtain ⟨rfl, hids, hentropy, htables⟩ := hdrawn
    rw [Option.toList_none, List.append_nil, hids, hentropy]
    refine ⟨h.drawn, hcount, ?_⟩
    rw [Page.table, htables]
    exact htable
  | some b =>
    simp only [hb] at hdrawn hcount htable
    obtain ⟨i, rfl, hd, htables⟩ := hdrawn
    refine ⟨.ok h.drawn hd, ?_, ?_⟩
    · rw [List.length_append, hcount]
      rfl
    · have hthere := h.view.table
      rw [h.continues.table] at htables hthere
      rw [table_of_modify htables, if_pos ⟨rfl, hthere⟩, htable]
      exact (BindingTable.insertAll_concat _ _ _ _).symm

-- The part of a further render that does not depend on the document.
theorem Rerendered.after (h : p.Rerendered e x n n ids q y) (ht : y.template.isEmpty = false)
    {id : Option String} {markup : String} {result : Except DocumentError Unit} {q' : Page κ}
    {y' : Compiler} (hinit : y.initialized = true)
    (hr : q.Rendered e.compiler y id markup result y' q') (hview : q'.Mounted e y') {k : Nat}
    (helement : ∀ {el}, p.document.element? x.root = some el →
      q'.document.element? x.root =
        some { el with
          markup := if k = 0 then el.markup else y'.lastMarkup, writes := el.writes + k })
    (hlast : y'.lastMarkup = if k = 0 then x.lastMarkup
      else x.template.render (fun key => (q'.store.field x.data key).display)
        (ids ++ id.toList)[k - 1]?) :
    p.Rerendered e x (n + 1) k (ids ++ id.toList) q' y' := by
  have hcont := h.continues
  obtain ⟨hdrawn, hcount, htable⟩ := h.recorded hr
  have hrefusals := Document.refusedWrites_setMarkup q.document y.root markup
  rw [hr.document, h.refusals] at hrefusals
  have hrenders : y'.renders = y.renders + 1 := by rw [hr.frame]
  refine ⟨hview, hcont.trans (hr.continues ht), hr.sound h.sound, h.store.trans hr.store,
    fun t => (hr.active t).trans (h.active t), fun hv => ?_, hr.engines.trans h.engines, ?_,
    hdrawn, hcount, htable, hrefusals, helement, hlast⟩
  · rw [hr.reads hinit, hcont.data]
    exact (h.holds hv).getTexts _
  · rw [hrenders, h.renders, Nat.add_assoc]

-- The id of a further render is the last one that was drawn.
theorem Rerendered.lastDrawn (h : p.Rerendered e x n n ids q y) {c : CompilerId}
    {id : Option String} {markup : String} {result : Except DocumentError Unit} {q' : Page κ}
    {y' : Compiler} (hr : q.Rendered c y id markup result y' q') :
    (ids ++ id.toList)[n]? = id := by
  have hcount := h.count
  have hdrawn := hr.drawn
  rw [h.continues.template] at hdrawn
  cases hb : x.template.binding? with
  | none =>
    simp only [hb] at hdrawn hcount
    have hids : ids = [] := List.length_eq_zero_iff.1 (by simpa using hcount)
    rw [hids, hdrawn.1]
    rfl
  | some b =>
    simp only [hb] at hdrawn hcount
    obtain ⟨i, hi, -⟩ := hdrawn
    have hlength : ids.length = n := by simpa using hcount
    rw [hi, Option.toList_some, ← hlength, List.getElem?_concat_length]

/-- **One more render that the document takes.** -/
theorem Rerendered.taken (h : p.Rerendered e x n n ids q y) (ht : x.template.isEmpty = false)
    (hn : p.document.refusedWrites.refuses n = false) :
    ∃ ids' q' y', q.compile e.compiler = (.ok (), q') ∧
      p.Rerendered e x (n + 1) (n + 1) ids' q' y' := by
  have hty : y.template.isEmpty = false := by
    rw [h.continues.template]
    exact ht
  obtain ⟨hinit, id, markup, result, y', q', hrun, hr, hview⟩ := h.view.renders hty
  have hnext : q.document.refusedWrites.refusesNext = false := by
    rw [h.refusals]
    exact hn
  have hdoc := hr.document
  obtain rfl : result = .ok () := by
    rw [Document.setMarkup_of_taken hnext h.view.element] at hdoc
    exact (congrArg Prod.fst hdoc).symm
  have hmarkup : y'.lastMarkup = markup := hr.lastMarkup
  refine ⟨_, q', y', hrun, h.after hty hinit hr hview (fun {el} hel => ?_) ?_⟩
  · have hwritten := Document.element?_setMarkup_of_taken hnext (h.element hel) markup
    rw [← h.continues.root, hdoc, h.continues.root] at hwritten
    rw [hwritten, if_neg (Nat.succ_ne_zero n), hmarkup]
    rfl
  · rw [if_neg (Nat.succ_ne_zero n), Nat.add_sub_cancel, h.lastDrawn hr, hmarkup,
      hr.markup h.view.object, h.texts hr.store, h.continues.template, h.continues.data]

/-- **One more render that the document refuses.** -/
theorem Rerendered.refused (h : p.Rerendered e x n n ids q y) (ht : x.template.isEmpty = false)
    (hn : p.document.refusedWrites.refuses n = true) :
    ∃ ids' q' y', q.compile e.compiler = (.error (.document (.unknownElement x.root)), q') ∧
      p.Rerendered e x (n + 1) n ids' q' y' := by
  have hty : y.template.isEmpty = false := by
    rw [h.continues.template]
    exact ht
  obtain ⟨hinit, id, markup, result, y', q', hrun, hr, hview⟩ := h.view.renders hty
  have hnext : q.document.refusedWrites.refusesNext = true := by
    rw [h.refusals]
    exact hn
  have hdoc := hr.document
  rw [Document.setMarkup_of_refused hnext] at hdoc
  obtain rfl : result = .error (.unknownElement y.root) := (congrArg Prod.fst hdoc).symm
  have hmarkup : y'.lastMarkup = y.lastMarkup := hr.lastMarkup
  rw [h.continues.root] at hrun
  refine ⟨_, q', y', hrun, h.after hty hinit (h.continues.root ▸ hr) hview (fun {el} hel => ?_) ?_⟩
  · have hdocument := (congrArg Prod.snd hdoc).symm
    change q'.document = _ at hdocument
    rw [hdocument, hmarkup]
    exact h.element hel
  · rw [hmarkup, h.lastMarkup]
    by_cases h0 : n = 0
    · rw [if_pos h0, if_pos h0]
    · rw [if_neg h0, if_neg h0, ← h.texts hr.store]
      -- the id of the refused render is not among the first `n`
      refine congrArg (x.template.render _) ?_
      have hdrawn := hr.drawn
      rw [h.continues.template] at hdrawn
      have hcount := h.count
      cases hb : x.template.binding? with
      | none =>
        simp only [hb] at hdrawn
        rw [hdrawn.1, Option.toList_none, List.append_nil]
      | some b =>
        have hlength : ids.length = n := by simpa [hb] using hcount
        rw [List.getElem?_append_left (by omega)]

end ReactiveView.Page
