import ReactiveView.Proofs.Template.Attributes

/-!
# The attribute that is the binding site

The site of a template is the first attribute that is read inside a tag.  An attribute that stands
outside the tags can hide one that begins in its method, so that this need not be the first attribute
inside a tag, if such a method has the `<` of a tag in it.
-/

namespace ReactiveView

namespace BindingSite

variable {cs : List Char}

/-! ## 1. The search in a text -/

/-- In the text `cs` between `before` and `after` the attribute of `b` is read at the character
    number `n`, inside a tag. -/
def SiteIn (before cs after : List Char) (n : Nat) (b : Binding) : Prop :=
  Read cs n b ∧ InsideTag (before ++ cs.take n) (cs.drop (n + b.written.length) ++ after)

/-- From the character number `from` of a text on, `found` is the first site. -/
def FirstIn (segment : Nat) (before cs after : List Char) (start : Nat)
    (found : Option BindingSite) : Prop :=
  (∃ n b, start ≤ n ∧ found = some ⟨segment, n + b.written.length, b⟩ ∧
      SiteIn before cs after n b ∧
      ∀ m c, start ≤ m → m < n → ¬ SiteIn before cs after m c) ∨
    (found = none ∧ ∀ m c, start ≤ m → ¬ SiteIn before cs after m c)

theorem FirstIn.step {segment start : Nat} {before after : List Char}
    {found : Option BindingSite} (h : FirstIn segment before cs after (start + 1) found)
    (hnot : ∀ b, ¬ SiteIn before cs after start b) :
    FirstIn segment before cs after start found := by
  have hcases : ∀ {m c}, start ≤ m → (start + 1 ≤ m → ¬ SiteIn before cs after m c) →
      ¬ SiteIn before cs after m c := by
    intro m c hm hlater
    rcases Nat.eq_or_lt_of_le hm with rfl | hm
    · exact hnot c
    · exact hlater hm
  rcases h with ⟨n, b, hn, hfound, hsite, hfirst⟩ | ⟨hfound, hnone⟩
  · exact .inl ⟨n, b, by omega, hfound, hsite, fun m c hm hlt => hcases hm fun hm =>
      hfirst m c hm hlt⟩
  · exact .inr ⟨hfound, fun m c hm => hcases hm fun hm => hnone m c hm⟩

-- The attribute that the search comes across is read there.
theorem read_of_attributeAt? {done : List Char} {x : Attribute} (hscan : attributeAt? cs = some x)
    (hclear : Clear (done ++ cs) done.length) :
    Read (done ++ cs) done.length x.binding ∧ x.length = x.binding.written.length := by
  obtain ⟨hwritable, hfront, hx⟩ := written_of_attributeAt? hscan
  exact ⟨⟨⟨hwritable, by rwa [List.drop_left]⟩, hclear⟩, hx⟩

-- It is a site if the search finds itself inside a tag that is closed behind it.
theorem siteIn_iff_of_attributeAt? {before after done rest : List Char} {c : Char} {x : Attribute}
    (hscan : attributeAt? (c :: rest) = some x)
    (hclear : Clear (done ++ c :: rest) done.length) :
    SiteIn before (done ++ c :: rest) after done.length x.binding ↔
      (openAfterAll false (before ++ done) &&
        (rest.drop (x.length - 1) ++ after).contains '>') = true := by
  obtain ⟨hread, hx⟩ := read_of_attributeAt? hscan hclear
  have hpos := x.binding.length_written
  obtain ⟨k, hk⟩ := Nat.exists_eq_add_of_lt (show 0 < x.binding.written.length by omega)
  have hbehind : (done ++ c :: rest).drop (done.length + x.binding.written.length) =
      rest.drop (x.length - 1) := by
    rw [← List.drop_drop, List.drop_left, hx, hk]
    simp
  rw [Bool.and_eq_true, openAfterAll_iff, List.contains_iff_mem, SiteIn, InsideTag, hbehind,
    List.take_left]
  exact and_iff_right hread

theorem not_attributeAt_of_none {done : List Char} (hscan : attributeAt? cs = none)
    (b : Binding) : ¬ AttributeAt (done ++ cs) done.length b := by
  intro hb
  have hscanned := hb.scanned
  rw [List.drop_left, hscan] at hscanned
  cases hscanned

-- The invariant is that the first `skip` places are hidden and the one behind them is not.
theorem inText_first (segment : Nat) (before after done rest : List Char) (skip : Nat)
    (hhidden : ∀ k < skip, ¬ Clear (done ++ rest) (done.length + k))
    (hclear : Clear (done ++ rest) (done.length + skip)) :
    FirstIn segment before (done ++ rest) after done.length
      (inText segment after (openAfterAll false (before ++ done)) skip done.length rest) := by
  induction rest generalizing done skip with
  | nil =>
    refine .inr ⟨by cases skip <;> rfl, fun m c hm hsite => ?_⟩
    have hle := hsite.1.1.le_length
    have hpos := c.length_written
    rw [List.append_nil] at hle
    omega
  | cons c rest ih =>
    have hdone : done ++ c :: rest = (done ++ [c]) ++ rest := by simp
    have hlength : (done ++ [c]).length = done.length + 1 := by simp
    have hopen : openAfter (openAfterAll false (before ++ done)) c =
        openAfterAll false (before ++ (done ++ [c])) := by
      rw [← List.append_assoc, openAfterAll_concat]
    -- what the search does behind this place
    have hnext : ∀ skip,
        (∀ k < skip, ¬ Clear (done ++ c :: rest) (done.length + 1 + k)) →
        Clear (done ++ c :: rest) (done.length + 1 + skip) →
        FirstIn segment before (done ++ c :: rest) after (done.length + 1)
          (inText segment after (openAfter (openAfterAll false (before ++ done)) c) skip
            (done.length + 1) rest) := by
      intro skip hhidden hclear
      rw [hdone, ← hlength] at hhidden hclear
      have hrest := ih (done ++ [c]) skip hhidden hclear
      rwa [← hopen, ← hdone, hlength] at hrest
    cases skip with
    | succ skip =>
      refine (hnext skip (fun k hk => ?_) ?_).step fun b hsite => ?_
      · rw [show done.length + 1 + k = done.length + (k + 1) by omega]
        exact hhidden (k + 1) (by omega)
      · rwa [show done.length + 1 + skip = done.length + (skip + 1) by omega]
      · exact hhidden 0 (by omega) hsite.1.2
    | zero =>
      rw [inText]
      cases hscan : attributeAt? (c :: rest) with
      | none =>
        have hnone : ∀ b, ¬ AttributeAt (done ++ c :: rest) done.length b :=
          not_attributeAt_of_none hscan
        exact (hnext 0 (fun k hk => nomatch hk) (hclear.succ hnone)).step
          fun b hsite => hnone b hsite.1.1
      | some x =>
        obtain ⟨hread, hx⟩ := read_of_attributeAt? hscan hclear
        have hpos := x.binding.length_written
        have hinside : SiteIn before (done ++ c :: rest) after done.length x.binding ↔ _ :=
          siteIn_iff_of_attributeAt? hscan hclear
        dsimp only
        split
        · rename_i hsite
          exact .inl ⟨done.length, x.binding, Nat.le_refl _, by rw [hx], hinside.2 hsite,
            fun m b hm hlt => by omega⟩
        · rename_i hsite
          refine (hnext (x.length - 1) (fun k hk => ?_) ?_).step fun b hb => ?_
          · exact hread.not_clear (by omega) (by omega)
          · rw [show done.length + 1 + (x.length - 1) =
              done.length + x.binding.written.length by omega]
            exact hread.clear
          · obtain rfl := hb.1.1.unique hread.1
            exact hsite (hinside.1 hb)

/-! ## 2. The search among the segments -/

/-- Among segments behind `front` the attribute of `b` is read at the character number `p`, inside a
    tag. -/
def SiteAmong (front : List Char) (segments : List Segment) (p : Nat) (b : Binding) : Prop :=
  ∃ before t after n, segments = before ++ .text t :: after ∧
    p = (Segment.sources before).length + n ∧
    SiteIn (front ++ Segment.sources before) t.toList (Segment.sources after) n b

theorem siteAmong_cons {front : List Char} {x : Segment} {rest : List Segment} {p : Nat}
    {b : Binding} (h : SiteAmong front (x :: rest) p b) :
    (∃ t, x = .text t ∧ SiteIn front t.toList (Segment.sources rest) p b) ∨
      ∃ q, p = x.source.length + q ∧ SiteAmong (front ++ x.source) rest q b := by
  obtain ⟨before, t, after, n, he, hp, hsite⟩ := h
  cases before with
  | nil =>
    obtain ⟨hx, hrest⟩ := List.cons.inj he
    refine .inl ⟨t, hx, ?_⟩
    rw [hrest, hp]
    simpa [Segment.sources] using hsite
  | cons y before =>
    obtain ⟨hx, hrest⟩ := List.cons.inj he
    refine .inr ⟨(Segment.sources before).length + n, ?_, before, t, after, n, hrest, rfl, ?_⟩
    · rw [hp, hx, Segment.sources_cons, List.length_append, Nat.add_assoc]
    · rwa [hx, List.append_assoc, ← Segment.sources_cons]

/-- Among segments behind `front`, of which the first has the index `i`, `found` is the first
    site. -/
def FirstAmong (front : List Char) (i : Nat) (segments : List Segment)
    (found : Option BindingSite) : Prop :=
  (∃ before t after n b, segments = before ++ .text t :: after ∧
      found = some ⟨i + before.length, n + b.written.length, b⟩ ∧
      SiteIn (front ++ Segment.sources before) t.toList (Segment.sources after) n b ∧
      ∀ q c, q < (Segment.sources before).length + n → ¬ SiteAmong front segments q c) ∨
    (found = none ∧ ∀ q c, ¬ SiteAmong front segments q c)

theorem FirstAmong.step {front : List Char} {i : Nat} {x : Segment} {rest : List Segment}
    {found : Option BindingSite} (h : FirstAmong (front ++ x.source) (i + 1) rest found)
    (hnot : ∀ t, x = .text t → ∀ q c, ¬ SiteIn front t.toList (Segment.sources rest) q c) :
    FirstAmong front i (x :: rest) found := by
  have hlater : ∀ {q c}, SiteAmong front (x :: rest) q c →
      ∃ r, q = x.source.length + r ∧ SiteAmong (front ++ x.source) rest r c := by
    intro q c hsite
    rcases siteAmong_cons hsite with ⟨t, hx, hsite⟩ | hsite
    · exact (hnot t hx q c hsite).elim
    · exact hsite
  rcases h with ⟨before, t, after, n, b, he, hfound, hsite, hfirst⟩ | ⟨hfound, hnone⟩
  · refine .inl ⟨x :: before, t, after, n, b, by rw [he]; rfl, ?_, ?_, fun q c hq hsite => ?_⟩
    · rw [hfound, List.length_cons, Nat.add_assoc, Nat.add_comm 1]
    · rwa [Segment.sources_cons, ← List.append_assoc]
    · obtain ⟨r, rfl, hr⟩ := hlater hsite
      rw [Segment.sources_cons, List.length_append] at hq
      exact hfirst r c (by omega) hr
  · refine .inr ⟨hfound, fun q c hsite => ?_⟩
    obtain ⟨r, -, hr⟩ := hlater hsite
    exact hnone r c hr

/-- **The search finds the first attribute** that is read inside a tag. -/
theorem among_first (front : List Char) (i : Nat) (segments : List Segment) :
    FirstAmong front i segments (among (openAfterAll false front) i segments) := by
  induction segments generalizing front i with
  | nil =>
    refine .inr ⟨rfl, ?_⟩
    rintro q c ⟨before, t, after, n, he, -⟩
    simp at he
  | cons x rest ih =>
    have hrest := ih (front ++ x.source) (i + 1)
    rw [openAfterAll_append] at hrest
    cases x with
    | slot key => exact hrest.step fun t he => nomatch he
    | text t =>
      have hfirst := inText_first i front (Segment.sources rest) [] t.toList 0
        (fun k hk => nomatch hk) .zero
      rw [List.append_nil, List.nil_append, List.length_nil] at hfirst
      rw [among]
      rcases hfirst with ⟨n, b, -, hfound, hsite, hfirst⟩ | ⟨hfound, hnone⟩
      · refine .inl ⟨[], t, rest, n, b, rfl, by rw [hfound]; rfl, ?_, fun q c hq hq' => ?_⟩
        · simpa [Segment.sources] using hsite
        · have hlength := hsite.1.1.le_length
          rcases siteAmong_cons hq' with ⟨s, he, hq'⟩ | ⟨r, hr, -⟩
          · cases he
            exact hfirst q c (Nat.zero_le _) (by simpa [Segment.sources] using hq) hq'
          · simp [Segment.sources, Segment.source] at hq hr
            omega
      · rw [hfound, Option.none_or]
        refine hrest.step fun s he q c => ?_
        cases he
        exact hnone q c (Nat.zero_le _)

end BindingSite

/-! ## 3. The binding of a template -/

namespace Template

open BindingSite

/-- At the character number `p` of the source begins, in one text of the template, the attribute
    of `b`. -/
def OccursAt (source : String) (p : Nat) (b : Binding) : Prop :=
  ∃ before t after n, (parse source).segments = before ++ .text t :: after ∧
    p = (Segment.sources before).length + n ∧ AttributeAt t.toList n b

/-- The attribute of `b` at the character number `p` is read: it does not begin in one that is. -/
def ReadAt (source : String) (p : Nat) (b : Binding) : Prop :=
  ∃ before t after n, (parse source).segments = before ++ .text t :: after ∧
    p = (Segment.sources before).length + n ∧ Read t.toList n b

/-- The attribute of `b` at the character number `p` is inside a tag. -/
def InTag (source : String) (p : Nat) (b : Binding) : Prop :=
  InsideTag (source.toList.take p) (source.toList.drop (p + b.written.length))

/-- The attribute of `b` at `p` is the first one with a property. -/
def First (P : Nat → Binding → Prop) (p : Nat) (b : Binding) : Prop :=
  P p b ∧ ∀ q c, q < p → ¬ P q c

variable {source : String} {p q : Nat} {a b : Binding}

theorem ReadAt.occursAt (h : ReadAt source p b) : OccursAt source p b := by
  obtain ⟨before, t, after, n, he, hp, hread⟩ := h
  exact ⟨before, t, after, n, he, hp, hread.1⟩

theorem sources_parse (source : String) : Segment.sources (parse source).segments = source.toList :=
  (Segment.cut_ofSource source).lossless

theorem toList_eq_of_segments {before after : List Segment} {t : String}
    (he : (parse source).segments = before ++ .text t :: after) :
    source.toList = Segment.sources before ++ (t.toList ++ Segment.sources after) := by
  rw [← sources_parse, he, Segment.sources_append, Segment.sources_cons]
  rfl

-- The two sides of an attribute in the source.
theorem inTag_iff {before after : List Segment} {t : String} {n : Nat}
    (he : (parse source).segments = before ++ .text t :: after) (h : AttributeAt t.toList n b) :
    InTag source ((Segment.sources before).length + n) b ↔
      InsideTag (Segment.sources before ++ t.toList.take n)
        (t.toList.drop (n + b.written.length) ++ Segment.sources after) := by
  have hle := h.le_length
  rw [InTag, toList_eq_of_segments he, List.take_length_add_append,
    List.take_append_of_le_length (by omega), Nat.add_assoc, List.drop_length_add_append,
    List.drop_append_of_le_length hle]

theorem siteAmong_iff :
    SiteAmong [] (parse source).segments p b ↔ ReadAt source p b ∧ InTag source p b := by
  constructor
  · rintro ⟨before, t, after, n, he, rfl, hread, htag⟩
    exact ⟨⟨before, t, after, n, he, rfl, hread⟩, (inTag_iff he hread.1).2 htag⟩
  · rintro ⟨⟨before, t, after, n, he, rfl, hread⟩, htag⟩
    exact ⟨before, t, after, n, he, rfl, hread, (inTag_iff he hread.1).1 htag⟩

-- The site of a template, with its place in the source and in the segments.
theorem site_first (source : String) :
    (∃ before t after n b, (parse source).segments = before ++ .text t :: after ∧
        (parse source).site = some ⟨before.length, n + b.written.length, b⟩ ∧
        AttributeAt t.toList n b ∧
        First (fun q c => ReadAt source q c ∧ InTag source q c)
          ((Segment.sources before).length + n) b) ∨
      ((parse source).site = none ∧ ∀ q c, ¬ (ReadAt source q c ∧ InTag source q c)) := by
  rcases among_first [] 0 (parse source).segments with
    ⟨before, t, after, n, b, he, hfound, hsite, hfirst⟩ | ⟨hfound, hnone⟩
  · refine .inl ⟨before, t, after, n, b, he, ?_, hsite.1.1, ?_, fun q c hq hqc => ?_⟩
    · rw [Nat.zero_add] at hfound
      exact hfound
    · exact siteAmong_iff.1 ⟨before, t, after, n, he, rfl, hsite⟩
    · exact hfirst q c hq (siteAmong_iff.2 hqc)
  · exact .inr ⟨hfound, fun q c hqc => hnone q c (siteAmong_iff.2 hqc)⟩

-- An attribute that is not read begins in one that is.
theorem hidden_of_not_readAt (h : OccursAt source p b) (htag : InTag source p b)
    (hread : ¬ ReadAt source p b) :
    ∃ q a, ReadAt source q a ∧ q < p ∧ p < q + a.written.length ∧
      (InTag source q a ∨ '<' ∈ a.method.toList) := by
  obtain ⟨before, t, after, n, he, rfl, hb⟩ := h
  have hclear : ¬ Clear t.toList n :=
    fun hclear => hread ⟨before, t, after, n, he, rfl, hb, hclear⟩
  obtain ⟨m, a, ha, hmn, hlt⟩ := AttributeAt.hidden hclear
  refine ⟨(Segment.sources before).length + m, a, ⟨before, t, after, m, he, rfl, ha⟩, by omega,
    by omega, or_iff_not_imp_right.2 fun hmethod => ?_⟩
  have hside := (inTag_iff he hb).1 htag
  exact (inTag_iff he ha.1).2 (InsideTag.of_hidden ha.1 hb hmn hlt hmethod hside)

theorem OccursAt.attributeAt (h : OccursAt source p b) : AttributeAt source.toList p b := by
  obtain ⟨before, t, after, n, he, rfl, hb⟩ := h
  rw [toList_eq_of_segments he, ← List.append_assoc]
  exact hb.append _ _

-- One attribute at most begins at a character of the source.
theorem OccursAt.unique (h : OccursAt source p a) (h' : OccursAt source p b) : a = b :=
  h.attributeAt.unique h'.attributeAt

theorem binding?_eq_some_iff (source : String) (b : Binding) :
    (parse source).binding? = some b ↔
      ∃ p, First (fun q c => ReadAt source q c ∧ InTag source q c) p b := by
  rw [binding?]
  rcases site_first source with ⟨before, t, after, n, c, -, hsite, -, hfirst⟩ | ⟨hsite, hnone⟩
  · rw [hsite, Option.map_some, Option.some.injEq]
    constructor
    · rintro rfl
      exact ⟨_, hfirst⟩
    · rintro ⟨p, hp⟩
      rcases Nat.lt_trichotomy p ((Segment.sources before).length + n) with hlt | rfl | hgt
      · exact (hfirst.2 p b hlt hp.1).elim
      · exact hfirst.1.1.occursAt.unique hp.1.1.occursAt
      · exact (hp.2 _ c hgt hfirst.1).elim
  · rw [hsite, Option.map_none]
    constructor
    · intro h
      cases h
    · rintro ⟨p, hp⟩
      exact (hnone p b hp.1).elim

-- If an attribute is read inside a tag, there is a first one.
theorem exists_binding (h : ReadAt source p b ∧ InTag source p b) :
    ∃ c, (parse source).binding? = some c := by
  rcases site_first source with ⟨before, t, after, n, c, -, hsite, -, -⟩ | ⟨-, hnone⟩
  · exact ⟨c, by rw [binding?, hsite]; rfl⟩
  · exact (hnone p b h).elim

/-- **The binding is the first attribute that is read inside a tag.**  An attribute inside a tag
    that is not read begins in one that is, which is inside a tag itself or has the `<` of the tag in
    its method.  Where no attribute outside the tags has a `<` in its method, the binding is the first
    attribute inside a tag. -/
theorem binding_first_read (source : String) :
    (∀ b, (parse source).binding? = some b ↔
      ∃ p, First (fun q c => ReadAt source q c ∧ InTag source q c) p b) ∧
    (∀ p b, OccursAt source p b → InTag source p b → ¬ ReadAt source p b →
      ∃ q a, ReadAt source q a ∧ q < p ∧ p < q + a.written.length ∧
        (InTag source q a ∨ '<' ∈ a.method.toList)) ∧
    ((∀ q a, ReadAt source q a → '<' ∈ a.method.toList → InTag source q a) →
      ((parse source).binding?.isSome ↔ ∃ p b, OccursAt source p b ∧ InTag source p b) ∧
      ∀ b, (parse source).binding? = some b →
        ∃ p, First (fun q c => OccursAt source q c ∧ InTag source q c) p b) := by
  refine ⟨binding?_eq_some_iff source, fun p b => hidden_of_not_readAt, fun hopen => ?_⟩
  -- where there is an attribute inside a tag, one is read that is, not later
  have hread : ∀ {p b}, OccursAt source p b → InTag source p b →
      ∃ q c, q ≤ p ∧ ReadAt source q c ∧ InTag source q c := by
    intro p b hoccurs htag
    by_cases hb : ReadAt source p b
    · exact ⟨p, b, Nat.le_refl p, hb, htag⟩
    · obtain ⟨q, a, ha, hlt, -, hside⟩ := hidden_of_not_readAt hoccurs htag hb
      exact ⟨q, a, hlt.le, ha, hside.elim id (hopen q a ha)⟩
  refine ⟨⟨fun hsome => ?_, ?_⟩, fun b hb => ?_⟩
  · obtain ⟨b, hb⟩ := Option.isSome_iff_exists.1 hsome
    obtain ⟨p, ⟨hp, htag⟩, -⟩ := (binding?_eq_some_iff source b).1 hb
    exact ⟨p, b, hp.occursAt, htag⟩
  · rintro ⟨p, b, hoccurs, htag⟩
    obtain ⟨q, c, -, hc⟩ := hread hoccurs htag
    exact Option.isSome_iff_exists.2 (exists_binding hc)
  · obtain ⟨p, ⟨hp, htag⟩, hfirst⟩ := (binding?_eq_some_iff source b).1 hb
    refine ⟨p, ⟨hp.occursAt, htag⟩, fun q c hlt hqc => ?_⟩
    obtain ⟨r, a, hle, ha⟩ := hread hqc.1 hqc.2
    exact hfirst r a (by omega) ha

/-- An attribute outside the tags, with the begin of a tag in its method, hides the only one inside
    a tag. -/
theorem binding_hidden :
    (parse "<p>write @click=\"</p><b @click=\"go\">ok</b>").binding? = none ∧
      OccursAt "<p>write @click=\"</p><b @click=\"go\">ok</b>" 24 ⟨"click", "go"⟩ ∧
      InTag "<p>write @click=\"</p><b @click=\"go\">ok</b>" 24 ⟨"click", "go"⟩ := by
  refine ⟨by decide +kernel, ⟨[], "<p>write @click=\"</p><b @click=\"go\">ok</b>", [], 24,
    by decide +kernel, rfl, ⟨by decide, List.all_eq_true.1 (by decide), by decide⟩,
    by decide +kernel⟩, ?_, by decide +kernel⟩
  exact ⟨"<p>write @click=\"</p>".toList, "b ".toList, by decide +kernel, by decide +kernel⟩

theorem binding_first_read_of_one :
    (∀ q a, ReadAt "<i @a=\"x\" @b=\"y\">" q a → '<' ∈ a.method.toList →
      InTag "<i @a=\"x\" @b=\"y\">" q a) ∧
    ∃ p, First (fun q c => OccursAt "<i @a=\"x\" @b=\"y\">" q c ∧
      InTag "<i @a=\"x\" @b=\"y\">" q c) p ⟨"a", "x"⟩ := by
  have hopen : ∀ q a, ReadAt "<i @a=\"x\" @b=\"y\">" q a → '<' ∈ a.method.toList →
      InTag "<i @a=\"x\" @b=\"y\">" q a := by
    intro q a ha hmem
    -- there is a `<` in front only, and no method is there
    obtain ⟨after, hafter⟩ := ha.occursAt.attributeAt.2
    have hbehind : '<' ∈ ("<i @a=\"x\" @b=\"y\">".toList.drop q).tail := by
      rw [← hafter, Binding.written]
      simp [hmem]
    rw [List.tail_drop, Nat.add_comm, ← List.drop_drop] at hbehind
    have hnone : '<' ∉ "<i @a=\"x\" @b=\"y\">".toList.drop 1 := by decide
    exact (hnone (List.mem_of_mem_drop hbehind)).elim
  exact ⟨hopen, ((binding_first_read _).2.2 hopen).2 _ (by decide +kernel)⟩

end Template

end ReactiveView
