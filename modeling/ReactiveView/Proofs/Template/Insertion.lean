import ReactiveView.Template

/-!
# Where an id is inserted

A template that is filled with an id is the template filled without one, with the attribute of the
id inserted behind the binding attribute.  Everything else that is written, texts included, is copied
as it is, so that the place depends on the texts but not on the id: markup with an id has a front and
a back that are the same for all ids.
-/

namespace ReactiveView

/-! ## 1. The segment of a binding site -/

namespace BindingSite

theorem segment_of_inText {segment : Nat} {after : List Char} {isOpen : Bool} {skip offset : Nat}
    {cs : List Char} {site : BindingSite}
    (h : inText segment after isOpen skip offset cs = some site) : site.segment = segment := by
  induction cs generalizing isOpen skip offset with
  | nil => cases skip <;> cases h
  | cons c rest ih =>
    cases skip with
    | succ skip => exact ih h
    | zero =>
      rw [inText] at h
      split at h
      · split at h
        · cases h
          rfl
        · exact ih h
      · exact ih h

-- A site lies in a literal text.
theorem text_of_among {isOpen : Bool} {i : Nat} {segments : List Segment} {site : BindingSite}
    (h : among isOpen i segments = some site) :
    i ≤ site.segment ∧ ∃ text, segments[site.segment - i]? = some (.text text) := by
  induction segments generalizing isOpen i with
  | nil => cases h
  | cons segment rest ih =>
    -- a site in the rest
    have hrest : ∀ {isOpen}, among isOpen (i + 1) rest = some site →
        i ≤ site.segment ∧ ∃ text, (segment :: rest)[site.segment - i]? = some (.text text) := by
      intro isOpen h
      obtain ⟨hle, text, htext⟩ := ih h
      refine ⟨by omega, text, ?_⟩
      rw [show site.segment - i = site.segment - (i + 1) + 1 by omega]
      exact htext
    cases segment with
    | slot key => exact hrest h
    | text t =>
      rcases Option.or_eq_some_iff.1 h with h | ⟨-, h⟩
      · have hsegment := segment_of_inText h
        exact ⟨Nat.le_of_eq hsegment.symm, t, by rw [hsegment, Nat.sub_self]; rfl⟩
      · exact hrest h

end BindingSite

namespace Template

/-! ## 2. Insertion -/

/-- How many characters of the markup come before an id that is inserted at `site`. -/
def offsetFrom (site : BindingSite) : (i : Nat) → List Segment → List String → Nat
  | _, [], _ => 0
  | i, .text text :: rest, texts =>
    if site.segment = i then (text.toList.take site.stop).length
    else text.toList.length + offsetFrom site (i + 1) rest texts
  | i, .slot _ :: rest, text :: texts => text.toList.length + offsetFrom site (i + 1) rest texts
  | i, .slot _ :: rest, [] => offsetFrom site (i + 1) rest []

/-- How many characters come before the id if `texts` are in the place of the placeholders. -/
def idOffset (t : Template) (texts : List String) : Nat :=
  match t.site with
  | none => 0
  | some site => offsetFrom site 0 t.segments texts

variable {t : Template} {site : BindingSite}

theorem textAt_none (t : Template) (i : Nat) (text : String) : t.textAt none i text = text := by
  unfold textAt
  split
  · contradiction
  · rfl

theorem textAt_of_ne (hsite : t.site = some site) {i : Nat} (h : site.segment ≠ i)
    (id : Option String) (text : String) : t.textAt id i text = text := by
  cases id with
  | none => exact t.textAt_none i text
  | some id => simp only [textAt, hsite, if_neg h]

theorem toList_textAt (hsite : t.site = some site) (id text : String) :
    (t.textAt (some id) site.segment text).toList = text.toList.take site.stop ++
      (' ' :: 'i' :: 'd' :: '=' :: (id.toList ++ text.toList.drop site.stop)) := by
  have hname : " id=".toList = [' ', 'i', 'd', '='] := by decide
  simp only [textAt, hsite, if_pos, String.toList_append, String.toList_ofList, hname,
    List.append_assoc, List.cons_append, List.nil_append]

-- Behind its site an id makes no difference.
theorem fillFrom_of_lt (hsite : t.site = some site) (id : Option String) {i : Nat}
    (h : site.segment < i) (segments : List Segment) (texts : List String) :
    t.fillFrom id i segments texts = t.fillFrom none i segments texts := by
  induction segments generalizing i texts with
  | nil => rfl
  | cons segment rest ih =>
    have hrest := fun texts => ih (i := i + 1) (by omega) texts
    cases segment with
    | text text =>
      rw [fillFrom, fillFrom, textAt_none, textAt_of_ne hsite (by omega), hrest]
    | slot key =>
      cases texts with
      | nil => rw [fillFrom, fillFrom, hrest]
      | cons text texts => rw [fillFrom, fillFrom, hrest]

-- The filled segments from index `i` on, with an id and without one.
theorem fillFrom_insert (hsite : t.site = some site) (id : String) {i : Nat}
    {segments : List Segment} {texts : List String} (hle : i ≤ site.segment)
    (htext : ∃ text, segments[site.segment - i]? = some (.text text)) :
    ∃ before after, before.length = offsetFrom site i segments texts ∧
      (t.fillFrom none i segments texts).toList = before ++ after ∧
      (t.fillFrom (some id) i segments texts).toList =
        before ++ (' ' :: 'i' :: 'd' :: '=' :: (id.toList ++ after)) := by
  induction segments generalizing i texts with
  | nil =>
    obtain ⟨text, htext⟩ := htext
    cases htext
  | cons segment rest ih =>
    -- what stands in front of the segment with the site is the same with the id and without it
    have hfront : ∀ (front : String) (texts : List String),
        (i < site.segment → ∃ text, rest[site.segment - (i + 1)]? = some (.text text)) →
        i ≠ site.segment →
        ∃ before after, before.length =
            front.toList.length + offsetFrom site (i + 1) rest texts ∧
          (front ++ t.fillFrom none (i + 1) rest texts).toList = before ++ after ∧
          (front ++ t.fillFrom (some id) (i + 1) rest texts).toList =
            before ++ (' ' :: 'i' :: 'd' :: '=' :: (id.toList ++ after)) := by
      intro front texts hrest hne
      have hlt : i < site.segment := by omega
      obtain ⟨before, after, hlength, hplain, hfilled⟩ := @ih _ texts hlt (hrest hlt)
      refine ⟨front.toList ++ before, after, ?_, ?_, ?_⟩
      · rw [List.length_append, hlength]
      · rw [String.toList_append, hplain, List.append_assoc]
      · rw [String.toList_append, hfilled, List.append_assoc]
    have hnext : i < site.segment →
        ∃ text, rest[site.segment - (i + 1)]? = some (.text text) := by
      intro hlt
      obtain ⟨text, htext⟩ := htext
      rw [show site.segment - i = site.segment - (i + 1) + 1 by omega] at htext
      exact ⟨text, htext⟩
    cases segment with
    | slot key =>
      have hne : i ≠ site.segment := by
        rintro rfl
        obtain ⟨text, htext⟩ := htext
        rw [Nat.sub_self] at htext
        cases htext
      cases texts with
      | nil =>
        obtain ⟨before, after, hlength, hrest⟩ := hfront "" [] hnext hne
        rw [String.empty_append, String.empty_append] at hrest
        exact ⟨before, after, hlength.trans (Nat.zero_add _), hrest⟩
      | cons text texts => exact hfront text texts hnext hne
    | text text =>
      by_cases hi : site.segment = i
      · -- the segment with the site is cut in two
        refine ⟨text.toList.take site.stop,
          text.toList.drop site.stop ++ (t.fillFrom none (i + 1) rest texts).toList, ?_, ?_, ?_⟩
        · rw [offsetFrom, if_pos hi]
        · rw [fillFrom, textAt_none, String.toList_append, ← List.append_assoc,
            List.take_append_drop]
        · rw [fillFrom, fillFrom_of_lt hsite (some id) (by omega), ← hi, String.toList_append,
            toList_textAt hsite, List.append_assoc]
          simp only [List.cons_append, List.append_assoc]
      · rw [fillFrom, fillFrom, textAt_none, textAt_of_ne hsite hi, offsetFrom, if_neg hi]
        exact hfront text texts hnext fun h => hi h.symm

/-- **An id is inserted** into what the template gives without one. -/
theorem fill_insert {source : String} {binding : Binding}
    (h : (parse source).binding? = some binding) (texts : List String) (id : String) :
    ∃ before after, before.length = (parse source).idOffset texts ∧
      ((parse source).fill texts none).toList = before ++ after ∧
      ((parse source).fill texts (some id)).toList =
        before ++ (' ' :: 'i' :: 'd' :: '=' :: (id.toList ++ after)) := by
  obtain ⟨site, hsite, -⟩ := Option.map_eq_some_iff.1 h
  obtain ⟨-, htext⟩ := BindingSite.text_of_among hsite
  rw [idOffset, hsite]
  exact fillFrom_insert hsite id (Nat.zero_le _) htext

/-! ## 3. Front and back -/

/-- The markup up to the place of the id. -/
def front (t : Template) (texts : List String) : String :=
  .ofList ((t.fill texts none).toList.take (t.idOffset texts))

/-- The markup from the place of the id on. -/
def back (t : Template) (texts : List String) : String :=
  .ofList ((t.fill texts none).toList.drop (t.idOffset texts))

/-- The front and the back, and between them the attribute of the id if there is one. -/
def marked (t : Template) (texts : List String) : Option String → String
  | none => t.front texts ++ t.back texts
  | some id => t.front texts ++ " id=" ++ id ++ t.back texts

/-- **The id is all that sets two renders of the same texts apart.** -/
theorem fill_eq_marked {source : String} {id : Option String}
    (h : (parse source).binding? = none → id = none) (texts : List String) :
    (parse source).fill texts id = (parse source).marked texts id := by
  refine String.toList_inj.1 ?_
  cases id with
  | none => rw [marked, front, back, String.toList_append, String.toList_ofList,
      String.toList_ofList, List.take_append_drop]
  | some id =>
    obtain ⟨b, hb⟩ := Option.ne_none_iff_exists'.1 fun hnone => nomatch h hnone
    obtain ⟨before, after, hlength, hplain, hfilled⟩ := fill_insert hb texts id
    have hname : " id=".toList = [' ', 'i', 'd', '='] := by decide
    rw [hfilled, marked, front, back, hplain, ← hlength, List.take_left, List.drop_left]
    simp only [String.toList_append, String.toList_ofList, hname, List.append_assoc,
      List.cons_append, List.nil_append]

end Template

end ReactiveView
