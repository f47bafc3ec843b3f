import ReactiveView.Proofs.Template.Insertion
import ReactiveView.Proofs.Template.Search

/-!
# Rendering as substitution

Rendering copies the texts of a template and puts in the looked-up texts, which are not read again.
An id is inserted at one place: the source is cut in two behind the binding attribute, each side is
rendered as a template of its own, and the id stands between the two.
-/

namespace ReactiveView

/-! ## 1. Cutting a source in two -/

namespace Segment

variable {before after segments : List Segment} {t : String} {t₁ t₂ rest : List Char}

/-- The segments of literal characters: one text, or none. -/
def ofChars (cs : List Char) : List Segment :=
  if cs = [] then [] else [.text (String.ofList cs)]

-- What is left of a cut behind some of its segments.
theorem Cut.drop (h : Cut (sources before ++ rest) (before ++ segments)) : Cut rest segments := by
  induction before with
  | nil => exact h
  | cons x before ih =>
    rw [sources_cons, List.append_assoc] at h
    exact ih h.tail

-- Literal characters may be put in front of a cut that begins with no text.
theorem Cut.chars (h : Cut rest segments) {cs : List Char}
    (hsegments : ∀ s after, segments ≠ .text s :: after)
    (hcs : ∀ n < cs.length, ∀ key, ¬ BracedAt (cs ++ rest) n key) :
    Cut (cs ++ rest) (ofChars cs ++ segments) := by
  unfold ofChars
  split
  · rename_i hnil
    rw [hnil]
    exact h
  · rename_i hne
    have hsource : (Segment.text (String.ofList cs)).source = cs := String.toList_ofList
    rw [← hsource] at hcs
    have hcut : Cut ((Segment.text (String.ofList cs)).source ++ rest)
        (.text (String.ofList cs) :: segments) := by
      refine h.cons (fun {s} he => ?_) fun he => nomatch he
      cases he
      exact ⟨fun hempty => hne (String.ofList_eq_empty_iff.1 hempty), hsegments, hcs⟩
    rwa [hsource] at hcut

/-- The side behind a place in a text. -/
theorem Cut.behind (h : Cut (t.toList ++ rest) (.text t :: segments)) (ht : t.toList = t₁ ++ t₂) :
    Cut (t₂ ++ rest) (ofChars t₂ ++ segments) := by
  have hrest : Cut rest segments := Cut.tail (x := .text t) h
  refine hrest.chars (fun s after he => h.apart [] (by rw [he]; rfl)) fun n hn key hbraced => ?_
  rw [← bracedAt_add t₁, ← List.append_assoc, ← ht] at hbraced
  refine h.text [] rfl (Nat.zero_le _) ?_ hbraced
  rw [ht, List.length_append]
  simp only [sources, List.flatMap_nil, List.length_nil]
  omega

/-- The side before a place in a text. -/
theorem Cut.upTo (h : Cut (sources before ++ (t.toList ++ rest)) (before ++ .text t :: segments))
    (ht : t.toList = t₁ ++ t₂) : Cut (sources before ++ t₁) (before ++ ofChars t₁) := by
  induction before with
  | nil =>
    have hcut : Cut (t₁ ++ []) (ofChars t₁ ++ []) := by
      refine Cut.nil.chars (fun s after he => nomatch he) fun n hn key hbraced => ?_
      have hwhole := (hbraced.append t₂).append rest
      rw [List.append_nil, ← ht] at hwhole
      refine h.text [] rfl (Nat.zero_le _) ?_ hwhole
      rw [ht, List.length_append]
      simp only [sources, List.flatMap_nil, List.length_nil]
      omega
    rwa [List.append_nil, List.append_nil] at hcut
  | cons x before ih =>
    rw [sources_cons, List.append_assoc] at h ⊢
    -- what stands on this side stands in the whole source
    have hwhole : x.source ++ (sources before ++ t₁) ++ (t₂ ++ rest) =
        x.source ++ (sources before ++ (t.toList ++ rest)) := by
      simp only [ht, List.append_assoc]
    refine (ih h.tail).cons (fun {s} hx => ⟨?_, fun s' after he => ?_, fun n hn key hbraced => ?_⟩)
      fun {key} hx => ?_
    · exact h.nonempty (by rw [hx]; exact List.mem_cons_self)
    · cases before with
      | nil => exact h.apart [] (by rw [hx]; rfl)
      | cons y before =>
        obtain ⟨rfl, -⟩ := List.cons.inj he
        exact h.apart [] (by rw [hx]; rfl)
    · have hbraced := hbraced.append (t₂ ++ rest)
      rw [hwhole] at hbraced
      refine h.text [] (by rw [hx]; rfl) (Nat.zero_le _) ?_ hbraced
      simpa [sources] using hn
    · have hslot := h.slot [] (by rw [hx]; rfl)
      rw [← hwhole] at hslot
      refine ⟨⟨hslot.braced.1, ?_⟩, fun hother => hslot.shortest (hother.append _)⟩
      rw [hx]
      exact List.prefix_append _ _

/-! ## 2. Substitution -/

/-- The texts, and in the place of the slots the answers for them, in order. -/
def substituted : List Segment → (answers : List String) → List String
  | [], _ => []
  | .text t :: rest, answers => t :: substituted rest answers
  | .slot _ :: rest, answer :: answers => answer :: substituted rest answers
  | .slot _ :: rest, [] => substituted rest []

/-- What a segment shows if the answer for a key is what `lookup` says of it. -/
def shown (lookup : String → String) : Segment → String
  | text t => t
  | slot key => lookup key

theorem substituted_map (lookup : String → String) (segments : List Segment) :
    substituted segments ((keys segments).map lookup) = segments.map (shown lookup) := by
  induction segments with
  | nil => rfl
  | cons x segments ih =>
    cases x with
    | text t => exact congrArg _ ih
    | slot key => exact congrArg _ ih

-- The answers for the first segments are the first answers.
theorem substituted_append (a b : List Segment) (answers : List String) :
    substituted (a ++ b) answers =
      substituted a (answers.take (keys a).length) ++
        substituted b (answers.drop (keys a).length) := by
  induction a generalizing answers with
  | nil => rfl
  | cons x a ih =>
    cases x with
    | text t => exact congrArg _ (ih answers)
    | slot key =>
      cases answers with
      | nil =>
        have hrest := ih []
        rw [List.take_nil, List.drop_nil] at hrest ⊢
        exact hrest
      | cons answer answers => exact congrArg _ (ih answers)

theorem keys_append (a b : List Segment) : keys (a ++ b) = keys a ++ keys b :=
  List.filterMap_append

theorem keys_ofChars (cs : List Char) : keys (ofChars cs) = [] := by
  unfold ofChars
  split <;> rfl

theorem join_substituted_ofChars (cs : List Char) (answers : List String) :
    String.join (substituted (ofChars cs) answers) = String.ofList cs := by
  unfold ofChars
  split
  · rename_i h
    rw [h]
    rfl
  · rw [substituted, String.join_cons]
    exact String.append_empty

-- With every key in its braces the segments show their source.
theorem join_shown_braces (segments : List Segment) :
    String.join (segments.map (shown fun key => "\x7b\x7b" ++ key ++ "\x7d\x7d")) =
      String.ofList (sources segments) := by
  induction segments with
  | nil => rfl
  | cons x segments ih =>
    have hx : x.shown (fun key => "\x7b\x7b" ++ key ++ "\x7d\x7d") = String.ofList x.source := by
      cases x with
      | text t => exact String.ofList_toList.symm
      | slot key =>
        rw [← String.toList_inj, String.toList_ofList]
        simp [shown, source]
    rw [List.map_cons, String.join_cons, ih, hx, sources_cons, String.ofList_append]

end Segment

/-! ## 3. Rendering -/

namespace Template

open Segment

variable {t : Template} {site : BindingSite}

theorem fillFrom_none (t : Template) (i : Nat) (segments : List Segment) (answers : List String) :
    t.fillFrom none i segments answers = String.join (substituted segments answers) := by
  fun_induction fillFrom t none i segments answers with
  | case1 => rfl
  | case2 i text rest answers ih => rw [textAt_none, ih, substituted, String.join_cons]
  | case3 i key rest answer answers ih => rw [ih, substituted, String.join_cons]
  | case4 i key rest ih => rw [ih, substituted]

theorem fill_none (t : Template) (answers : List String) :
    t.fill answers none = String.join (substituted t.segments answers) :=
  t.fillFrom_none 0 t.segments answers

-- Without a site an id makes no difference.
theorem fillFrom_of_none (hsite : t.site = none) (id : Option String) (i : Nat)
    (segments : List Segment) (answers : List String) :
    t.fillFrom id i segments answers = t.fillFrom none i segments answers := by
  have htext : ∀ i text, t.textAt id i text = text := fun i text => by
    simp only [textAt, hsite]
  fun_induction fillFrom t id i segments answers with
  | case1 => rfl
  | case2 i text rest answers ih => rw [fillFrom, htext, textAt_none, ih]
  | case3 i key rest answer answers ih => rw [fillFrom, ih]
  | case4 i key rest ih => rw [fillFrom, ih]

-- The text with the site is cut in two by the id.
theorem fillFrom_some (hsite : t.site = some site) (id : String) {i : Nat}
    {before after : List Segment} {text : String} (hsegment : site.segment = i + before.length)
    (answers : List String) :
    t.fillFrom (some id) i (before ++ .text text :: after) answers =
      String.join (substituted before (answers.take (keys before).length)) ++
        (String.ofList (text.toList.take site.stop) ++ " id=" ++ id ++
          String.ofList (text.toList.drop site.stop) ++
            String.join (substituted after (answers.drop (keys before).length))) := by
  induction before generalizing i answers with
  | nil =>
    have hi : site.segment = i := hsegment
    -- behind the text with the site the id makes no difference
    have hafter := fillFrom_of_lt hsite (some id) (show site.segment < i + 1 by omega) after answers
    rw [fillFrom_none] at hafter
    have htext : t.textAt (some id) i text = String.ofList (text.toList.take site.stop) ++
        " id=" ++ id ++ String.ofList (text.toList.drop site.stop) := by
      simp only [textAt, hsite, if_pos hi]
    rw [List.nil_append, fillFrom, hafter, htext]
    exact String.empty_append.symm
  | cons x before ih =>
    rw [List.length_cons] at hsegment
    have hrest := fun answers => ih (i := i + 1) (by omega) answers
    have hne : site.segment ≠ i := by omega
    cases x with
    | text s =>
      have hkeys : keys (.text s :: before) = keys before := rfl
      rw [List.cons_append, fillFrom, textAt_of_ne hsite hne, hrest, hkeys, substituted,
        String.join_cons]
      exact String.append_assoc.symm
    | slot key =>
      cases answers with
      | nil =>
        have hnil := hrest []
        rw [List.take_nil, List.drop_nil] at hnil ⊢
        exact hnil
      | cons answer answers =>
        rw [List.cons_append, fillFrom, hrest, ← String.append_assoc, ← String.join_cons]
        rfl

variable {source : String} {binding : Binding}

-- The two sides of a place in a text, each parsed as a source of its own.
theorem segments_parse_sides {before after : List Segment} {text : String} {t₁ t₂ : List Char}
    (he : (parse source).segments = before ++ .text text :: after) (ht : text.toList = t₁ ++ t₂) :
    (parse (String.ofList (sources before ++ t₁))).segments = before ++ ofChars t₁ ∧
      (parse (String.ofList (t₂ ++ sources after))).segments = ofChars t₂ ++ after := by
  have hcut := cut_ofSource source
  rw [toList_eq_of_segments he, show ofSource source = _ from he] at hcut
  constructor
  · refine (cut_ofSource _).unique ?_
    rw [String.toList_ofList]
    exact hcut.upTo ht
  · refine (cut_ofSource _).unique ?_
    rw [String.toList_ofList]
    exact hcut.drop.behind ht

/-- `front` is a source up to the end of the attribute of `binding`, which lies in one text and
    inside a tag. -/
def EndsAtAttribute (source front : String) (binding : Binding) : Prop :=
  ∃ u, front.toList = u ++ binding.written ∧ OccursAt source u.length binding ∧
    InTag source u.length binding

-- The site of a template cuts one of its texts in two, behind the binding attribute.
theorem site_sides (h : (parse source).binding? = some binding) :
    ∃ before text after t₁ t₂, (parse source).segments = before ++ .text text :: after ∧
      text.toList = t₁ ++ t₂ ∧ (parse source).site = some ⟨before.length, t₁.length, binding⟩ ∧
      EndsAtAttribute source (String.ofList (sources before ++ t₁)) binding := by
  rcases site_first source with
    ⟨before, text, after, n, b, he, hsite, hattr, ⟨⟨hread, htag⟩, -⟩⟩ | ⟨hsite, -⟩
  · rw [binding?, hsite] at h
    cases h
    have hle := hattr.le_length
    obtain ⟨hwritable, rest, hrest⟩ := hattr
    have htext : text.toList = (text.toList.take n ++ b.written) ++ rest := by
      rw [List.append_assoc, hrest, List.take_append_drop]
    have hlength : (text.toList.take n).length = n := List.length_take_of_le (by omega)
    refine ⟨before, text, after, _, rest, he, htext, ?_, sources before ++ text.toList.take n,
      ?_, ?_⟩
    · rw [hsite, List.length_append, hlength]
    · rw [String.toList_ofList, List.append_assoc]
    · rw [List.length_append, hlength]
      exact ⟨hread.occursAt, htag⟩
  · rw [binding?, hsite] at h
    cases h

/-- The site is at a place of a text of the template, and `front` is the source up to there: neither
    place is outside the text or inside a character. -/
structure SiteEnds (source front : String) (site : BindingSite) : Prop where
  text : ∃ t, (parse source).segments[site.segment]? = some (.text t) ∧
    site.stop ≤ t.toList.length ∧
    String.Pos.Raw.IsValid t (String.ofList (t.toList.take site.stop)).rawEndPos
  valid : String.Pos.Raw.IsValid source front.rawEndPos

/-- An id stands between what the templates `front` and `back` show, which together show what `t`
    does; the answers for the slots of `front` come first. -/
def InsertsBetween (t front back : Template) : Prop :=
  t.slots = front.slots ++ back.slots ∧
  ∀ answers,
    front.fill (answers.take front.slots.length) none ++
        back.fill (answers.drop front.slots.length) none = t.fill answers none ∧
      ∀ id, t.fill answers (some id) =
        front.fill (answers.take front.slots.length) none ++ " id=" ++ id ++
          back.fill (answers.drop front.slots.length) none

-- With a lookup the answers for the two sides are those for their own keys.
theorem InsertsBetween.render {front back : Template} (h : InsertsBetween t front back)
    (lookup : String → String) :
    front.render lookup none ++ back.render lookup none = t.render lookup none ∧
      ∀ id, t.render lookup (some id) =
        front.render lookup none ++ " id=" ++ id ++ back.render lookup none := by
  obtain ⟨hslots, hfill⟩ := h
  have hanswers := hfill (t.slots.map lookup)
  have hlength : (front.slots.map lookup).length = front.slots.length := List.length_map _
  rw [hslots, List.map_append, ← hlength, List.take_left, List.drop_left, ← List.map_append,
    ← hslots] at hanswers
  exact hanswers

theorem insertsBetween_sides {before after : List Segment} {text : String} {t₁ t₂ : List Char}
    (he : (parse source).segments = before ++ .text text :: after) (ht : text.toList = t₁ ++ t₂)
    (hsite : (parse source).site = some ⟨before.length, t₁.length, binding⟩) :
    InsertsBetween (parse source) (parse (String.ofList (sources before ++ t₁)))
      (parse (String.ofList (t₂ ++ sources after))) := by
  obtain ⟨hfront, hback⟩ := segments_parse_sides he ht
  have hkeys : (parse (String.ofList (sources before ++ t₁))).slots = keys before := by
    rw [slots, hfront, keys_append, keys_ofChars, List.append_nil]
  have hslots : (parse source).slots = keys before ++ keys after := by
    rw [slots, he, keys_append]
    rfl
  -- what the two sides show
  have hleft : ∀ answers : List String,
      (parse (String.ofList (sources before ++ t₁))).fill (answers.take (keys before).length) none =
        String.join (substituted before (answers.take (keys before).length)) ++
          String.ofList t₁ := by
    intro answers
    rw [fill_none, hfront, substituted_append, String.join_append, join_substituted_ofChars,
      List.take_take, Nat.min_self]
  have hright : ∀ answers : List String,
      (parse (String.ofList (t₂ ++ sources after))).fill answers none =
        String.ofList t₂ ++ String.join (substituted after answers) := by
    intro answers
    rw [fill_none, hback, substituted_append, String.join_append, join_substituted_ofChars,
      keys_ofChars]
    rfl
  refine ⟨?_, fun answers => ⟨?_, fun id => ?_⟩⟩
  · rw [hkeys, hslots, slots, hback, keys_append, keys_ofChars, List.nil_append]
  · have htext : String.ofList t₁ ++ String.ofList t₂ = text := by
      rw [← String.ofList_append, ← ht, String.ofList_toList]
    rw [hkeys, hleft, hright, fill_none, he, substituted_append, String.join_append, substituted,
      String.join_cons, ← htext]
    simp only [String.append_assoc]
  · rw [hkeys, hleft, hright, fill, he, fillFrom_some hsite id (Nat.zero_add _).symm, ht,
      List.take_left, List.drop_left]
    simp only [String.append_assoc]

/-- **Rendering is substitution, and one insertion at the binding site.**  What is looked up may
    differ from one placeholder to the next, also for one key. -/
theorem render_substitutes (source : String) :
    (∀ answers, (parse source).fill answers none =
      String.join (substituted (parse source).segments answers)) ∧
    (∀ lookup, (parse source).render lookup none =
      String.join ((parse source).segments.map (shown lookup))) ∧
    (parse source).render (fun key => "\x7b\x7b" ++ key ++ "\x7d\x7d") none = source ∧
    (∀ b, (parse source).binding? = some b → ∃ site front back,
      (parse source).site = some site ∧ front ++ back = source ∧ SiteEnds source front site ∧
      EndsAtAttribute source front b ∧
      InsertsBetween (parse source) (parse front) (parse back) ∧
      ∀ lookup, (parse front).render lookup none ++ (parse back).render lookup none =
          (parse source).render lookup none ∧
        ∀ id, (parse source).render lookup (some id) =
          (parse front).render lookup none ++ " id=" ++ id ++
            (parse back).render lookup none) ∧
    ((parse source).binding? = none → ∀ answers id,
      (parse source).fill answers id = (parse source).fill answers none) := by
  have hrender : ∀ lookup, (parse source).render lookup none =
      String.join ((parse source).segments.map (shown lookup)) := by
    intro lookup
    rw [render, fill_none, slots, substituted_map]
  refine ⟨fill_none _, hrender, ?_, fun b hb => ?_, fun hnone answers id => ?_⟩
  · rw [hrender, join_shown_braces, sources_parse, String.ofList_toList]
  · obtain ⟨before, text, after, t₁, t₂, he, htext, hsite, hends⟩ := site_sides hb
    have hinserts := insertsBetween_sides he htext hsite
    have hsource : String.ofList (sources before ++ t₁) ++ String.ofList (t₂ ++ sources after) =
        source := by
      rw [← String.ofList_append, ← String.toList_inj, String.toList_ofList,
        toList_eq_of_segments he, htext]
      simp only [List.append_assoc]
    refine ⟨_, _, _, hsite, hsource, ⟨⟨text, ?_, ?_, ?_⟩, ?_⟩, hends, hinserts, hinserts.render⟩
    · rw [he]
      simp
    · rw [htext, List.length_append]
      exact Nat.le_add_right _ _
    · refine String.Pos.Raw.isValid_iff_exists_append.2 ⟨_, String.ofList t₂, ?_, rfl⟩
      rw [htext, List.take_left, ← String.ofList_append, ← htext, String.ofList_toList]
    · exact String.Pos.Raw.isValid_iff_exists_append.2 ⟨_, _, hsource.symm, rfl⟩
  · exact fillFrom_of_none (Option.map_eq_none_iff.1 hnone) id 0 _ _

theorem render_substitutes_accented : ∃ front back,
    front ++ back = "<i>é\x7b\x7ba\x7d\x7d</i><b @ü=\"m\">\x7b\x7bb\x7d\x7d</b>" ∧
    EndsAtAttribute "<i>é\x7b\x7ba\x7d\x7d</i><b @ü=\"m\">\x7b\x7bb\x7d\x7d</b>" front ⟨"ü", "m"⟩ ∧
    ∀ lookup id,
      (parse "<i>é\x7b\x7ba\x7d\x7d</i><b @ü=\"m\">\x7b\x7bb\x7d\x7d</b>").render lookup (some id) =
        (parse front).render lookup none ++ " id=" ++ id ++ (parse back).render lookup none := by
  obtain ⟨-, front, back, -, hjoin, -, hends, -, hrender⟩ :=
    (render_substitutes "<i>é\x7b\x7ba\x7d\x7d</i><b @ü=\"m\">\x7b\x7bb\x7d\x7d</b>").2.2.2.1
      ⟨"ü", "m"⟩ (by decide +kernel)
  exact ⟨front, back, hjoin, hends, fun lookup id => (hrender lookup).2 id⟩

end Template

end ReactiveView
