import Mathlib.Data.List.Induction
import ReactiveView.Template

/-!
# The leftmost cut of a source

What a source is cut into, said without the scan: the placeholders are the leftmost and shortest
ones, and nothing else is left out or taken twice.  There is exactly one such cut, and it is the one
that the scan makes.
-/

namespace ReactiveView

namespace Segment

/-! ## 1. Placeholders in a source -/

/-- At the character number `n` of `cs` stand two opening braces, `key` and two closing braces, all
    on one line. -/
def BracedAt (cs : List Char) (n : Nat) (key : List Char) : Prop :=
  '\n' ∉ key ∧ '{' :: '{' :: (key ++ ['}', '}']) <+: cs.drop n

/-- The placeholder at the character number `n` of `cs`, which ends at the first two closing braces
    that can end it, has this key. -/
structure SlotAt (cs : List Char) (n : Nat) (key : List Char) : Prop where
  braced : BracedAt cs n key
  shortest : ∀ {other}, BracedAt cs n other → key.length ≤ other.length

variable {cs key : List Char} {n : Nat}

theorem bracedAt_add (u v : List Char) (n : Nat) (key : List Char) :
    BracedAt (u ++ v) (u.length + n) key ↔ BracedAt v n key := by
  rw [BracedAt, BracedAt, List.drop_length_add_append]

theorem slotAt_add {u v : List Char} :
    SlotAt (u ++ v) (u.length + n) key ↔ SlotAt v n key := by
  constructor
  · rintro ⟨hbraced, hshortest⟩
    exact ⟨(bracedAt_add u v n key).1 hbraced, fun h => hshortest ((bracedAt_add u v n _).2 h)⟩
  · rintro ⟨hbraced, hshortest⟩
    exact ⟨(bracedAt_add u v n key).2 hbraced, fun h => hshortest ((bracedAt_add u v n _).1 h)⟩

-- A longer source has at least the placeholders of the shorter one.
theorem BracedAt.append (h : BracedAt cs n key) (v : List Char) : BracedAt (cs ++ v) n key := by
  obtain ⟨hline, hfront⟩ := h
  refine ⟨hline, hfront.trans ?_⟩
  rw [List.drop_append]
  exact List.prefix_append _ _

theorem SlotAt.key_unique {other : List Char} (h : SlotAt cs n key) (h' : SlotAt cs n other) :
    key = other := by
  have hlength : key.length = other.length :=
    Nat.le_antisymm (h.shortest h'.braced) (h'.shortest h.braced)
  have hfront := List.prefix_of_prefix_length_le h.braced.2 h'.braced.2 (by simp [hlength])
  simp only [List.cons_prefix_cons, true_and] at hfront
  exact (List.append_inj (hfront.eq_of_length (by simp [hlength])) hlength).1

/-! ## 2. What the scan finds -/

theorem keyBefore?_eq_some (h : keyBefore? cs = some key) :
    '\n' ∉ key ∧ key ++ ['}', '}'] <+: cs := by
  fun_induction keyBefore? cs generalizing key with
  | case1 rest =>
    cases h
    exact ⟨List.not_mem_nil, ⟨rest, rfl⟩⟩
  | case2 => cases h
  | case3 c rest hbraces hline ih =>
    obtain ⟨tail, htail, rfl⟩ := Option.map_eq_some_iff.1 h
    obtain ⟨hmem, hfront⟩ := ih htail
    refine ⟨fun hin => ?_, List.cons_prefix_cons.2 ⟨rfl, hfront⟩⟩
    rcases List.mem_cons.1 hin with hc | hin
    · exact hline hc.symm
    · exact hmem hin
  | case4 => cases h

-- The scan stops at the first closing braces, if it gets as far as any.
theorem keyBefore?_least (hline : '\n' ∉ key) (h : key ++ ['}', '}'] <+: cs) :
    ∃ first, keyBefore? cs = some first ∧ first.length ≤ key.length := by
  fun_induction keyBefore? cs generalizing key with
  | case1 rest => exact ⟨[], rfl, Nat.zero_le _⟩
  | case2 rest =>
    cases key with
    | nil => simp at h
    | cons k key =>
      rw [List.cons_append, List.cons_prefix_cons] at h
      rw [h.1] at hline
      exact (hline List.mem_cons_self).elim
  | case3 c rest hbraces _ ih =>
    cases key with
    | nil =>
      -- the braces would have stopped the scan
      obtain ⟨after, hafter⟩ := h
      cases hafter
      exact (hbraces after rfl rfl).elim
    | cons k key =>
      rw [List.cons_append, List.cons_prefix_cons] at h
      obtain ⟨first, hfirst, hle⟩ := ih (fun hin => hline (List.mem_cons_of_mem k hin)) h.2
      exact ⟨c :: first, by rw [hfirst]; rfl, Nat.succ_le_succ hle⟩
  | case4 => simp at h

theorem slotAt_of_keyAt? (h : keyAt? cs = some key) : SlotAt cs 0 key := by
  unfold keyAt? at h
  split at h
  · rename_i rest
    obtain ⟨hline, hfront⟩ := keyBefore?_eq_some h
    refine ⟨⟨hline, ?_⟩, fun {other} hother => ?_⟩
    · simpa using hfront
    · obtain ⟨hline', hfront'⟩ := hother
      obtain ⟨first, hfirst, hle⟩ := @keyBefore?_least rest other hline' (by simpa using hfront')
      rw [h] at hfirst
      cases hfirst
      exact hle
  · cases h

theorem not_bracedAt_of_keyAt? (h : keyAt? cs = none) (key : List Char) : ¬ BracedAt cs 0 key := by
  rintro ⟨hline, after, hafter⟩
  rw [List.drop_zero, List.cons_append, List.cons_append, List.append_assoc] at hafter
  obtain ⟨first, hfirst, -⟩ := @keyBefore?_least (key ++ (['}', '}'] ++ after)) key hline
    ⟨after, by rw [List.append_assoc]⟩
  rw [← hafter] at h
  change keyBefore? _ = none at h
  rw [hfirst] at h
  cases h

/-! ## 3. Cuts -/

def isText : Segment → Bool
  | text _ => true
  | slot _ => false

/-- The segments are a cut of `cs`: nothing is left out, texts are neither empty nor neighbours, and
    a placeholder begins where a slot does, but nowhere in a text. -/
structure Cut (cs : List Char) (segments : List Segment) : Prop where
  lossless : sources segments = cs
  nonempty : ∀ {t}, text t ∈ segments → t ≠ ""
  apart : ∀ before {s t after}, segments ≠ before ++ text s :: text t :: after
  slot : ∀ before {key after}, segments = before ++ slot key :: after →
    SlotAt cs (sources before).length key.toList
  text : ∀ before {t after n key}, segments = before ++ text t :: after →
    (sources before).length ≤ n → n < (sources before).length + t.toList.length →
    ¬ BracedAt cs n key

theorem sources_append (a b : List Segment) : sources (a ++ b) = sources a ++ sources b :=
  List.flatMap_append

theorem sources_cons (x : Segment) (segments : List Segment) :
    sources (x :: segments) = x.source ++ sources segments := rfl

variable {x y : Segment} {segments others : List Segment}

theorem Cut.nil : Cut [] [] := by
  refine ⟨rfl, (fun h => nomatch h), ?_, ?_, ?_⟩ <;> intros <;> simp_all

theorem Cut.source_ne_nil (h : Cut cs (x :: segments)) : x.source ≠ [] := by
  cases x with
  | text t =>
    intro hnil
    exact h.nonempty List.mem_cons_self (String.toList_eq_nil_iff.1 hnil)
  | slot key => exact fun hnil => nomatch hnil

-- The rest of a cut is a cut of the rest.
theorem Cut.tail {rest : List Char} (h : Cut (x.source ++ rest) (x :: segments)) :
    Cut rest segments := by
  have hlength : ∀ before, (sources (x :: before)).length =
      x.source.length + (sources before).length := fun before => by
    rw [sources_cons, List.length_append]
  refine ⟨?_, fun ht => h.nonempty (List.mem_cons_of_mem x ht), fun before {s t after} he => ?_,
    fun before {key after} he => ?_, fun before {t after n key} he hle hlt hbraced => ?_⟩
  · exact List.append_cancel_left h.lossless
  · exact h.apart (x :: before) (by rw [he]; rfl)
  · have hslot := h.slot (x :: before) (by rw [he]; rfl)
    rw [hlength] at hslot
    exact slotAt_add.1 hslot
  · refine h.text (x :: before) (n := x.source.length + n) (by rw [he]; rfl) ?_ ?_
      ((bracedAt_add _ _ _ _).2 hbraced)
    · rw [hlength]
      omega
    · rw [hlength]
      omega

-- A segment may be put in front of a cut where its kind allows it.
theorem Cut.cons {rest : List Char} (h : Cut rest segments)
    (htext : ∀ {t}, x = .text t → t ≠ "" ∧ (∀ s after, segments ≠ .text s :: after) ∧
      ∀ n < t.toList.length, ∀ key, ¬ BracedAt (x.source ++ rest) n key)
    (hslot : ∀ {key}, x = .slot key → SlotAt (x.source ++ rest) 0 key.toList) :
    Cut (x.source ++ rest) (x :: segments) := by
  have hlength : ∀ before, (sources (x :: before)).length =
      x.source.length + (sources before).length := fun before => by
    rw [sources_cons, List.length_append]
  refine ⟨?_, fun {t} ht => ?_, fun before {s t after} he => ?_, fun before {key after} he => ?_,
    fun before {t after n key} he hle hlt => ?_⟩
  · rw [sources_cons, h.lossless]
  · rcases List.mem_cons.1 ht with ht | ht
    · exact (htext ht.symm).1
    · exact h.nonempty ht
  · cases before with
    | nil =>
      obtain ⟨hx, hrest⟩ := List.cons.inj he
      exact (htext hx).2.1 t after hrest
    | cons y before => exact h.apart before (List.cons.inj he).2
  · cases before with
    | nil => exact hslot (List.cons.inj he).1
    | cons y before =>
      obtain ⟨rfl, hrest⟩ := List.cons.inj he
      rw [hlength]
      exact slotAt_add.2 (h.slot before hrest)
  · cases before with
    | nil =>
      obtain ⟨rfl, -⟩ := List.cons.inj he
      exact (htext rfl).2.2 n (by simpa [sources] using hlt) key
    | cons y before =>
      obtain ⟨rfl, hrest⟩ := List.cons.inj he
      rw [hlength] at hle hlt
      obtain ⟨m, rfl⟩ := Nat.exists_eq_add_of_le (show x.source.length ≤ n by omega)
      rw [bracedAt_add]
      exact h.text before hrest (by omega) (by omega)

/-! ## 4. There is one cut -/

-- Of two texts that cuts of one source begin with the first is not shorter.
theorem Cut.text_le {s t : String} (h : Cut cs (.text s :: segments))
    (h' : Cut cs (.text t :: others)) : t.toList.length ≤ s.toList.length := by
  apply Nat.le_of_not_lt
  intro hlt
  have hs : cs = s.toList ++ sources segments := h.lossless.symm
  have ht : cs = t.toList ++ sources others := h'.lossless.symm
  cases segments with
  | nil =>
    have hlength := congrArg List.length (hs.symm.trans ht)
    simp only [List.length_append, sources, List.flatMap_nil, List.length_nil] at hlength
    omega
  | cons x segments =>
    cases x with
    | text u => exact h.apart [] rfl
    | slot key =>
      have hslot := h.slot [.text s] rfl
      have hone : (sources [.text s]).length = s.toList.length := by simp [sources, source]
      rw [hone] at hslot
      refine h'.text [] rfl (Nat.zero_le _) ?_ hslot.braced
      rwa [sources, List.flatMap_nil, List.length_nil, Nat.zero_add]

theorem Cut.head_unique (h : Cut cs (x :: segments)) (h' : Cut cs (y :: others)) : x = y := by
  have hfirst : ∀ {t key segments others}, Cut cs (.text t :: segments) →
      ¬ Cut cs (.slot key :: others) := by
    intro t key segments others ht hkey
    have hne := ht.nonempty List.mem_cons_self
    refine ht.text [] rfl (Nat.zero_le _) ?_ (hkey.slot [] rfl).braced
    rw [sources, List.flatMap_nil, List.length_nil, Nat.zero_add, List.length_pos_iff]
    exact fun hnil => hne (String.toList_eq_nil_iff.1 hnil)
  cases x with
  | slot k =>
    cases y with
    | slot l =>
      exact congrArg _ (String.toList_inj.1
        ((h.slot [] rfl).key_unique (h'.slot [] rfl)))
    | text t => exact (hfirst h' h).elim
  | text s =>
    cases y with
    | slot l => exact (hfirst h h').elim
    | text t =>
      have hlength := Nat.le_antisymm (h'.text_le h) (h.text_le h')
      have heq : s.toList ++ sources segments = t.toList ++ sources others :=
        h.lossless.trans h'.lossless.symm
      exact congrArg _ (String.toList_inj.1 (List.append_inj heq hlength).1)

/-- **A source has one cut at most.** -/
theorem Cut.unique (h : Cut cs segments) (h' : Cut cs others) : segments = others := by
  induction segments generalizing cs others with
  | nil =>
    cases others with
    | nil => rfl
    | cons y others =>
      have hnil := h'.lossless.trans h.lossless.symm
      exact (h'.source_ne_nil (List.append_eq_nil_iff.1 hnil).1).elim
  | cons x segments ih =>
    cases others with
    | nil =>
      have hnil := h.lossless.trans h'.lossless.symm
      exact (h.source_ne_nil (List.append_eq_nil_iff.1 hnil).1).elim
    | cons y others =>
      obtain rfl := h.head_unique h'
      have hcs := h.lossless
      rw [sources_cons] at hcs
      rw [← hcs] at h h'
      rw [ih h.tail h'.tail]

/-! ## 5. The scan cuts -/

/-- The segments of some pieces. -/
def ofPieces (ps : List Piece) : List Segment :=
  (joinPieces ps).map fun
    | .inl cs => text (String.ofList cs)
    | .inr key => slot key

/-- Adds a literal character in front of some segments. -/
def push (c : Char) : List Segment → List Segment
  | .text t :: rest => .text (String.ofList (c :: t.toList)) :: rest
  | segments => .text (String.ofList [c]) :: segments

theorem ofPieces_char (c : Char) (ps : List Piece) :
    ofPieces (.char c :: ps) = push c (ofPieces ps) := by
  rw [ofPieces, ofPieces, joinPieces]
  rcases joinPieces ps with _ | ⟨u | key, rest⟩
  · rfl
  · simp [pushChar, push]
  · rfl

theorem Cut.push (h : Cut cs segments) {c : Char} (hc : ∀ key, ¬ BracedAt (c :: cs) 0 key) :
    Cut (c :: cs) (push c segments) := by
  -- a character in front of a source that has no text in front
  have hfront : (∀ s after, segments ≠ .text s :: after) →
      Cut (c :: cs) (.text (String.ofList [c]) :: segments) := by
    intro hsegments
    have hsource : (Segment.text (String.ofList [c])).source ++ cs = c :: cs := by
      simp [source]
    rw [← hsource] at hc ⊢
    refine h.cons (fun {t} he => ?_) fun he => nomatch he
    cases he
    refine ⟨by simp [← String.toList_inj], hsegments, fun n hn key => ?_⟩
    obtain rfl : n = 0 := by simpa using hn
    exact hc key
  rcases segments with _ | ⟨t | key, rest⟩
  · exact hfront fun _ _ he => nomatch he
  · have hsource : (Segment.text (String.ofList (c :: t.toList))).source ++ sources rest =
        c :: cs := by
      simp [source, ← h.lossless, sources_cons]
    have hrest : Cut (sources rest) rest := by
      refine Cut.tail (x := .text t) ?_
      rw [← sources_cons, h.lossless]
      exact h
    rw [← hsource] at hc ⊢
    refine hrest.cons (fun {t'} he => ?_) fun he => nomatch he
    cases he
    refine ⟨by simp [← String.toList_inj], fun s after he => ?_, fun n hn key => ?_⟩
    · exact h.apart [] (by rw [he]; rfl)
    cases n with
    | zero => exact hc key
    | succ n =>
      rw [hsource]
      intro hbraced
      refine h.text [] (n := n) rfl (Nat.zero_le _) ?_ hbraced
      simpa [sources] using hn
  · exact hfront fun _ _ he => nomatch he

/-- **The scan makes a cut** of what is behind the characters already taken. -/
theorem cut_pieces (skip : Nat) (cs : List Char) : Cut (cs.drop skip) (ofPieces (pieces skip cs)) := by
  fun_induction pieces skip cs with
  | case1 skip =>
    rw [List.drop_nil]
    exact .nil
  | case2 skip c rest ih => exact ih
  | case3 c rest key hkey ih =>
    have hslot := slotAt_of_keyAt? hkey
    have hsource : (Segment.slot (String.ofList key)).source ++ rest.drop (key.length + 3) =
        c :: rest := by
      obtain ⟨after, hafter⟩ := hslot.braced.2
      rw [List.drop_zero] at hafter
      obtain ⟨rfl, hrest⟩ := List.cons.inj hafter
      rw [← hrest]
      simp [source, List.drop_append]
    show Cut (c :: rest) (.slot (String.ofList key) :: ofPieces (pieces (key.length + 3) rest))
    rw [← hsource] at hslot ⊢
    refine ih.cons (fun he => nomatch he) fun {k} he => ?_
    cases he
    rwa [String.toList_ofList]
  | case4 c rest hkey ih =>
    rw [ofPieces_char]
    exact ih.push (not_bracedAt_of_keyAt? hkey)

theorem cut_ofSource (source : String) : Cut source.toList (ofSource source) :=
  cut_pieces 0 source.toList

/-! ## 6. The leftmost decomposition -/

/-- The last of the segments, if there is one, is a slot. -/
def EndsAtSlot (segments : List Segment) : Prop := ∀ x ∈ segments.getLast?, x.isText = false

/-- The segments are the decomposition of a source into leftmost and shortest placeholders, and the
    texts between them. -/
structure Leftmost (source : String) (segments : List Segment) : Prop where
  -- The texts, and the keys with their braces, give back the source.
  lossless : sources segments = source.toList
  nonempty : ∀ {t}, text t ∈ segments → t ≠ ""
  apart : ∀ before {s t after}, segments ≠ before ++ text s :: text t :: after
  -- The key of a slot is the raw text up to the first closing braces.
  shortest : ∀ before {key after}, segments = before ++ slot key :: after →
    SlotAt source.toList (sources before).length key.toList
  -- Behind the slot before it, which `front` ends with, no placeholder begins earlier.
  leftmost : ∀ {front gap key after}, segments = front ++ (gap ++ slot key :: after) →
    EndsAtSlot front → (∀ x ∈ gap, x.isText = true) →
    ∀ n, (sources front).length ≤ n → n < (sources (front ++ gap)).length →
      ∀ other, ¬ BracedAt source.toList n other
  -- Behind the last slot no placeholder begins.
  exhausted : ∀ {front gap}, segments = front ++ gap → EndsAtSlot front →
    (∀ x ∈ gap, x.isText = true) →
    ∀ n, (sources front).length ≤ n → ∀ other, ¬ BracedAt source.toList n other

-- Some segments go up to their last slot, and only texts follow it.
theorem exists_front (segments : List Segment) :
    ∃ front gap, segments = front ++ gap ∧ EndsAtSlot front ∧ ∀ x ∈ gap, x.isText = true := by
  induction segments using List.reverseRecOn with
  | nil => exact ⟨[], [], rfl, (fun _ h => nomatch h), fun _ h => nomatch h⟩
  | append_singleton segments x ih =>
    cases x with
    | slot key =>
      refine ⟨segments ++ [.slot key], [], (List.append_nil _).symm, fun x hx => ?_,
        fun _ h => nomatch h⟩
      rw [List.getLast?_concat] at hx
      cases hx
      rfl
    | text t =>
      obtain ⟨front, gap, rfl, hfront, hgap⟩ := ih
      refine ⟨front, gap ++ [.text t], List.append_assoc _ _ _, hfront, fun x hx => ?_⟩
      rcases List.mem_append.1 hx with hx | hx
      · exact hgap x hx
      · rw [List.mem_singleton.1 hx]
        rfl

-- Some segments are texts only, or texts up to their first slot.
theorem texts_or_slot (segments : List Segment) :
    (∀ x ∈ segments, x.isText = true) ∨
      ∃ gap key after, segments = gap ++ slot key :: after ∧ ∀ x ∈ gap, x.isText = true := by
  induction segments with
  | nil => exact .inl fun _ h => nomatch h
  | cons x segments ih =>
    cases x with
    | slot key => exact .inr ⟨[], key, segments, rfl, fun _ h => nomatch h⟩
    | text t =>
      have hall : ∀ {gap : List Segment}, (∀ x ∈ gap, x.isText = true) →
          ∀ x ∈ text t :: gap, x.isText = true := by
        intro gap hgap x hx
        rcases List.mem_cons.1 hx with rfl | hx
        · rfl
        · exact hgap x hx
      rcases ih with ih | ⟨gap, key, after, rfl, hgap⟩
      · exact .inl (hall ih)
      · exact .inr ⟨text t :: gap, key, after, rfl, hall hgap⟩

-- No placeholder begins in several texts in a row.
theorem Cut.texts (h : Cut cs segments) (front : List Segment) {gap after : List Segment}
    (he : segments = front ++ (gap ++ after)) (hgap : ∀ x ∈ gap, x.isText = true) {n : Nat}
    (hle : (sources front).length ≤ n) (hlt : n < (sources (front ++ gap)).length)
    (key : List Char) : ¬ BracedAt cs n key := by
  induction gap generalizing front with
  | nil =>
    rw [List.append_nil] at hlt
    omega
  | cons x gap ih =>
    cases x with
    | slot k => cases hgap _ List.mem_cons_self
    | text t =>
      by_cases hin : n < (sources front).length + t.toList.length
      · exact h.text front he hle hin
      · have hlength : (sources (front ++ [.text t])).length =
            (sources front).length + t.toList.length := by
          rw [sources_append, List.length_append]
          simp [sources, source]
        refine ih (front ++ [.text t]) (by rw [he]; simp)
          (fun y hy => hgap y (List.mem_cons_of_mem _ hy)) (by omega) ?_
        rwa [List.append_assoc]

theorem Leftmost.cut {source : String} (h : Leftmost source segments) :
    Cut source.toList segments := by
  refine ⟨h.lossless, h.nonempty, h.apart, h.shortest,
    fun before {t after n key} he hle hlt => ?_⟩
  obtain ⟨front, gap, rfl, hfront, hgap⟩ := exists_front before
  -- the text, together with those around it, reaches up to the next slot or to the end
  have hmore : ∀ {texts : List Segment}, (∀ x ∈ texts, x.isText = true) →
      ∀ x ∈ gap ++ .text t :: texts, x.isText = true := by
    intro texts htexts x hx
    rcases List.mem_append.1 hx with hx | hx
    · exact hgap x hx
    · rcases List.mem_cons.1 hx with rfl | hx
      · rfl
      · exact htexts x hx
  have hfrom : (sources front).length ≤ n := by
    rw [sources_append, List.length_append] at hle
    omega
  rcases texts_or_slot after with hafter | ⟨texts, k, rest, rfl, htexts⟩
  · exact h.exhausted (he.trans (List.append_assoc _ _ _)) hfront (hmore hafter) n hfrom key
  · have hslot : segments = front ++ ((gap ++ .text t :: texts) ++ .slot k :: rest) := by
      rw [he]
      simp
    refine h.leftmost hslot hfront (hmore htexts) n hfrom ?_ key
    rw [sources_append, List.length_append] at hlt ⊢
    rw [sources_append, sources_cons, List.length_append, List.length_append]
    show n < (sources front).length +
      ((sources gap).length + (t.toList.length + (sources texts).length))
    omega

theorem Cut.leftmost {source : String} (h : Cut source.toList segments) :
    Leftmost source segments := by
  refine ⟨h.lossless, h.nonempty, h.apart, h.slot,
    fun {front gap key after} he _ hgap n hle hlt other => h.texts front he hgap hle hlt other,
    fun {front gap} he _ hgap n hle other hbraced => ?_⟩
  have hend : segments = front ++ (gap ++ []) := by rw [he, List.append_nil]
  refine h.texts front hend hgap hle ?_ other hbraced
  -- nothing begins behind the end
  have hlt : n < source.toList.length := by
    apply Nat.lt_of_not_le
    intro hlong
    have hfront := hbraced.2
    rw [List.drop_of_length_le hlong] at hfront
    simp at hfront
  rwa [← he, h.lossless]

end Segment

/-- **A source is cut into its leftmost decomposition**, and it has no other one. -/
theorem Template.segments_parse_iff (source : String) (segments : List Segment) :
    (parse source).segments = segments ↔ Segment.Leftmost source segments := by
  have hcut := Segment.cut_ofSource source
  constructor
  · rintro rfl
    exact hcut.leftmost
  · exact fun h => hcut.unique h.cut

-- Braces that are left over belong to the key in front, and to the text behind.
example : (Template.parse "\x7b\x7b\x7ba\x7d\x7d\x7d\x7b\x7b").segments =
    [.slot "\x7ba", .text "\x7d\x7b\x7b"] := by decide +kernel

end ReactiveView
