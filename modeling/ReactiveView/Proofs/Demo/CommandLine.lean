import Mathlib.Data.List.Forall2
import Mathlib.Data.List.Induction
import Mathlib.Data.Nat.Digits.Defs
import ReactiveView.Demo.Options

/-!
# Reading a command line

Every argument is either the flag of one option or decides the result alone.  The first one that
decides does so whatever stands behind it and whatever the environment holds.  If there is none,
every option has the value of its last flag, else the one of its variable, as far as that is valid,
and else its default, so that it only depends on its own flags and their order.
-/

namespace ReactiveView.Demo

/-! ## 1. Counts -/

/-- The characters `cs` are one or more decimal digits that denote `n`. -/
def Denotes (cs : List Char) (n : Nat) : Prop :=
  ∃ digits : List Nat, digits ≠ [] ∧ (∀ d ∈ digits, d < 10) ∧ cs = digits.map Nat.digitChar ∧
    n = Nat.ofDigits 10 digits.reverse

/-- The text `text` is a number below `2 ^ 32` in decimal digits, behind a plus sign or not. -/
def Count (text : String) (n : Nat) : Prop :=
  n < 2 ^ 32 ∧ (Denotes text.toList n ∨ ∃ cs, text.toList = '+' :: cs ∧ Denotes cs n)

theorem digitChar_isDigit {d : Nat} (h : d < 10) :
    (Nat.digitChar d).isDigit = true ∧ (Nat.digitChar d).toNat - 48 = d := by
  decide +revert

theorem digit_of_isDigit {c : Char} (h : c.isDigit = true) :
    c.toNat - 48 < 10 ∧ Nat.digitChar (c.toNat - 48) = c := by
  have hrange : 48 ≤ c.toNat ∧ c.toNat ≤ 57 := by
    simpa [Char.isDigit, UInt32.le_iff_toNat_le] using h
  refine ⟨by omega, Char.toNat_inj.mp ?_⟩
  rw [Nat.toNat_digitChar_of_lt_ten (by omega)]
  omega

theorem all_isDigit_iff {cs : List Char} :
    cs.all Char.isDigit = true ↔
      ∃ digits : List Nat, (∀ d ∈ digits, d < 10) ∧ cs = digits.map Nat.digitChar := by
  rw [List.all_eq_true]
  constructor
  · intro h
    refine ⟨cs.map fun c => c.toNat - 48, ?_, ?_⟩
    · intro d hd
      obtain ⟨c, hc, rfl⟩ := List.mem_map.1 hd
      exact (digit_of_isDigit (h c hc)).1
    · rw [List.map_map]
      exact ((List.map_congr_left fun c hc => (digit_of_isDigit (h c hc)).2).trans cs.map_id').symm
  · rintro ⟨digits, hdigits, rfl⟩ c hc
    obtain ⟨d, hd, rfl⟩ := List.mem_map.1 hc
    exact (digitChar_isDigit (hdigits d hd)).1

theorem decimalValue_digits {digits : List Nat} (h : ∀ d ∈ digits, d < 10) :
    decimalValue (digits.map Nat.digitChar) = Nat.ofDigits 10 digits.reverse := by
  induction digits using List.reverseRecOn with
  | nil => rfl
  | append_singleton digits d ih =>
    have hd : (Nat.digitChar d).toNat - 48 = d := (digitChar_isDigit (h d (by simp))).2
    have hrest := ih fun d hd => h d (by simp [hd])
    rw [decimalValue] at hrest ⊢
    rw [List.map_append, List.foldl_append, hrest, List.reverse_concat, Nat.ofDigits_cons]
    simp [hd, Nat.add_comm]

theorem denotes_iff {cs : List Char} {n : Nat} :
    Denotes cs n ↔ (cs.isEmpty || !cs.all Char.isDigit) = false ∧ decimalValue cs = n := by
  rw [Bool.or_eq_false_iff, Bool.not_eq_false', all_isDigit_iff, List.isEmpty_eq_false_iff]
  constructor
  · rintro ⟨digits, hne, hdigits, rfl, rfl⟩
    exact ⟨⟨by simpa using hne, digits, hdigits, rfl⟩, decimalValue_digits hdigits⟩
  · rintro ⟨⟨hne, digits, hdigits, rfl⟩, rfl⟩
    exact ⟨digits, by simpa using hne, hdigits, rfl, decimalValue_digits hdigits⟩

theorem not_denotes_plus {rest : List Char} {n : Nat} : ¬ Denotes ('+' :: rest) n := by
  rw [denotes_iff]
  simp

theorem count?_eq_some_iff {text : String} {n : Nat} : count? text = some n ↔ Count text n := by
  have hread : ∀ cs : List Char, (if cs.isEmpty || !cs.all Char.isDigit then none
      else if decimalValue cs < UInt32.size then some (decimalValue cs) else none) = some n ↔
        n < 2 ^ 32 ∧ Denotes cs n := by
    intro cs
    rw [denotes_iff, ← show UInt32.size = 2 ^ 32 from rfl]
    cases cs.isEmpty || !cs.all Char.isDigit with
    | true => simp
    | false =>
      simp only [Bool.false_eq_true, if_false, true_and]
      split
      · rename_i hlt
        rw [Option.some.injEq]
        exact ⟨fun h => ⟨h ▸ hlt, h⟩, fun h => h.2⟩
      · rename_i hge
        exact ⟨nofun, fun h => absurd (h.2 ▸ h.1) hge⟩
  unfold count? Count
  split
  · rename_i rest hcs
    simp only [hread, hcs, not_denotes_plus, List.cons.injEq, true_and, exists_eq_left', false_or]
  · rename_i hcs
    have hsigned : ¬ ∃ cs, text.toList = '+' :: cs ∧ Denotes cs n := fun ⟨cs, h, _⟩ => hcs cs h
    simp only [hread, hsigned, or_false]

-- Leading zeros do not count, and the border is that of 32 bits.
example : (count? "+004294967295", count? "4294967296") = (some 4294967295, none) := by decide

/-! ## 2. Options -/

/-- The text `text` is `word` up to the case of its letters. -/
def CaseVariant (word text : String) : Prop :=
  List.Forall₂ (fun l c => c = l ∨ c = l.toUpper) word.toList text.toList

/-- How one option gets its value. -/
structure Rule (α : Type) where
  get : Options → α
  -- The arguments that set the option, with what they set.
  Flag : String → α → Prop
  -- The variable of the environment that sets it, and its valid texts.
  name : String
  Valid : String → α → Prop
  default : α

namespace Rule

variable {α : Type}

/-- An option whose value stands behind an equals sign: the same texts are valid there and in the
    environment. -/
def valued (get : Options → α) (stem name : String) (Valid : String → α → Prop) (default : α) :
    Rule α where
  get := get
  Flag argument x := ∃ text, argument = stem ++ text ∧ Valid text x
  name := name
  Valid := Valid
  default := default

def rootId : Rule String :=
  valued Options.rootId "--root-id=" "RAY_DEMO_ROOT_ID" (fun text id => text ≠ "" ∧ id = text) "root"

def ids : Rule IdKind :=
  valued Options.ids "--ids=" "RAY_DEMO_IDS"
    (fun text kind => (text = "random" ∧ kind = .random) ∨ (text = "sequential" ∧ kind = .sequential))
    .sequential

def clicks : Rule Nat :=
  valued Options.clicks "--clicks=" "RAY_DEMO_CLICKS" Count 1

def json : Rule Bool where
  get := Options.json
  Flag argument x := argument = "--json" ∧ x = true
  name := "RAY_DEMO_JSON"
  Valid text x := (text = "1" ∨ CaseVariant "true" text) ∧ x = true
  default := false

/-- An argument that sets the option. -/
def IsFlag (r : Rule α) (argument : String) : Prop :=
  ∃ x, r.Flag argument x

open scoped Classical in
/-- The flags of the option among some arguments, in their order. -/
noncomputable def flags (r : Rule α) (args : List String) : List String :=
  args.filter fun argument => r.IsFlag argument

/-- The value `x` is that of the last flag, else that of the variable if it is valid, and else the
    default. -/
inductive Chosen (r : Rule α) (args : List String) (env : String → Option String) : α → Prop
  | flag {argument : String} {x : α} (hlast : (r.flags args).getLast? = some argument)
      (hx : r.Flag argument x) : Chosen r args env x
  | environment {text : String} {x : α} (hnone : r.flags args = []) (htext : env r.name = some text)
      (hx : r.Valid text x) : Chosen r args env x
  | default (hnone : r.flags args = [])
      (hinvalid : ∀ text x, env r.name = some text → ¬ r.Valid text x) :
      Chosen r args env r.default

end Rule

/-! ## 3. Arguments that decide alone -/

/-- The arguments without a value. -/
def fixedArguments : List String := ["--help", "-h", "--version", "-V", "--json"]

/-- What stands before a value. -/
def stems : List String := ["--root-id=", "--ids=", "--clicks="]

/-- An argument of one of the forms that there are, with a valid value or not. -/
def Known (argument : String) : Prop :=
  argument ∈ fixedArguments ∨ ∃ stem ∈ stems, ∃ text, argument = stem ++ text

/-- The argument `argument` decides that `result` is what the command line asks for. -/
inductive Decides : String → Except UsageError Request → Prop
  | help : Decides "--help" (.ok .help)
  | helpLetter : Decides "-h" (.ok .help)
  | version : Decides "--version" (.ok .version)
  | versionLetter : Decides "-V" (.ok .version)
  | rootId : Decides "--root-id=" (.error .emptyRootId)
  | ids {text : String} (hrandom : text ≠ "random") (hsequential : text ≠ "sequential") :
      Decides ("--ids=" ++ text) (.error (.invalidIds text))
  | clicks {text : String} (h : ∀ n, ¬ Count text n) :
      Decides ("--clicks=" ++ text) (.error (.invalidClicks text))
  | unknown {argument : String} (h : ¬ Known argument) :
      Decides argument (.error (.unknownArgument argument))

/-- An argument that decides alone. -/
def Terminal (argument : String) : Prop :=
  ∃ result, Decides argument result

theorem behind?_eq_some_iff {stem argument text : String} :
    behind? stem argument = some text ↔ argument = stem ++ text := by
  unfold behind?
  split
  · rename_i h
    obtain ⟨rest, hrest⟩ := List.isPrefixOf_iff_prefix.1 h
    rw [← hrest, List.drop_left, Option.some.injEq, ← String.toList_inj, ← String.toList_inj,
      String.toList_ofList, String.toList_append, ← hrest, List.append_cancel_left_eq]
  · rename_i h
    refine ⟨nofun, ?_⟩
    rintro rfl
    simp at h

theorem IdKind.ofName?_eq_some_iff {text : String} {kind : IdKind} :
    IdKind.ofName? text = some kind ↔ Rule.ids.Valid text kind := by
  unfold IdKind.ofName? Rule.ids Rule.valued
  cases kind <;> grind

-- Two stems of which none begins the other.
theorem behind?_eq_none {stem other : String} (h : ¬ stem.toList <+: other.toList)
    (h' : ¬ other.toList <+: stem.toList) (text : String) : behind? other (stem ++ text) = none := by
  by_contra hne
  obtain ⟨rest, hrest⟩ := Option.ne_none_iff_exists'.1 hne
  have hsame := congrArg String.toList (behind?_eq_some_iff.1 hrest)
  rw [String.toList_append, String.toList_append] at hsame
  have hother : other.toList <+: stem.toList ++ text.toList := hsame ▸ List.prefix_append _ _
  exact (List.prefix_or_prefix_of_prefix (List.prefix_append _ _) hother).elim h h'

theorem append_not_mem {stem : String} (hstem : stem ∈ stems) (text : String) :
    stem ++ text ∉ fixedArguments := by
  have hfront : ∀ stem ∈ stems, ∀ fixed ∈ fixedArguments, ¬ stem.toList <+: fixed.toList := by
    decide
  intro hmem
  refine hfront stem hstem _ hmem ?_
  rw [String.toList_append]
  exact List.prefix_append _ _

namespace Argument

theorem read_of_not_mem {argument : String} (h : argument ∉ fixedArguments) :
    read argument =
      match behind? "--root-id=" argument, behind? "--ids=" argument,
        behind? "--clicks=" argument with
      | some value, _, _ => ofRootId value
      | none, some value, _ => ofIds value
      | none, none, some value => ofClicks value
      | none, none, none => .error (.unknownArgument argument) := by
  simp only [fixedArguments, List.mem_cons, List.not_mem_nil, or_false, not_or] at h
  unfold read
  exact (if_neg (not_or.2 ⟨h.1, h.2.1⟩)).trans
    ((if_neg (not_or.2 ⟨h.2.2.1, h.2.2.2.1⟩)).trans (if_neg h.2.2.2.2))

theorem read_rootId (text : String) : read ("--root-id=" ++ text) = ofRootId text := by
  rw [read_of_not_mem (append_not_mem (by decide) text), behind?_eq_some_iff.2 rfl]

theorem read_ids (text : String) : read ("--ids=" ++ text) = ofIds text := by
  rw [read_of_not_mem (append_not_mem (by decide) text), behind?_eq_none (by decide) (by decide),
    behind?_eq_some_iff.2 rfl]

theorem read_clicks (text : String) : read ("--clicks=" ++ text) = ofClicks text := by
  rw [read_of_not_mem (append_not_mem (by decide) text), behind?_eq_none (by decide) (by decide),
    behind?_eq_none (by decide) (by decide), behind?_eq_some_iff.2 rfl]

theorem read_unknown {argument : String} (h : ¬ Known argument) :
    read argument = .error (.unknownArgument argument) := by
  have hnone : ∀ stem ∈ stems, behind? stem argument = none := by
    intro stem hstem
    by_contra hne
    obtain ⟨text, htext⟩ := Option.ne_none_iff_exists'.1 hne
    exact h (.inr ⟨stem, hstem, text, behind?_eq_some_iff.1 htext⟩)
  rw [read_of_not_mem fun hmem => h (.inl hmem), hnone _ (by decide), hnone _ (by decide),
    hnone _ (by decide)]

end Argument

/-! ## 4. One argument -/

/-- The setting `s` is the one that the flag `argument` makes. -/
inductive Sets (argument : String) : Setting → Prop
  | rootId {id : String} (h : Rule.rootId.Flag argument id) : Sets argument (.rootId id)
  | ids {kind : IdKind} (h : Rule.ids.Flag argument kind) : Sets argument (.ids kind)
  | clicks {n : Nat} (h : Rule.clicks.Flag argument n) : Sets argument (.clicks n)
  | json {x : Bool} (h : Rule.json.Flag argument x) : Sets argument .json

theorem Sets.read {argument : String} {s : Setting} (h : Sets argument s) :
    Argument.read argument = .ok (.setting s) := by
  cases h with
  | rootId h =>
    obtain ⟨text, rfl, hne, rfl⟩ := h
    rw [Argument.read_rootId, Argument.ofRootId, if_neg (by simpa using hne)]
  | ids h =>
    obtain ⟨text, rfl, hkind⟩ := h
    rw [Argument.read_ids, Argument.ofIds, IdKind.ofName?_eq_some_iff.2 hkind]
  | clicks h =>
    obtain ⟨text, rfl, hn⟩ := h
    rw [Argument.read_clicks, Argument.ofClicks, count?_eq_some_iff.2 hn]
  | json h =>
    obtain ⟨rfl, -⟩ := h
    decide

theorem Sets.unique {argument : String} {s s' : Setting} (h : Sets argument s)
    (h' : Sets argument s') : s = s' := by
  have hsame := h.read.symm.trans h'.read
  simpa using hsame

variable {argument : String} {result : Except UsageError Request}

theorem Sets.readAll {s : Setting} (h : Sets argument s) (o : Options) (rest : List String) :
    o.readAll (argument :: rest) = (o.apply s).readAll rest := by
  rw [Options.readAll, h.read]

theorem Decides.readAll (h : Decides argument result) (o : Options) (rest : List String) :
    o.readAll (argument :: rest) = result := by
  rw [Options.readAll]
  cases h with
  | help | helpLetter | version | versionLetter | rootId => rfl
  | ids hrandom hsequential =>
    rw [Argument.read_ids, Argument.ofIds, IdKind.ofName?, if_neg hrandom, if_neg hsequential]
  | clicks h =>
    have hnone : count? _ = none :=
      Option.eq_none_iff_forall_ne_some.2 fun n hn => h n (count?_eq_some_iff.1 hn)
    rw [Argument.read_clicks, Argument.ofClicks, hnone]
  | unknown h => rw [Argument.read_unknown h]

theorem Decides.ne_run (h : Decides argument result) (o : Options) : result ≠ .ok (.run o) := by
  cases h <;> nofun

/-- A flag decides nothing. -/
theorem Sets.not_terminal {s : Setting} (h : Sets argument s) : ¬ Terminal argument := by
  rintro ⟨result, hresult⟩
  exact hresult.ne_run _ ((hresult.readAll {} []).symm.trans (h.readAll {} []))

/-- An argument makes a setting if and only if it does not decide alone. -/
theorem exists_sets_iff : (∃ s, Sets argument s) ↔ ¬ Terminal argument := by
  refine ⟨fun ⟨s, hs⟩ => hs.not_terminal, fun h => ?_⟩
  have hknown : Known argument := by
    by_contra hunknown
    exact h ⟨_, .unknown hunknown⟩
  rcases hknown with hfixed | ⟨stem, hstem, text, rfl⟩
  · simp only [fixedArguments, List.mem_cons, List.not_mem_nil, or_false] at hfixed
    rcases hfixed with rfl | rfl | rfl | rfl | rfl
    · exact absurd ⟨_, .help⟩ h
    · exact absurd ⟨_, .helpLetter⟩ h
    · exact absurd ⟨_, .version⟩ h
    · exact absurd ⟨_, .versionLetter⟩ h
    · exact ⟨_, .json ⟨rfl, rfl⟩⟩
  · simp only [stems, List.mem_cons, List.not_mem_nil, or_false] at hstem
    rcases hstem with rfl | rfl | rfl
    · by_cases hempty : text = ""
      · subst hempty
        exact absurd ⟨_, .rootId⟩ h
      · exact ⟨_, .rootId ⟨text, rfl, hempty, rfl⟩⟩
    · by_cases hrandom : text = "random"
      · exact ⟨_, .ids ⟨text, rfl, .inl ⟨hrandom, rfl⟩⟩⟩
      by_cases hsequential : text = "sequential"
      · exact ⟨_, .ids ⟨text, rfl, .inr ⟨hsequential, rfl⟩⟩⟩
      exact absurd ⟨_, .ids hrandom hsequential⟩ h
    · by_cases hcount : ∃ n, Count text n
      · obtain ⟨n, hn⟩ := hcount
        exact ⟨_, .clicks ⟨text, rfl, hn⟩⟩
      · exact absurd ⟨_, .clicks (not_exists.1 hcount)⟩ h

/-! ## 5. All arguments -/

theorem readAll_append {before : List String} (h : ∀ a ∈ before, ¬ Terminal a) (o : Options) :
    ∃ o', ∀ rest, o.readAll (before ++ rest) = Options.readAll o' rest := by
  induction before generalizing o with
  | nil => exact ⟨o, fun rest => rfl⟩
  | cons argument before ih =>
    obtain ⟨s, hs⟩ := exists_sets_iff.2 (h argument List.mem_cons_self)
    obtain ⟨o', ho'⟩ := ih (fun a ha => h a (List.mem_cons_of_mem _ ha)) (o.apply s)
    exact ⟨o', fun rest => (hs.readAll o _).trans (ho' rest)⟩

/-- Either some argument is the first that decides, or none decides. -/
theorem first_terminal (args : List String) :
    (∃ before argument behind, args = before ++ argument :: behind ∧
      (∀ a ∈ before, ¬ Terminal a) ∧ Terminal argument) ∨ ∀ a ∈ args, ¬ Terminal a := by
  induction args with
  | nil => exact .inr nofun
  | cons argument rest ih =>
    by_cases hterminal : Terminal argument
    · exact .inl ⟨[], argument, rest, rfl, nofun, hterminal⟩
    rcases ih with ⟨before, last, behind, rfl, hbefore, hlast⟩ | hnone
    · exact .inl ⟨argument :: before, last, behind, rfl, List.forall_mem_cons.2
        ⟨hterminal, hbefore⟩, hlast⟩
    · exact .inr (List.forall_mem_cons.2 ⟨hterminal, hnone⟩)

/-! ## 6. One option -/

namespace Rule

variable {α : Type} {r : Rule α}

/-- An option is set by its flags alone, and before them from the environment. -/
structure Lawful (r : Rule α) : Prop where
  flag_unique : ∀ {argument x y}, r.Flag argument x → r.Flag argument y → x = y
  valid_unique : ∀ {text x y}, r.Valid text x → r.Valid text y → x = y
  apply : ∀ {argument s} (o : Options), Sets argument s →
    r.Flag argument (r.get (o.apply s)) ∨ ¬ r.IsFlag argument ∧ r.get (o.apply s) = r.get o
  start : ∀ env, (∃ text, env r.name = some text ∧ r.Valid text (r.get (Options.ofEnvironment env))) ∨
    (∀ text x, env r.name = some text → ¬ r.Valid text x) ∧
      r.get (Options.ofEnvironment env) = r.default

/-- An option that starts with what `read?` makes of its variable. -/
theorem start_of_read? {read? : String → Option α}
    (hread : ∀ text x, read? text = some x ↔ r.Valid text x)
    (hget : ∀ env, r.get (Options.ofEnvironment env) = ((env r.name).bind read?).getD r.default)
    (env : String → Option String) :
    (∃ text, env r.name = some text ∧ r.Valid text (r.get (Options.ofEnvironment env))) ∨
      (∀ text x, env r.name = some text → ¬ r.Valid text x) ∧
        r.get (Options.ofEnvironment env) = r.default := by
  rw [hget]
  cases hvalue : (env r.name).bind read? with
  | some x =>
    obtain ⟨text, htext, hx⟩ := Option.bind_eq_some_iff.1 hvalue
    exact .inl ⟨text, htext, (hread text x).1 hx⟩
  | none =>
    refine .inr ⟨fun text x htext hx => ?_, rfl⟩
    rw [htext, Option.bind_some, (hread text x).2 hx] at hvalue
    cases hvalue

/-- An option that settings of one kind change, and no other ones. -/
theorem lawful_of_setting {set : α → Setting} {read? : String → Option α}
    (hinj : ∀ {x y}, set x = set y → x = y)
    (hsets : ∀ {argument x}, Sets argument (set x) ↔ r.Flag argument x)
    (hget : ∀ o x, r.get (Options.apply o (set x)) = x)
    (hother : ∀ o s, (∀ x, s ≠ set x) → r.get (Options.apply o s) = r.get o)
    (hread : ∀ text x, read? text = some x ↔ r.Valid text x)
    (hstart : ∀ env, r.get (Options.ofEnvironment env) = ((env r.name).bind read?).getD r.default) :
    r.Lawful where
  flag_unique h h' := hinj (Sets.unique (hsets.2 h) (hsets.2 h'))
  valid_unique h h' := Option.some.inj (((hread _ _).2 h).symm.trans ((hread _ _).2 h'))
  apply {argument s} o hs := by
    by_cases hmine : ∃ x, s = set x
    · obtain ⟨x, rfl⟩ := hmine
      rw [hget]
      exact .inl (hsets.1 hs)
    · exact .inr ⟨fun ⟨x, hx⟩ => hmine ⟨x, hs.unique (hsets.2 hx)⟩, hother o s (not_exists.1 hmine)⟩
  start := start_of_read? hread hstart

theorem lawful_rootId : rootId.Lawful := by
  have hread : ∀ text id, Option.guard (fun text => !text.isEmpty) text = some id ↔
      rootId.Valid text id := by
    intro text id
    rw [Option.guard_eq_some_iff]
    exact ⟨fun h => ⟨by simpa using h.2, h.1.symm⟩, fun h => ⟨h.2.symm, by simpa using h.1⟩⟩
  refine lawful_of_setting Setting.rootId.inj ⟨fun h => ?_, .rootId⟩ (fun _ _ => rfl)
    (fun o s hs => ?_) hread fun env => ?_
  · cases h
    assumption
  · cases s with
    | rootId id => exact absurd rfl (hs id)
    | ids | clicks | json => rfl
  · show ((env "RAY_DEMO_ROOT_ID").filter fun id => !id.isEmpty).getD "root" =
      ((env "RAY_DEMO_ROOT_ID").bind _).getD "root"
    cases env "RAY_DEMO_ROOT_ID" <;> rfl

theorem lawful_ids : ids.Lawful := by
  refine lawful_of_setting Setting.ids.inj ⟨fun h => ?_, .ids⟩ (fun _ _ => rfl) (fun o s hs => ?_)
    (fun _ _ => IdKind.ofName?_eq_some_iff) fun _ => rfl
  · cases h
    assumption
  · cases s with
    | ids kind => exact absurd rfl (hs kind)
    | rootId | clicks | json => rfl

theorem lawful_clicks : clicks.Lawful := by
  refine lawful_of_setting Setting.clicks.inj ⟨fun h => ?_, .clicks⟩ (fun _ _ => rfl)
    (fun o s hs => ?_) (fun _ _ => count?_eq_some_iff) fun _ => rfl
  · cases h
    assumption
  · cases s with
    | clicks n => exact absurd rfl (hs n)
    | rootId | ids | json => rfl

theorem toNat_toLower (c : Char) :
    c.toLower.toNat = if 65 ≤ c.toNat ∧ c.toNat ≤ 90 then c.toNat + 32 else c.toNat := by
  have hrange : (c.val ≥ 'A'.val ∧ c.val ≤ 'Z'.val) ↔ 65 ≤ c.toNat ∧ c.toNat ≤ 90 := by
    simp [UInt32.le_iff_toNat_le]
  unfold Char.toLower
  split
  · rename_i h
    rw [hrange] at h
    rw [if_pos h, ← Char.toNat_val]
    simp
    omega
  · rename_i h
    rw [if_neg (hrange.not.1 h)]

-- A letter of `"true"` up to case.
theorem toLower_eq_iff {c l : Char} (hl : l ∈ "true".toList) :
    c.toLower = l ↔ c = l ∨ c = l.toUpper := by
  have hletter : 97 ≤ l.toNat ∧ l.toUpper.toNat + 32 = l.toNat ∧ l.toNat ≤ 122 := by
    simp only [String.reduceToList, List.mem_cons, List.not_mem_nil, or_false] at hl
    rcases hl with rfl | rfl | rfl | rfl <;> decide
  rw [← Char.toNat_inj, ← Char.toNat_inj, ← Char.toNat_inj, toNat_toLower]
  split <;> omega

theorem lowerAscii_eq_true_iff {text : String} :
    Text.lowerAscii text = "true" ↔ CaseVariant "true" text := by
  have hmap : ∀ cs ls : List Char, (∀ l ∈ ls, l ∈ "true".toList) →
      (cs.map Char.toLower = ls ↔ List.Forall₂ (fun l c => c = l ∨ c = l.toUpper) ls cs) := by
    intro cs ls hls
    induction ls generalizing cs with
    | nil => simp
    | cons l ls ih =>
      cases cs with
      | nil => simp
      | cons c cs =>
        rw [List.map_cons, List.cons.injEq, List.forall₂_cons,
          toLower_eq_iff (hls l List.mem_cons_self), ih cs fun l hl => hls l (List.mem_cons_of_mem _ hl)]
  rw [← String.toList_inj, Text.lowerAscii, String.toList_map]
  exact hmap _ _ fun l hl => hl

theorem lawful_json : json.Lawful where
  flag_unique h h' := h.2.trans h'.2.symm
  valid_unique h h' := h.2.trans h'.2.symm
  apply o hs := by
    have hunique := fun x (hx : json.Flag _ x) => hs.unique (.json hx)
    cases hs with
    | json h => exact .inl ⟨h.1, rfl⟩
    | rootId | ids | clicks => exact .inr ⟨fun ⟨x, hx⟩ => (nomatch hunique x hx), rfl⟩
  start := by
    have hread : ∀ text x,
        (if text == "1" || Text.lowerAscii text == "true" then some true else none) = some x ↔
          json.Valid text x := by
      intro text x
      show _ ↔ (text = "1" ∨ CaseVariant "true" text) ∧ x = true
      have hvalid : (text == "1" || Text.lowerAscii text == "true") = true ↔
          text = "1" ∨ CaseVariant "true" text := by
        rw [Bool.or_eq_true, beq_iff_eq, beq_iff_eq, lowerAscii_eq_true_iff]
      rw [← hvalid]
      split
      · rename_i htext
        exact ⟨fun h => ⟨htext, (Option.some.inj h).symm⟩, fun h => congrArg some h.2.symm⟩
      · rename_i htext
        exact ⟨nofun, fun h => absurd h.1 htext⟩
    refine start_of_read? hread fun env => ?_
    cases hvalue : env "RAY_DEMO_JSON" with
    | none => simp only [json, Options.ofEnvironment, hvalue, Option.bind_none, Option.getD_none]
    | some text =>
      simp only [json, Options.ofEnvironment, hvalue, Option.bind_some]
      cases text == "1" || Text.lowerAscii text == "true" <;> rfl

/-! ## 7. The last flag -/

theorem mem_flags {args : List String} {argument : String} :
    argument ∈ r.flags args ↔ argument ∈ args ∧ r.IsFlag argument := by
  simp [flags]

theorem flags_cons_of_isFlag {argument : String} (h : r.IsFlag argument) (rest : List String) :
    r.flags (argument :: rest) = argument :: r.flags rest :=
  List.filter_cons_of_pos (by simpa using h)

theorem flags_cons_of_not {argument : String} (h : ¬ r.IsFlag argument) (rest : List String) :
    r.flags (argument :: rest) = r.flags rest :=
  List.filter_cons_of_neg (by simpa using h)

/-- Another option's flag may stand anywhere. -/
theorem flags_insert {argument : String} (h : ¬ r.IsFlag argument) (before behind : List String) :
    r.flags (before ++ argument :: behind) = r.flags (before ++ behind) := by
  rw [flags, List.filter_append, ← flags, ← flags, flags_cons_of_not h, flags, flags, flags,
    List.filter_append]

/-- Flags of two options may change places. -/
theorem flags_swap {a b : String} (h : ¬ r.IsFlag a ∨ ¬ r.IsFlag b) (before behind : List String) :
    r.flags (before ++ a :: b :: behind) = r.flags (before ++ b :: a :: behind) := by
  rcases h with h | h
  · rw [flags_insert h, List.append_cons before b (a :: behind), flags_insert h, ← List.append_cons]
  · rw [List.append_cons before a (b :: behind), flags_insert h, ← List.append_cons, flags_insert h]

/-- The last flag counts, and without one nothing changes. -/
theorem Lawful.readAll (hr : r.Lawful) {args : List String} {o o' : Options}
    (h : o.readAll args = .ok (.run o')) :
    (∃ argument, (r.flags args).getLast? = some argument ∧ r.Flag argument (r.get o')) ∨
      r.flags args = [] ∧ r.get o' = r.get o := by
  induction args generalizing o with
  | nil =>
    cases h
    exact .inr ⟨rfl, rfl⟩
  | cons argument rest ih =>
    have hterminal : ¬ Terminal argument := fun ⟨result, hresult⟩ =>
      hresult.ne_run o' ((hresult.readAll o rest).symm.trans h)
    obtain ⟨s, hs⟩ := exists_sets_iff.2 hterminal
    rw [hs.readAll] at h
    rcases hr.apply o hs with hflag | ⟨hnot, hsame⟩
    · rw [flags_cons_of_isFlag ⟨_, hflag⟩, List.getLast?_cons]
      rcases ih h with ⟨last, hlast, hx⟩ | ⟨hnone, hx⟩
      · exact .inl ⟨last, by rw [hlast, Option.getD_some], hx⟩
      · exact .inl ⟨argument, by rw [hnone]; rfl, hx ▸ hflag⟩
    · rw [flags_cons_of_not hnot, ← hsame]
      exact ih h

theorem Lawful.chosen (hr : r.Lawful) {args : List String} {env : String → Option String}
    {o : Options} (h : Options.parse args env = .ok (.run o)) : r.Chosen args env (r.get o) := by
  rcases hr.readAll h with ⟨argument, hlast, hx⟩ | ⟨hnone, hx⟩
  · exact .flag hlast hx
  · rw [hx]
    rcases hr.start env with ⟨text, htext, hvalid⟩ | ⟨hinvalid, hdefault⟩
    · exact .environment hnone htext hvalid
    · exact hdefault ▸ .default hnone hinvalid

/-- The value depends on the option's own flags only. -/
theorem Lawful.chosen_unique (hr : r.Lawful) {args args' : List String}
    {env : String → Option String} {x y : α} (hsame : r.flags args' = r.flags args)
    (hx : r.Chosen args env x) (hy : r.Chosen args' env y) : y = x := by
  cases hx with
  | flag hlast hx =>
    cases hy with
    | flag hlast' hy =>
      rw [hsame, hlast] at hlast'
      cases hlast'
      exact hr.flag_unique hy hx
    | environment hnone | default hnone => simp [← hsame, hnone] at hlast
  | environment hnone htext hx =>
    cases hy with
    | flag hlast' hy => simp [hsame, hnone] at hlast'
    | environment hnone' htext' hy =>
      rw [htext] at htext'
      cases htext'
      exact hr.valid_unique hy hx
    | default hnone' hinvalid => exact absurd hx (hinvalid _ _ htext)
  | default hnone hinvalid =>
    cases hy with
    | flag hlast' hy => simp [hsame, hnone] at hlast'
    | environment hnone' htext hy => exact absurd hy (hinvalid _ _ htext)
    | default => rfl

/-- The option has its chosen value in `o`, and keeps it as long as its own flags stay the same:
    those of other options may come in or change places. -/
structure Settled (r : Rule α) (args : List String) (env : String → Option String) (o : Options) :
    Prop where
  chosen : r.Chosen args env (r.get o)
  kept : ∀ args' o', Options.parse args' env = .ok (.run o') → r.flags args' = r.flags args →
    r.get o' = r.get o
  inserted : ∀ before argument behind o', args = before ++ behind → ¬ r.IsFlag argument →
    Options.parse (before ++ argument :: behind) env = .ok (.run o') → r.get o' = r.get o
  swapped : ∀ before a b behind o', args = before ++ a :: b :: behind →
    ¬ r.IsFlag a ∨ ¬ r.IsFlag b →
    Options.parse (before ++ b :: a :: behind) env = .ok (.run o') → r.get o' = r.get o

theorem Lawful.settled (hr : r.Lawful) {args : List String} {env : String → Option String}
    {o : Options} (h : Options.parse args env = .ok (.run o)) : r.Settled args env o := by
  have hkept : ∀ args' o', Options.parse args' env = .ok (.run o') →
      r.flags args' = r.flags args → r.get o' = r.get o :=
    fun args' o' h' hsame => hr.chosen_unique hsame (hr.chosen h) (hr.chosen h')
  constructor
  case chosen => exact hr.chosen h
  case kept => exact hkept
  case inserted =>
    intro before argument behind o' hargs hother h'
    exact hkept _ o' h' (hargs ▸ flags_insert hother before behind)
  case swapped =>
    intro before a b behind o' hargs hother h'
    exact hkept _ o' h' (hargs ▸ (flags_swap hother before behind).symm)

end Rule

-- That the data is printed as JSON can be asked for but not taken back.
theorem chosen_json_iff {args : List String} {env : String → Option String} {x : Bool}
    (h : Rule.json.Chosen args env x) :
    x = true ↔ "--json" ∈ args ∨
      ∃ text, env "RAY_DEMO_JSON" = some text ∧ (text = "1" ∨ CaseVariant "true" text) := by
  cases h with
  | flag hlast hx =>
    obtain ⟨rfl, hx⟩ := hx
    exact iff_of_true hx (.inl (Rule.mem_flags.1 (List.mem_of_getLast? hlast)).1)
  | environment hnone htext hx => exact iff_of_true hx.2 (.inr ⟨_, htext, hx.1⟩)
  | default hnone hinvalid =>
    refine iff_of_false Bool.false_ne_true ?_
    rintro (hmem | ⟨text, htext, hx⟩)
    · have hflag : "--json" ∈ Rule.json.flags args := Rule.mem_flags.2 ⟨hmem, true, rfl, rfl⟩
      rw [hnone] at hflag
      cases hflag
    · exact hinvalid text true htext ⟨hx, rfl⟩

/-- **A command line is decided by its first argument that decides alone, and else by the last flag
    of every option.**  The first such argument decides whatever stands behind it and whatever the
    environment holds.  If there is none, every option has the value of its last flag, else that of
    its variable if it is valid, and else its default; flags of other options that come in or change
    places do not change it. -/
theorem Options.parse_decided_or_settled (args : List String) (env : String → Option String) :
    (∃ before argument behind result, args = before ++ argument :: behind ∧
        (∀ a ∈ before, ¬ Terminal a) ∧ Decides argument result ∧
        ∀ behind' env', Options.parse (before ++ argument :: behind') env' = result) ∨
      (∀ a ∈ args, ¬ Terminal a) ∧ ∃ o, Options.parse args env = .ok (.run o) ∧
        Rule.rootId.Settled args env o ∧ Rule.ids.Settled args env o ∧
        Rule.clicks.Settled args env o ∧ Rule.json.Settled args env o ∧
        (o.json = true ↔ "--json" ∈ args ∨
          ∃ text, env "RAY_DEMO_JSON" = some text ∧ (text = "1" ∨ CaseVariant "true" text)) := by
  rcases first_terminal args with ⟨before, argument, behind, rfl, hbefore, result, hresult⟩ | hnone
  · refine .inl ⟨before, argument, behind, result, rfl, hbefore, hresult, fun behind' env' => ?_⟩
    obtain ⟨o', ho'⟩ := readAll_append hbefore (Options.ofEnvironment env')
    exact (ho' _).trans (hresult.readAll o' behind')
  · obtain ⟨o, ho⟩ := readAll_append hnone (Options.ofEnvironment env)
    have hrun : Options.parse args env = .ok (.run o) := by
      simpa [Options.parse, Options.readAll] using ho []
    exact .inr ⟨hnone, o, hrun, Rule.lawful_rootId.settled hrun, Rule.lawful_ids.settled hrun,
      Rule.lawful_clicks.settled hrun, Rule.lawful_json.settled hrun,
      chosen_json_iff (Rule.lawful_json.chosen hrun)⟩

end ReactiveView.Demo
