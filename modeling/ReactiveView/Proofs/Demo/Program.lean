import Mathlib.Data.List.Range
import ReactiveView.Proofs.Demo.Clicks

/-!
# What the demo prints

The card has rendered once behind the mount, and behind each click it has rendered four times as
often as it was clicked: the two writes of the first click find one placeholder and then two that
differ from the mount, those of a later click find both.  As long as no id comes up twice, the id of
the last render is the latest one of the table and stands in the markup, so that every click is
taken; and the lines of a run follow.
-/

namespace ReactiveView.Demo

variable {g : Stage}

/-! ## 1. The card behind some clicks -/

/-- The card behind `k` clicks. -/
def Stage.cardAfter (g : Stage) : (k : Nat) → Card
  | 0 => g.mounted
  | k + 1 =>
    ⟨"jack", Binary64.ofInt 24, 4 * (k + 1),
      face.fill ["jack", (Binary64.ofInt 24).interpolation] (g.ids (4 * (k + 1))).getLast?⟩

/-- **Another click.** -/
theorem Stage.clicked_cardAfter (g : Stage) (k : Nat) :
    (g.cardAfter k).clicked g = g.cardAfter (k + 1) := by
  have hname : ("jack" == "Ray") = false := by decide
  have hsame : (Binary64.ofInt 18).equal (Binary64.ofInt 18) = true := by decide +kernel
  have hage : (Binary64.ofInt 24).equal (Binary64.ofInt 18) = false := by decide +kernel
  cases k with
  | zero =>
    simp [cardAfter, mounted, Card.clicked, Card.refreshed, Card.render, hname, hsame, hage]
  | succ k =>
    simp [cardAfter, Card.clicked, Card.refreshed, Card.render, hname, hage, Nat.mul_add]

theorem Stage.renders_cardAfter (g : Stage) (k : Nat) :
    (g.cardAfter k).renders = max 1 (4 * k) := by
  cases k with
  | zero => rfl
  | succ k =>
    show 4 * (k + 1) = _
    omega

-- The id of the last render.
theorem Stage.exists_last (hs : g.source.Endless) (k : Nat) :
    ∃ id, (g.ids (g.cardAfter k).renders).getLast? = some id := by
  obtain ⟨n, hn⟩ : ∃ n, (g.cardAfter k).renders = n + 1 :=
    ⟨max 1 (4 * k) - 1, by rw [renders_cardAfter]; omega⟩
  obtain ⟨id, -, hids⟩ := hs.draw_after g.entropy n
  exact ⟨id, by rw [hn, Stage.ids, hids, List.getLast?_concat]⟩

/-- What the card shows before and behind the first click. -/
def shownTexts : List (List String) :=
  [["Ray", (Binary64.ofInt 18).interpolation], ["jack", (Binary64.ofInt 24).interpolation]]

theorem Stage.mem_values_cardAfter (hbare : g.source.Bare) (k : Nat) {id : String}
    (hid : (g.ids (g.cardAfter k).renders).getLast? = some id) :
    id ∈ IdAttribute.values (g.cardAfter k).markup := by
  obtain ⟨hne, hchars⟩ := hbare.firstIds _ _ id (List.mem_of_getLast? hid)
  have hcount : ∀ texts ∈ shownTexts, IdAttribute.nameCount (face.fill texts none).toList = 0 := by
    decide +kernel
  have hchar : ∀ texts ∈ shownTexts, (face.fill texts none).toList[face.idOffset texts]?.all
      (!IdAttribute.isBareChar ·) := by decide +kernel
  have hwritten : ∃ texts ∈ shownTexts, (g.cardAfter k).markup = face.fill texts (g.ids (g.cardAfter k).renders).getLast? := by
    cases k with
    | zero => exact ⟨_, List.mem_cons_self, rfl⟩
    | succ k => exact ⟨_, List.mem_cons_of_mem _ List.mem_cons_self, rfl⟩
  obtain ⟨texts, htexts, hmarkup⟩ := hwritten
  rw [hmarkup, hid]
  refine Template.mem_values_fill face_parts.2.2 texts hne hchars
    (.inr ⟨hcount texts htexts, fun c hc => ?_⟩)
  have hbehind := hchar texts htexts
  change (face.fill texts none).toList[face.idOffset texts]? = some c at hc
  rw [hc] at hbehind
  simpa using hbehind

theorem Card.clickTarget?_page {c : Card} (hn : (g.ids c.renders).Nodup) {id : String}
    (hid : (g.ids c.renders).getLast? = some id) :
    clickTarget? ⟨0⟩ (c.page g) = some (⟨1⟩, id) := by
  show ((BindingTable.empty.insertAll (g.ids c.renders) clickBinding).latest?.map fun id =>
    ((⟨1⟩ : ElementId), id)) = _
  rw [BindingTable.latest?_insertAll hn, hid]
  rfl

/-! ## 2. Clicking -/

/-- The world after lines have been shown. -/
def World.showing (w : World Handler Screen) (ls : List String) : World Handler Screen :=
  { w with client := { w.client with shown := ls.reverse ++ w.client.shown } }

-- A request that succeeds hands its reply on.
theorem run_ask_bind {α : Type} {holds : Screen → List Node}
    {serve : Cue Handler → Run Handler Screen Unit} {op : Operation Handler} {a : op.Reply}
    {w w' : World Handler Screen} (h : op.run holds serve w = some (.ok a, w'))
    (f : op.Reply → Script α) (next : Except Failure α → Program Handler Screen) :
    ((Routine.ask op >>= f) next).run holds serve w = (f a next).run holds serve w' :=
  Program.run_perform h _

-- A look at the page changes nothing.
theorem run_look_bind {α β : Type} (holds : Screen → List Node)
    (serve : Cue Handler → Run Handler Screen Unit) (w : World Handler Screen)
    (f : Page Handler → β) (k : β → Script α) (next : Except Failure α → Program Handler Screen) :
    ((Routine.look f >>= k) next).run holds serve w = (k (f w.page) next).run holds serve w :=
  rfl

-- One turn of the loop, when the click is taken.
theorem run_clickThrough_succ {holds : Screen → List Node}
    {serve : Cue Handler → Run Handler Screen Unit} {e : EngineId} {w w' : World Handler Screen}
    {root : ElementId} {target : String} {n : Nat}
    (htarget : clickTarget? e w.page = some (root, target))
    (hclick : (Operation.dispatch root "click" target).run holds serve w = some (.ok n, w'))
    (json : Bool) (k remaining : Nat) (next : Except Failure Unit → Program Handler Screen) :
    (clickThrough json e k (remaining + 1) next).run holds serve w =
      (clickThrough json e (k + 1) remaining next).run holds serve
        (World.showing w' (stepLines ("click " ++ k.repr) json e w'.page)) := by
  show ((Routine.look (clickTarget? e) >>= _) next).run holds serve w = _
  rw [run_look_bind, htarget]
  exact run_ask_bind hclick _ next

/-- The lines of the clicks from number `k` on. -/
def Stage.clickLines (g : Stage) (json : Bool) (k remaining : Nat) : List String :=
  (List.range' k remaining).flatMap fun k =>
    stepLines ("click " ++ k.repr) json ⟨0⟩ ((g.cardAfter k).page g)

/-- **Every click is taken**, as long as no id comes up twice. -/
theorem run_clickThrough (hbare : g.source.Bare) {k remaining : Nat}
    (hn : (g.ids (g.cardAfter (k + remaining)).renders).Nodup) (json : Bool) (shown : List String)
    (next : Except Failure Unit → Program Handler Screen) :
    (clickThrough json ⟨0⟩ (k + 1) remaining next).run client.holds (client.answer 1)
        ⟨(g.cardAfter k).page g, ⟨some ⟨0⟩, shown⟩, []⟩ =
      (next (.ok ())).run client.holds (client.answer 1)
        ⟨(g.cardAfter (k + remaining)).page g,
          ⟨some ⟨0⟩, (g.clickLines json (k + 1) remaining).reverse ++ shown⟩, []⟩ := by
  induction remaining generalizing k shown with
  | zero => rfl
  | succ remaining ih =>
    have hs : g.source.Endless := hbare.endless
    obtain ⟨id, hid⟩ := Stage.exists_last hs k
    have hearlier : (g.ids (g.cardAfter k).renders).Nodup := by
      refine (IdSource.firstIds_prefix ?_ _ _).sublist.nodup hn
      rw [Stage.renders_cardAfter, Stage.renders_cardAfter]
      omega
    have hheld : .engine ⟨0⟩ ∈ client.holds ⟨some ⟨0⟩, shown⟩ := List.mem_cons_self
    have hclick := Card.dispatch_page [] hs hheld (List.mem_of_getLast? hid)
      (Stage.mem_values_cardAfter hbare k hid)
    rw [g.clicked_cardAfter k] at hclick
    rw [← Nat.add_assoc, Nat.add_right_comm] at hn ⊢
    have hlines : g.clickLines json (k + 1) (remaining + 1) =
        stepLines ("click " ++ (k + 1).repr) json ⟨0⟩ ((g.cardAfter (k + 1)).page g) ++
          g.clickLines json (k + 1 + 1) remaining := rfl
    rw [run_clickThrough_succ (Card.clickTarget?_page hearlier hid) hclick, hlines,
      List.reverse_append, List.append_assoc]
    exact ih hn _

/-! ## 3. A run -/

/-- How the ids of a run are made. -/
def Options.strategy (o : Options) : IdStrategy :=
  match o.ids with
  | .random => .random
  | .sequential => .sequential Config.defaultStem

/-- What a run with these options is given. -/
def Options.stage (o : Options) (entropy : Entropy) : Stage :=
  ⟨o.rootId, o.strategy.source, entropy⟩

theorem Options.bare_stage (o : Options) (entropy : Entropy) : (o.stage entropy).source.Bare := by
  obtain ⟨rootId, ids, clicks, json⟩ := o
  cases ids with
  | random => trivial
  | sequential =>
    have hall : Config.defaultStem.toList.all IdAttribute.isBareChar = true := by decide
    exact List.all_eq_true.1 hall

/-- What a run does once the card is mounted. -/
def afterMount (o : Options) (e : EngineId) : Script Unit := do
  Routine.remember fun screen => { screen with engine := some e }
  showStep "mount" o.json e
  clickThrough o.json e 1 o.clicks

theorem script_eq (o : Options) (config : Config) :
    script o config =
      (Routine.ask (.mount viewModel { config with rootId := o.rootId, ids := o.strategy }) >>=
        afterMount o) :=
  rfl

theorem run_afterMount (o : Options) (p : Page Handler) (holds : Screen → List Node)
    (serve : Cue Handler → Run Handler Screen Unit)
    (next : Except Failure Unit → Program Handler Screen) :
    (afterMount o ⟨0⟩ next).run holds serve ⟨p, {}, []⟩ =
      (clickThrough o.json ⟨0⟩ (0 + 1) o.clicks next).run holds serve
        ⟨p, ⟨some ⟨0⟩, (stepLines "mount" o.json ⟨0⟩ p).reverse ++ []⟩, []⟩ :=
  rfl

/-- The lines of a run. -/
def Stage.lines (g : Stage) (json : Bool) (clicks : Nat) : List String :=
  stepLines "mount" json ⟨0⟩ ((g.cardAfter 0).page g) ++ g.clickLines json 1 clicks

theorem run_script (o : Options) (config : Config) (entropy : Entropy)
    (hn : ((o.stage entropy).ids (max 1 (4 * o.clicks))).Nodup) :
    ∃ world, client.run 1 (script o config).program ⟨.ofIds [o.rootId] entropy, {}, []⟩ =
        some (.ok (), world) ∧
      world.client.shown.reverse = (o.stage entropy).lines o.json o.clicks := by
  have hmount :
      (Operation.mount viewModel { config with rootId := o.rootId, ids := o.strategy }).run
        client.holds (client.answer 1) ⟨.ofIds [o.rootId] entropy, {}, []⟩ =
          some (.ok ⟨0⟩, ⟨((o.stage entropy).cardAfter 0).page (o.stage entropy), {}, []⟩) := by
    have hcard := mount_card { config with rootId := o.rootId, ids := o.strategy } entropy
    dsimp only at hcard
    rw [Operation.run, Run.attempt]
    dsimp only
    rw [hcard]
    rfl
  have hnodup : ((o.stage entropy).ids
      ((o.stage entropy).cardAfter (0 + o.clicks)).renders).Nodup := by
    rwa [Nat.zero_add, Stage.renders_cardAfter]
  rw [Client.run, Routine.program, script_eq, run_ask_bind hmount, run_afterMount,
    run_clickThrough (o.bare_stage entropy) hnodup]
  refine ⟨_, rfl, ?_⟩
  rw [List.reverse_append, List.reverse_append, List.reverse_reverse, List.reverse_reverse]
  rfl

/-- **A run prints what the card shows**, behind the mount and behind each click, as long as no id
    comes up twice. -/
theorem perform_eq (o : Options) (config : Config) (entropy : Entropy)
    (hn : ((o.stage entropy).ids (max 1 (4 * o.clicks))).Nodup) :
    perform o config entropy =
      { code := 0, out := lines ((o.stage entropy).lines o.json o.clicks) } := by
  obtain ⟨world, hrun, hshown⟩ := run_script o config entropy hn
  rw [perform, hrun]
  dsimp only
  rw [hshown]

/-! ## 4. Sequential ids -/

/-- The markup of the card. -/
def cardMarkup (name age id : String) : String :=
  "<div><div>name: " ++ name ++ "</div><div>age: " ++ age ++
    "</div><button @click=\"handleClick\" id=" ++ id ++ ">click</button></div>"

/-- A line that shows the card. -/
def cardLine (label : String) (renders : Nat) (name age id : String) : String :=
  "[" ++ label ++ "] renders=" ++ renders.repr ++ " " ++ cardMarkup name age id

-- A template with two placeholders and its binding site behind them.
theorem fill_pair {c front back : String} {n : Nat}
    (hfront : String.ofList (c.toList.take n) ++ " id=" = front)
    (hback : String.ofList (c.toList.drop n) = back) (source a b k l : String) (binding : Binding)
    (x y id : String) :
    (⟨source, [.text a, .slot k, .text b, .slot l, .text c], some ⟨4, n, binding⟩⟩ : Template).fill
      [x, y] (some id) = a ++ x ++ b ++ y ++ front ++ id ++ back := by
  rw [← hfront, ← hback]
  simp [Template.fill, Template.fillFrom, Template.textAt, String.append_assoc]

theorem fill_face (name age id : String) :
    face.fill [name, age] (some id) = cardMarkup name age id := by
  rw [face_eq]
  exact fill_pair (by decide +kernel) (by decide +kernel) _ _ _ _ _ _ _ _ _

theorem Stage.getLast?_ids (g : Stage) (hs : g.source = .startingAt Config.defaultStem) (n : Nat) :
    (g.ids (n + 1)).getLast? = some ("ra" ++ Text.Base36.encode (n + 1)) := by
  rw [Stage.ids, hs, IdSource.startingAt, IdSource.firstIds_sequential, List.getLast?_map,
    List.getLast?_range', if_neg (Nat.succ_ne_zero n), Nat.add_sub_cancel_left]
  rfl

-- What a run with sequential ids prints without the data.
theorem Stage.lines_of_sequential (hs : g.source = .startingAt Config.defaultStem) (clicks : Nat) :
    g.lines false clicks = cardLine "mount" 1 "Ray" "18" "ra1" ::
      (List.range' 1 clicks).map fun k =>
        cardLine ("click " ++ k.repr) (4 * k) "jack" "24"
          ("ra" ++ Text.Base36.encode (4 * k)) := by
  have hage : (Binary64.ofInt 18).interpolation = "18" ∧
      (Binary64.ofInt 24).interpolation = "24" := by decide +kernel
  have hline : ∀ label (c : Card), stepLines label false ⟨0⟩ (c.page g) =
      ["[" ++ label ++ "] renders=" ++ c.renders.repr ++ " " ++ c.markup] := fun _ _ => rfl
  have hmount : (g.cardAfter 0).markup = cardMarkup "Ray" "18" "ra1" := by
    have hfirst : "ra" ++ Text.Base36.encode (0 + 1) = "ra1" := by decide +kernel
    show face.fill ["Ray", (Binary64.ofInt 18).interpolation] (g.ids (0 + 1)).getLast? = _
    rw [g.getLast?_ids hs 0, hage.1, fill_face, hfirst]
  have hclick : ∀ k, (g.cardAfter (k + 1)).markup =
      cardMarkup "jack" "24" ("ra" ++ Text.Base36.encode (4 * (k + 1))) := by
    intro k
    have hnext : 4 * (k + 1) = 4 * k + 3 + 1 := by omega
    show face.fill ["jack", (Binary64.ofInt 24).interpolation] (g.ids (4 * (k + 1))).getLast? = _
    rw [hnext, g.getLast?_ids hs (4 * k + 3), hage.2, fill_face]
  have hclicks : g.clickLines false 1 clicks = (List.range' 1 clicks).map fun k =>
      cardLine ("click " ++ k.repr) (4 * k) "jack" "24"
        ("ra" ++ Text.Base36.encode (4 * k)) := by
    rw [List.map_eq_flatMap]
    refine List.flatMap_congr fun k hk => ?_
    obtain ⟨k, rfl⟩ := Nat.exists_eq_add_of_le' (List.mem_range'_1.1 hk).1
    rw [hline, hclick]
    rfl
  rw [Stage.lines, hline, hmount, hclicks]
  rfl

/-! ## 5. The whole program -/

/-- None of the random ids that a run draws comes up twice. -/
def Distinct (args : List String) (env : String → Option String) (entropy : Entropy) : Prop :=
  ∀ o, Options.parse args env = .ok (.run o) → o.ids = .random →
    (IdSource.random.firstIds (max 1 (4 * o.clicks)) entropy).Nodup

/-- **What the program does** with these arguments, in this environment and with these random
    words. -/
structure Lawful (args : List String) (env : String → Option String) (entropy : Entropy) :
    Prop where
  -- It ends with 2 if the arguments are refused, and then only.
  refused : (run args env entropy).code = 2 ↔ ∃ error, Options.parse args env = .error error
  help : Options.parse args env = .ok .help →
    run args env entropy = { code := 0, out := lines [helpText] }
  version : Options.parse args env = .ok .version →
    run args env entropy = { code := 0, out := lines [versionLine] }
  -- It ends with 1 if a run finds a configuration that is refused, and then only.
  misconfigured : Distinct args env entropy → ((run args env entropy).code = 1 ↔
    ∃ o error, Options.parse args env = .ok (.run o) ∧ Config.ofSettings env = .error error)
  -- Every other run ends with 0.
  succeeds : Distinct args env entropy → ∀ o config, Options.parse args env = .ok (.run o) →
    Config.ofSettings env = .ok config → (run args env entropy).code = 0
  -- A run with sequential ids prints a line for the mount and one for each click.
  prints : ∀ o config, Options.parse args env = .ok (.run o) →
    Config.ofSettings env = .ok config → o.ids = .sequential → o.json = false →
      run args env entropy =
        { code := 0
          out := lines (cardLine "mount" 1 "Ray" "18" "ra1" ::
            (List.range' 1 o.clicks).map fun k =>
              cardLine ("click " ++ k.repr) (4 * k) "jack" "24"
                ("ra" ++ Text.Base36.encode (4 * k))) }
  -- What the configuration is, as long as it is accepted, makes no difference.
  indifferent : ∀ env' : String → Option String,
    (∀ name : String, ¬ "RAYACTIVE_".toList <+: name.toList → env' name = env name) →
    (∃ config, Config.ofSettings env = .ok config) →
    (∃ config, Config.ofSettings env' = .ok config) → run args env' entropy = run args env entropy

theorem parse_congr {env env' : String → Option String}
    (h : ∀ name : String, ¬ "RAYACTIVE_".toList <+: name.toList → env' name = env name)
    (args : List String) : Options.parse args env' = Options.parse args env := by
  have hroot := h "RAY_DEMO_ROOT_ID" (by decide)
  have hids := h "RAY_DEMO_IDS" (by decide)
  have hclicks := h "RAY_DEMO_CLICKS" (by decide)
  have hjson := h "RAY_DEMO_JSON" (by decide)
  rw [Options.parse, Options.parse, Options.ofEnvironment, Options.ofEnvironment, hroot, hids,
    hclicks, hjson]

-- A run overrides all that the configuration says.
theorem perform_congr (o : Options) (config config' : Config) (entropy : Entropy) :
    perform o config entropy = perform o config' entropy := by
  rw [perform, perform, script_eq, script_eq]

-- Only random ids may come up twice.
theorem Options.nodup_ids (o : Options) {entropy : Entropy} {n : Nat}
    (h : o.ids = .random → (IdSource.random.firstIds n entropy).Nodup) :
    ((o.stage entropy).ids n).Nodup := by
  cases hids : o.ids with
  | random =>
    have hstage : (o.stage entropy).ids n = IdSource.random.firstIds n entropy := by
      rw [Stage.ids, Options.stage, Options.strategy, hids]
      rfl
    rw [hstage]
    exact h hids
  | sequential =>
    have hstage : (o.stage entropy).source = .sequential Config.defaultStem 1 := by
      rw [Options.stage, Options.strategy, hids]
      rfl
    have hdraws := ((o.bare_stage entropy).endless.draws_firstIds entropy n).1
    rw [hstage] at hdraws
    rw [Stage.ids, hstage]
    exact hdraws.sequential.1

theorem run_of_run {args : List String} {env : String → Option String} {o : Options}
    {config : Config} (hparse : Options.parse args env = .ok (.run o))
    (hconfig : Config.ofSettings env = .ok config) (entropy : Entropy) :
    run args env entropy = perform o config entropy := by
  simp only [run, hparse, hconfig]

theorem perform_code_ne (o : Options) (config : Config) (entropy : Entropy) :
    (perform o config entropy).code ≠ 2 := by
  rw [perform]
  split <;> simp

-- How the program ends.
theorem code_cases (args : List String) (env : String → Option String) (entropy : Entropy) :
    (∃ error, Options.parse args env = .error error ∧ (run args env entropy).code = 2) ∨
      (∃ o error, Options.parse args env = .ok (.run o) ∧ Config.ofSettings env = .error error ∧
        (run args env entropy).code = 1) ∨
      (run args env entropy).code ≠ 2 ∧
        (Distinct args env entropy → (run args env entropy).code = 0) := by
  rw [run]
  split
  · rename_i error hparse
    exact .inl ⟨error, hparse, rfl⟩
  · exact .inr (.inr ⟨by decide, fun _ => rfl⟩)
  · exact .inr (.inr ⟨by decide, fun _ => rfl⟩)
  · rename_i o hparse
    split
    · rename_i error hconfig
      exact .inr (.inl ⟨o, error, hparse, hconfig, rfl⟩)
    · refine .inr (.inr ⟨perform_code_ne _ _ _, fun hdistinct => ?_⟩)
      rw [perform_eq _ _ _ (o.nodup_ids (hdistinct o hparse))]

/-- **The law of the program.** -/
theorem run_lawful (args : List String) (env : String → Option String) (entropy : Entropy) :
    Lawful args env entropy := by
  have hcases := code_cases args env entropy
  refine ⟨?_, fun hparse => ?_, fun hparse => ?_, fun hdistinct => ?_,
    fun hdistinct o config hparse hconfig => ?_, fun o config hparse hconfig hids hjson => ?_,
    fun env' hsame hconfig hconfig' => ?_⟩
  · refine ⟨fun hcode => ?_, fun ⟨error, hparse⟩ => by simp only [run, hparse]⟩
    rcases hcases with ⟨error, hparse, -⟩ | ⟨-, -, -, -, hother⟩ | ⟨hother, -⟩
    · exact ⟨error, hparse⟩
    all_goals omega
  · simp only [run, hparse]
  · simp only [run, hparse]
  · refine ⟨fun hcode => ?_, fun ⟨o, error, hparse, hconfig⟩ => by
      simp only [run, hparse, hconfig]⟩
    rcases hcases with ⟨-, -, hother⟩ | ⟨o, error, hparse, hconfig, -⟩ | ⟨-, hother⟩
    · omega
    · exact ⟨o, error, hparse, hconfig⟩
    · have hzero := hother hdistinct
      omega
  · rw [run_of_run hparse hconfig, perform_eq _ _ _ (o.nodup_ids (hdistinct o hparse))]
  · have hstage : (o.stage entropy).source = .startingAt Config.defaultStem := by
      rw [Options.stage, Options.strategy, hids]
      rfl
    -- sequential ids never come up twice
    have hn : ((o.stage entropy).ids (max 1 (4 * o.clicks))).Nodup :=
      o.nodup_ids fun hrandom => by rw [hids] at hrandom; cases hrandom
    rw [run_of_run hparse hconfig, perform_eq _ _ _ hn, hjson, Stage.lines_of_sequential hstage]
  · obtain ⟨config, hconfig⟩ := hconfig
    obtain ⟨config', hconfig'⟩ := hconfig'
    rw [run, run, parse_congr hsame, hconfig, hconfig']
    simp only [perform_congr _ config' config]

-- Two clicks with random ids, drawn from words that count upwards, and one with sequential ids.
theorem run_lawful_clicked :
    (IdSource.random.firstIds 8 fun i => UInt64.ofNat i).Nodup ∧
      (run ["--ids=random", "--clicks=2"] (fun _ => none) fun i => UInt64.ofNat i).code = 0 ∧
      run [] (fun _ => none) (fun _ => 0) =
        { code := 0
          out :=
            "[mount] renders=1 <div><div>name: Ray</div><div>age: 18</div>" ++
              "<button @click=\"handleClick\" id=ra1>click</button></div>\n" ++
            "[click 1] renders=4 <div><div>name: jack</div><div>age: 24</div>" ++
              "<button @click=\"handleClick\" id=ra4>click</button></div>\n" } := by
  have hparse : Options.parse ["--ids=random", "--clicks=2"] (fun _ => none) =
      .ok (.run { ids := .random, clicks := 2 }) := by decide +kernel
  have hnodup : (IdSource.random.firstIds 8 fun i => UInt64.ofNat i).Nodup := by decide +kernel
  have hdistinct : Distinct ["--ids=random", "--clicks=2"] (fun _ => none)
      fun i => UInt64.ofNat i := by
    intro o ho _
    cases hparse.symm.trans ho
    exact hnodup
  refine ⟨hnodup, (run_lawful _ _ _).succeeds hdistinct _ _ hparse rfl, ?_⟩
  rw [(run_lawful [] (fun _ => none) fun _ => 0).prints {} _ rfl rfl rfl rfl]
  decide +kernel

end ReactiveView.Demo
