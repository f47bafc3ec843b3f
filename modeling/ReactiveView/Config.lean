import ReactiveView.BindingId
import ReactiveView.Text.Blank

/-!
# Configuration

Where a view is mounted and how its binding ids are made.  Named settings override the defaults: a
root id that is all blanks and an unknown strategy are refused, in this order.
-/

namespace ReactiveView

/-- How binding ids are made. -/
inductive IdStrategy where
  | random
  | sequential (stem : String)
  deriving DecidableEq, Repr

/-- The source of ids that a strategy starts with. -/
def IdStrategy.source : IdStrategy → IdSource
  | random => .random
  | sequential stem => .startingAt stem

/-- The root id of views that name no other. -/
def Config.defaultRootId : String := "root"

/-- What a view is mounted with. -/
structure Config where
  -- The id of the element that receives the markup and the listeners.
  rootId : String := Config.defaultRootId
  ids : IdStrategy := .random
  deriving DecidableEq, Repr

namespace Config

/-- The stem of sequential ids unless set otherwise. -/
def defaultStem : String := "ra"

/-- The root id that the settings ask for. -/
def rootIdFrom (setting : String → Option String) : Except EngineError String :=
  match setting "RAYACTIVE_ROOT_ID" with
  | none => .ok defaultRootId
  | some id =>
    if Text.isAllBlank id then .error (.invalidConfig "RAYACTIVE_ROOT_ID is empty") else .ok id

/-- The strategy that the settings ask for.  Its name may stand in any case and between blanks. -/
def strategyFrom (setting : String → Option String) : Except EngineError IdStrategy :=
  match setting "RAYACTIVE_ID_STRATEGY" with
  | none => .ok .random
  | some strategy =>
    let name := Text.lowerAscii (Text.trim strategy)
    if name = "random" then .ok .random
    else if name = "sequential" then
      .ok (.sequential ((setting "RAYACTIVE_ID_PREFIX").getD defaultStem))
    else
      .error (.invalidConfig
        ("RAYACTIVE_ID_STRATEGY must be `random` or `sequential`, got `" ++ name ++ "`"))

/-- The defaults, overridden by the settings. -/
def ofSettings (setting : String → Option String) : Except EngineError Config := do
  let rootId ← rootIdFrom setting
  let ids ← strategyFrom setting
  return ⟨rootId, ids⟩

end Config

end ReactiveView
