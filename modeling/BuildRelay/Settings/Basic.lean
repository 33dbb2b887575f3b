/-
BuildRelay.Settings.Basic — what a user configures about the builds.
-/
import BuildRelay.Settings.Decode

namespace BuildRelay

/-- Overrides of compiler options, and where building starts (`SolutionBuilderOptions`). -/
structure Settings where
  /-- Options laid over those of every project. -/
  overrides : Option Options
  /-- Options laid over those of one project, by the path of its config file. -/
  projects : OrderedMap String Options
  /-- The projects that the driver starts from. -/
  roots : List String
  deriving DecidableEq

namespace Settings

/-- Settings that leave everything to the driver. -/
def empty : Settings := ⟨none, ∅, []⟩

/-- The fields of the settings, in the order in which a list gives them. -/
def fields : List String := ["compilerOptions", "projects", "rootNames"]

/-- Reads one field; only the common overrides may be null. -/
def set (s : Settings) (field : String) (j : Json) : Decode.Result Settings :=
  if field = "compilerOptions" then
    if j = .null then .ok { s with overrides := none }
    else do return { s with overrides := some (← Decode.bag j) }
  else if field = "projects" then do
    return { s with projects := .ofList (← Decode.mapOf Decode.bag j) }
  else if field = "rootNames" then do
    return { s with roots := ← Decode.listOf Decode.text j }
  else .ok s

/-- Reads settings (`from_json`). -/
def ofJson : Json → Decode.Result Settings := Decode.record .settings fields set empty

end Settings

end BuildRelay
