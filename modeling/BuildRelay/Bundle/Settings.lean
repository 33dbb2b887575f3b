/-
BuildRelay.Bundle.Settings — what a user configures about the bundle.
-/
import BuildRelay.Settings.Decode

namespace BuildRelay

/-- What goes into the bundle. -/
structure BundleSettings where
  /-- Every compiled source becomes a chunk, not only those that the bundle imports. -/
  includeUnused : Bool
  deriving DecidableEq, Repr

namespace BundleSettings

/-- Only what the bundle imports. -/
def empty : BundleSettings := ⟨false⟩

/-- The fields of the settings, in the order in which a list gives them. -/
def fields : List String := ["includeUnusedFiles"]

/-- Reads one field. -/
def set (s : BundleSettings) (field : String) (j : Json) : Decode.Result BundleSettings :=
  if field = "includeUnusedFiles" then do return { s with includeUnused := ← Decode.truth j }
  else .ok s

/-- Reads settings. -/
def ofJson : Json → Decode.Result BundleSettings := Decode.record .bundleSettings fields set empty

end BundleSettings

end BuildRelay
