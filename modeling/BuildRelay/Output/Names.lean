/-
BuildRelay.Output.Names — the paths that the compiler emits for one source.
-/
import BuildRelay.Catalog.Artifact
import BuildRelay.Options

namespace BuildRelay

/-- The emitted paths of one source; the options decide which of them there are
(`OutputFileNames`). -/
structure OutputNames where
  script : Option String
  typings : Option String
  sourceMap : Option String
  deriving DecidableEq, Repr

namespace OutputNames

/-- A source for which nothing is emitted. -/
def none : OutputNames := ⟨.none, .none, .none⟩

/-- The paths that there are, each with its kind. -/
def toList (n : OutputNames) : List (OutputKind × String) :=
  (n.script.map (OutputKind.script, ·)).toList
    ++ (n.typings.map (OutputKind.typings, ·)).toList
    ++ (n.sourceMap.map (OutputKind.sourceMap, ·)).toList

end OutputNames

/-- A rule that names the outputs of a source, given its options, its path, and whether case
counts in file names (`OutputNamer`). -/
abbrev OutputNaming := (options : Options) → (fileName : String) → (ignoreCase : Bool) → OutputNames

end BuildRelay
