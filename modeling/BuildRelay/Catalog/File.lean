/-
BuildRelay.Catalog.File — the files that the build driver reports.

A file is a record with an identity apart from its path: reporting a path again replaces the
record under the identity it already has.
-/
import BuildRelay.Options

namespace BuildRelay

/-- The identity of a file in one catalog. Files are counted as they are created and an identity is
never used again; the count has no bound here, and as long as a session has created fewer than
`2 ^ 32` files it is that of a 32-bit counter (`Workspace.toNat_of_few_births`). -/
abbrev FileId := Nat

namespace File

/-- What a file is to the compiler (`FileKind`). -/
inductive Kind where
  /-- Known by its path only. -/
  | plain
  /-- Compiled, with outputs of its own. -/
  | compiled
  /-- Read for its typings and never compiled. -/
  | readOnly
  deriving DecidableEq, Repr

end File

/-- What the driver says about one file. -/
structure File where
  kind : File.Kind
  /-- The path that the driver reports. -/
  fileName : String
  project : String
  options : Options
  deriving DecidableEq

namespace File

/-- The record of a path that nobody has described yet. -/
def placeholder (fileName : String) : File := ⟨.plain, fileName, "", ∅⟩

/-- Whether the file is compiled. -/
def isCompiled (f : File) : Bool := f.kind = .compiled

/-- Whether the file is only read for its typings. -/
def isReadOnly (f : File) : Bool := f.kind = .readOnly

end File

end BuildRelay
