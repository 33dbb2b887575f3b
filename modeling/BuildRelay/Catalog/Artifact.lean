/-
BuildRelay.Catalog.Artifact — what the catalog holds about a source file.

* `Artifact` — the text of the source, an output emitted for it, or one of its imports.
* `Artifact.merge` — a second report of the same artifact: the later one wins, but an output that
  is announced again keeps the text it already has.
* `Artifact.fill?` — the text of an announced output arrives.

Clients call an artifact a context, and its kinds by other names: the source, the destination (a
script), the definition (typings), the source map, and the declaration (an import).
-/

namespace BuildRelay

/-- What the compiler emits for a source. -/
inductive OutputKind where
  | script
  | typings
  | sourceMap
  deriving DecidableEq, Repr

namespace OutputKind

/-- The kind of an emitted path, read off its ending (`from_output_path`). -/
def ofPath? (path : String) : Option OutputKind :=
  let ends (tail : String) : Bool := tail.toList.isSuffixOf path.toList
  if ends ".js.map" then some .sourceMap
  else if ends ".d.ts" then some .typings
  else if ends ".js" then some .script
  else none

end OutputKind

/-- The published package that an import leads into. -/
structure PackageId where
  name : String
  subModuleName : String
  version : String
  deriving DecidableEq, Repr

/-- Where an import leads. It is kept under the specifier as the source writes it, so it means
something only beside the importing source (`DeclarationContext`). -/
structure ImportLink where
  destPath : String
  extension : String
  /-- Whether the file belongs to an external library. -/
  external : Bool
  /-- The package of the file, if it is known. -/
  packageId : Option PackageId
  deriving DecidableEq, Repr

/-- One thing known about a source file (`Context`). -/
inductive Artifact where
  | source (text : String)
  /-- An output, whose path is known before its text arrives. -/
  | output (kind : OutputKind) (text : Option String)
  | importLink (link : ImportLink)
  deriving DecidableEq, Repr

namespace Artifact

/-- The kinds of artifacts (`ContextType`). -/
inductive Kind where
  | source
  | output (kind : OutputKind)
  | importLink
  deriving DecidableEq, Repr

/-- Every kind, each once. -/
def Kind.all : List Kind :=
  [.source, .output .script, .output .typings, .output .sourceMap, .importLink]

/-- The kind of an artifact. -/
def kind : Artifact → Kind
  | source _ => .source
  | output k _ => .output k
  | importLink _ => .importLink

/-- Whether the artifact is an import. -/
def isImport : Artifact → Bool
  | importLink _ => true
  | _ => false

/-- The import, if the artifact is one. -/
def link? : Artifact → Option ImportLink
  | importLink l => some l
  | _ => none

/-- The text known so far. -/
def text? : Artifact → Option String
  | source t => some t
  | output _ t => t
  | importLink _ => none

/-- An output of a kind whose text has not arrived; sources and imports are never incomplete
(`incomplete`). -/
def incomplete? : Kind → Option Artifact
  | .output k => some (output k none)
  | .source | .importLink => none

/-- The artifact with its text arrived; only an output takes one (`set_text`). -/
def fill? (text : String) : Artifact → Option Artifact
  | output k _ => some (output k (some text))
  | source _ | importLink _ => none

/-- A later report of an artifact: it replaces the earlier one, except that an output reported
again without text keeps its text (`merge`). -/
def merge : (old new : Artifact) → Artifact
  | output k old, output k' new => if k = k' then output k (new.or old) else output k' new
  | _, new => new

end Artifact

end BuildRelay
