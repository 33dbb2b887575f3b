/-
BuildRelay.Catalog.View — asking a catalog.

A `View` is one artifact together with its key, its source path and its file. `view` asks for an
artifact of a given source; `find?` asks whoever owns the key; the lists go through the owners, so
they show each key once. Clients call the two `get_context_from_path` and `get_context`.
-/
import BuildRelay.Catalog.Basic

namespace BuildRelay

/-- An artifact, where it is kept, and the file it belongs to (`ContextPathData`). -/
structure View where
  path : String
  /-- The key in the store of that path. -/
  key : String
  artifact : Artifact
  id : FileId
  file : File
  deriving DecidableEq

namespace Catalog

/-- The artifact under a key of one source path (`get_context_from_path`). -/
def view (c : Catalog) (path key : String) : Option View := do
  let store ← c.stores.get? path
  let artifact ← store.artifacts.get? key
  let file ← c.files.get? store.file
  return ⟨path, key, artifact, store.file, file⟩

/-- The artifact of the source that answers for a key (`get_context`). -/
def find? (c : Catalog) (key : String) : Option View := do
  let owner ← c.owners.get? key
  c.view owner.path key

/-- The owned artifacts of one kind, in the order in which their keys were first claimed
(`get_contexts_of_type`). -/
def ofKind (c : Catalog) (k : Artifact.Kind) : List View :=
  (c.owners.entries.filterMap fun e => c.view e.2.path e.1).filter fun v => v.artifact.kind = k

/-- The artifacts of one kind that one source path keeps (`get_contexts_of_type_path`). -/
def ofKindAt (c : Catalog) (path : String) (k : Artifact.Kind) : List View :=
  match c.stores.get? path with
  | none => []
  | some store =>
    match c.files.get? store.file with
    | none => []
    | some file => (store.ofKind k).map fun e => ⟨path, e.1, e.2, store.file, file⟩

/-- The oldest artifact of one kind that one source path keeps
(`get_first_contexts_of_type_path`). -/
def firstOfKindAt (c : Catalog) (path : String) (k : Artifact.Kind) : Option View :=
  (c.ofKindAt path k).head?

/-- Whether some file answers for a path (`has_file`). -/
def hasFile (c : Catalog) (path : String) : Bool := (c.fileId? path).isSome

/-- The record of the file that answers for a path (`get_file`). -/
def file? (c : Catalog) (path : String) : Option File := (c.fileId? path).bind c.files.get?

/-- Whether a directory has held some path or key (`has_directory`). -/
def hasDirectory (c : Catalog) (dir : String) : Bool := c.directories.contains dir

end Catalog

end BuildRelay
