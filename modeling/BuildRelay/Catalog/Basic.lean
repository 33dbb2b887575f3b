/-
BuildRelay.Catalog.Basic — files, the artifacts of every source path, and who answers for a key.

An artifact is kept under a key in the store of one source path: the source's own path for its
text, the emitted path for an output, the written specifier for an import. A catalog keeps

* `files` — the record of each file, by identity;
* `stores` — for each source path its file and its artifacts;
* `owners` — for each key that is not an import the source path that answers for it, although
  several stores may hold an artifact under that key;
* `directories` — the parents of all paths and keys ever written.

The first store to hold a key owns it, and a compiled file takes it over, so that live output
hides a stale owner that was only read. Deleting a file deletes what it owns and nothing else.

A catalog is what clients know as a contexts collection, and a store as a contexts map. The
operations that they call are named with the definitions that stand for them: `put` is `assign`,
which finds the store in `enroll` and takes a key in `claim`; `fill?` is `get_context_mut` with
`set_text`; `takeFile` and `takePath` are `delete_by_file` and `delete_by_path`.
-/
import BuildRelay.Catalog.Artifact
import BuildRelay.Catalog.File
import BuildRelay.Path.Basic

namespace BuildRelay

/-- The artifacts kept under one source path, and the file they belong to (`ContextsMap`). -/
structure Store where
  file : FileId
  /-- The artifacts by key, in the order in which their keys came. -/
  artifacts : OrderedMap String Artifact
  deriving DecidableEq

namespace Store

/-- The store with an artifact under a key (`insert`). -/
def put (s : Store) (key : String) (a : Artifact) : Store :=
  { s with artifacts := s.artifacts.insert key a }

/-- The artifacts of one kind with their keys (`of_type`). -/
def ofKind (s : Store) (k : Artifact.Kind) : List (String × Artifact) :=
  s.artifacts.entries.filter fun e => e.2.kind = k

end Store

/-- Who answers for a key. -/
structure Owner where
  /-- The source path whose store holds the artifact. -/
  path : String
  /-- The file of that store. -/
  file : FileId
  deriving DecidableEq, Repr

/-- Files, stores and owners of one build session (`ContextsCollection`). -/
structure Catalog where
  files : OrderedMap FileId File
  /-- The identity that the next new file gets (`next_file_id`). -/
  nextId : FileId
  /-- Who answers for each key (`context_path_map`). -/
  owners : OrderedMap String Owner
  /-- The store of each source path (`path_map`). -/
  stores : OrderedMap String Store
  /-- The directories that hold some path or key. -/
  directories : List String
  deriving DecidableEq

namespace Catalog

/-- The catalog that knows nothing. -/
def empty : Catalog := ⟨∅, 0, ∅, ∅, []⟩

instance : EmptyCollection Catalog := ⟨empty⟩

instance : Inhabited Catalog := ⟨empty⟩

/-! ## Writing -/

/-- The catalog with a directory noted. -/
def noteDirectory (c : Catalog) (dir : String) : Catalog :=
  { c with directories := c.directories.insert dir }

/-- Gives a file the next identity. -/
def addFile (c : Catalog) (file : File) : FileId × Catalog :=
  (c.nextId, { c with files := c.files.insert c.nextId file, nextId := c.nextId + 1 })

/-- The store of a source path, opened if need be. An open store passes a given record on to its
file. A new store belongs to the given file; without one it belongs to the file that already
answers for the path, or else to a placeholder. This is how `assign` begins. -/
def enroll (c : Catalog) (path : String) (file : Option File) : Store × Catalog :=
  match c.stores.get? path, file with
  | some store, none => (store, c)
  | some store, some f => (store, { c with files := c.files.modify store.file fun _ => f })
  | none, _ =>
    let (id, c) :=
      match file, c.owners.get? path with
      | none, some owner => (owner.file, c)
      | none, none => c.addFile (.placeholder path)
      | some f, _ => c.addFile f
    let store : Store := ⟨id, ∅⟩
    (store, { c with stores := c.stores.insert path store }.noteDirectory (Path.parent path))

/-- Whether a file is known to be compiled. -/
def isCompiled (c : Catalog) (id : FileId) : Bool := (c.files.get? id).any File.isCompiled

/-- Claims a key: an unclaimed key goes to whoever asks, a claimed one only to a compiled file. This
is how `assign` comes to name a new owner. -/
def claim (c : Catalog) (key : String) (owner : Owner) : Catalog :=
  if c.isCompiled owner.file || !c.owners.contains key then
    { c with owners := c.owners.insert key owner }
  else c

/-- Writes an artifact into the store of a source path. One already there under the key is merged
with it; a new one claims its key, unless it is an import. Answers with the owning file
(`assign`). -/
def put (c : Catalog) (path key : String) (a : Artifact) (file : Option File) :
    FileId × Catalog :=
  let (store, c) := c.enroll path file
  match store.artifacts.get? key with
  | some old =>
    (store.file, { c with stores := c.stores.insert path (store.put key (old.merge a)) })
  | none =>
    let c := if a.isImport then c else c.claim key ⟨path, store.file⟩
    (store.file,
      { c with stores := c.stores.insert path (store.put key a) }.noteDirectory (Path.parent key))

/-- Puts the text of an output where the owner of its key keeps it; `none` if the key has no
owner or stands for something that takes no text (`set_text` on what `get_context_mut` finds). -/
def fill? (c : Catalog) (key text : String) : Option Catalog := do
  let owner ← c.owners.get? key
  let store ← c.stores.get? owner.path
  let filled ← (← store.artifacts.get? key).fill? text
  return { c with stores := c.stores.insert owner.path (store.put key filled) }

/-! ## Deleting -/

/-- Deletes a file with its stores and the keys it answers for. -/
def deleteFile (c : Catalog) (id : FileId) : Catalog :=
  { c with
    files := c.files.erase id
    owners := c.owners.filter fun _ o => o.file ≠ id
    stores := c.stores.filter fun _ s => s.file ≠ id }

/-- The file that answers for a path: the owner of its store, or else of its key (`file_id`). -/
def fileId? (c : Catalog) (path : String) : Option FileId :=
  ((c.stores.get? path).map Store.file).or ((c.owners.get? path).map Owner.file)

/-- Deletes a file and hands out its record, if it had one (`delete_by_file`). -/
def takeFile (c : Catalog) (id : FileId) : Option File × Catalog :=
  (c.files.get? id, c.deleteFile id)

/-- Deletes the file that answers for a path, if any does, and hands out its record
(`delete_by_path`). -/
def takePath (c : Catalog) (path : String) : Option File × Catalog :=
  match c.fileId? path with
  | some id => c.takeFile id
  | none => (none, c)

end Catalog

end BuildRelay
