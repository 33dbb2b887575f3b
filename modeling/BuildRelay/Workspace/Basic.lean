/-
BuildRelay.Workspace.Basic — the catalog of a build session, seen project by project.

One pass over a project makes it active, drops what it registered before, registers its sources
and announces their outputs; texts arrive while the outputs are written, and imports are recorded
while they are resolved. The workspace remembers which project registered which file, so that a
later pass can drop them, and which paths the bundler has asked for in the current cycle.

A workspace is what clients know as the file repository cache; the operation that they call is named
with the definition that stands for it.
-/
import BuildRelay.Catalog.View
import BuildRelay.Path.Resolver

namespace BuildRelay

/-- The shared state of a build session (`FileRepositoryCache`). -/
structure Workspace where
  paths : Path.Resolver
  /-- The paths that the bundler asked for, in the order in which it first did. -/
  consumed : List String
  /-- The files that each project registered, in the order in which it first did. -/
  projects : OrderedMap String (List FileId)
  /-- The project whose pass is running. -/
  active : Option String
  catalog : Catalog
  deriving DecidableEq

namespace Workspace

/-- The fresh workspace that resolves paths with the given resolver. -/
def ofResolver (paths : Path.Resolver) : Workspace := ⟨paths, [], ∅, none, ∅⟩

/-- The fresh workspace of a directory. -/
def inDir (cwd : String) : Workspace := ofResolver (.inDir cwd)

/-! ## Projects -/

/-- Deletes the files that a project registered; its list of files is empty afterwards. A project
that never registered anything is left unknown (`clear_project`). -/
def clearProject (w : Workspace) (project : String) : Workspace :=
  match w.projects.get? project with
  | none => w
  | some ids =>
    { w with
      projects := w.projects.insert project []
      catalog := ids.foldl Catalog.deleteFile w.catalog }

/-- Starts a pass over a project: drops what it registered before and makes it active
(`set_and_reset_project`). -/
def resetProject (w : Workspace) (project : String) : Workspace :=
  { w.clearProject project with active := some project }

/-- Ends the pass: later registrations belong to no project (`clear_active_project`). -/
def clearActive (w : Workspace) : Workspace := { w with active := none }

/-- The records of the files that a project registered and that are still there
(`project_files`). -/
def projectFiles (w : Workspace) (project : String) : List File :=
  ((w.projects.get? project).getD []).filterMap w.catalog.files.get?

/-- Notes a file for the active project, once (`add_active_project_file`). -/
def track (w : Workspace) (id : FileId) : Workspace :=
  match w.active with
  | none => w
  | some project =>
    let ids := (w.projects.get? project).getD []
    { w with projects := w.projects.insert project (if id ∈ ids then ids else ids ++ [id]) }

/-! ## Registration -/

/-- Writes an artifact under a key of a source path (`assign`). -/
def put (w : Workspace) (path key : String) (a : Artifact) (file : Option File) :
    FileId × Workspace :=
  let (id, catalog) := w.catalog.put path key a file
  (id, { w with catalog })

/-- Registers a source with its text and record, for the active project (`register_source`). -/
def registerSource (w : Workspace) (path text : String) (file : File) : FileId × Workspace :=
  let (id, w) := w.put path path (.source text) (some file)
  (id, w.track id)

/-- Records an import of a source, under the specifier as it is written there
(`register_declaration`). -/
def registerImport (w : Workspace) (path specifier : String) (link : ImportLink) : Workspace :=
  (w.put path specifier (.importLink link) none).2

/-- Announces an artifact of a source, usually an output without its text
(`register_incomplete_context`). -/
def announce (w : Workspace) (path key : String) (a : Artifact) : Workspace :=
  (w.put path key a none).2

/-- Takes the text of an announced output; `none` if no output of that path is announced
(`register_text_with_context_path`). -/
def fill? (w : Workspace) (key text : String) : Option Workspace :=
  (w.catalog.fill? key text).map fun catalog => { w with catalog }

/-! ## Demand -/

/-- Forgets what the bundler asked for (`reset_consumed`). -/
def resetConsumed (w : Workspace) : Workspace := { w with consumed := [] }

/-- The canonical text of a path; the workspace remembers the answer (`resolve_normalize`). -/
def resolve (w : Workspace) (path : String) : String × Workspace :=
  let (answer, paths) := w.paths.resolve path
  (answer, { w with paths })

/-- Notes that the bundler asked for a path, once per cycle (`consume`). -/
def consume (w : Workspace) (path : String) : Workspace :=
  let (path, w) := w.resolve path
  if path ∈ w.consumed then w else { w with consumed := w.consumed ++ [path] }

/-! ## Questions -/

/-- The source text registered under a path, with its file (`get_source_context`). -/
def source? (w : Workspace) (path : String) : Option View :=
  (w.catalog.find? path).filter fun v => v.artifact.kind = .source

/-- The output of one kind announced for a source (`get_destination_from_path` and its like). -/
def output? (w : Workspace) (path : String) (k : OutputKind) : Option View :=
  w.catalog.firstOfKindAt path (.output k)

/-- The import recorded for a source under a specifier (`get_declaration_context`). -/
def import? (w : Workspace) (path specifier : String) : Option View :=
  (w.catalog.view path specifier).filter fun v => v.artifact.isImport

/-- The text of whatever answers for a path; an output still without text has none
(`get_context_text`). -/
def text? (w : Workspace) (path : String) : Option String :=
  (w.catalog.find? path).bind fun v => v.artifact.text?

end Workspace

end BuildRelay
