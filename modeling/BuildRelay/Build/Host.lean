/-
BuildRelay.Build.Host — what the build driver may ask while it works.

The driver sees the file system through the workspace: files that exist only in memory are there
for it, what it writes stays in memory, and every import that it resolves is recorded for the
importing file. `HostCall` lists its questions with the type of each answer; the operations of the
host hooks that they stand for are named with them.
-/
import BuildRelay.FileSystem.Basic
import BuildRelay.Workspace.Basic

namespace BuildRelay

/-- Why building stops. -/
inductive BuildError where
  | noMode
  /-- Options were asked for while no project is being built. -/
  | noActiveProject
  /-- The driver failed with a message of its own. -/
  | driver (message : String)
  /-- A source whose options name no root directory cannot be placed in the bundle. -/
  | noRootDir (path : String)
  /-- A source whose options name no output directory leaves its typings without a place. -/
  | noOutDir (path : String)
  deriving DecidableEq, Repr

namespace BuildError

/-- The text of the error. -/
def message : BuildError → String
  | noMode => "no build mode set; call set_mode() before building"
  | noActiveProject =>
    "no active project; program options were requested outside of validate_projects()"
  | driver text => text
  | noRootDir path => "rootDir is not set for " ++ path ++ "; cannot place its chunk"
  | noOutDir path => "outDir is not set for " ++ path ++ "; cannot place its declaration"

end BuildError

/-- A rule that finds the file an import leads to, given the specifier, the importing file, the
options, and the file system as the driver sees it. -/
abbrev ImportResolution :=
  (specifier : String) → (importer : String) → Options → FileSystem → Option ImportLink

/-- What the driver works against (`HostHooks`). -/
structure Host where
  workspace : Workspace
  disk : FileSystem
  resolution : ImportResolution
  /-- Options laid over those of every project. -/
  overrides : Option Options
  /-- Options laid over those of one project, by the path of its config file. -/
  projects : OrderedMap String Options
  /-- The project that is being built. -/
  active : Option String

namespace Host

/-- The host with its workspace changed. -/
def onWorkspace (h : Host) (f : Workspace → Workspace) : Host :=
  { h with workspace := f h.workspace }

/-- The project that is being built (`active_project`). -/
def activeProject (h : Host) : Except BuildError String :=
  match h.active with
  | some project => .ok project
  | none => .error .noActiveProject

/-- The file system as the driver sees it (`file_exists`, `directory_exists`, `read_file`). A text
on disk comes first; one in memory stands in for a file that is missing or empty on disk. -/
def fileSystem (h : Host) : FileSystem where
  fileExists path := h.workspace.catalog.hasFile path || h.disk.fileExists path
  directoryExists path := h.workspace.catalog.hasDirectory path || h.disk.directoryExists path
  textAt path :=
    let onDisk := h.disk.textAt path
    (onDisk.filter fun text => !text.isEmpty).or ((h.workspace.text? path).or onDisk)
  caseSensitive := h.disk.caseSensitive

/-- Keeps the text of an announced output; any other text is dropped (`write_file`). -/
def write (h : Host) (path text : String) : Host :=
  h.onWorkspace fun w => (w.fill? path text).getD w

/-- Resolves one import and records where it leads. -/
def resolveImport (h : Host) (importer : String) (options : Options) (specifier : String) :
    Option ImportLink × Host :=
  match h.resolution specifier importer options h.fileSystem with
  | some link => (some link, h.onWorkspace fun w => w.registerImport importer specifier link)
  | none => (none, h)

/-- Resolves imports in order; each sees what those before it left behind
(`resolve_module_names`). -/
def resolveImports (h : Host) (importer : String) (options : Options) :
    List String → List (Option ImportLink) × Host
  | [] => ([], h)
  | specifier :: rest =>
    let (answer, h) := h.resolveImport importer options specifier
    let (answers, h) := h.resolveImports importer options rest
    (answer :: answers, h)

/-- The options of a program for the active project: the given ones, under the overrides for every
project, under those for this one (`create_program_options`). -/
def programOptions (h : Host) (options : Options) : Except BuildError Options × Host :=
  let options := (h.overrides.map options.layer).getD options
  match h.active with
  | none => (.error .noActiveProject, h)
  | some project =>
    let (key, workspace) := h.workspace.resolve project
    (.ok (((h.projects.get? key).map options.layer).getD options), { h with workspace })

end Host

/-- A question of the driver. -/
inductive HostCall where
  | fileExists (path : String)
  | directoryExists (path : String)
  | textAt (path : String)
  | caseSensitive
  | write (path text : String)
  | resolveImports (importer : String) (specifiers : List String) (options : Options)
  | programOptions (options : Options)
  deriving DecidableEq

namespace HostCall

/-- The type of the answer to a question. -/
@[reducible] def Answer : HostCall → Type
  | fileExists _ | directoryExists _ | caseSensitive => Bool
  | textAt _ => Option String
  | write _ _ => Unit
  | resolveImports _ _ _ => List (Option ImportLink)
  | programOptions _ => Except BuildError Options

end HostCall

namespace Host

/-- The answer to a question, and the host after it. -/
def answer (h : Host) : (c : HostCall) → c.Answer × Host
  | .fileExists path => (h.fileSystem.fileExists path, h)
  | .directoryExists path => (h.fileSystem.directoryExists path, h)
  | .textAt path => (h.fileSystem.textAt path, h)
  | .caseSensitive => (h.fileSystem.caseSensitive, h)
  | .write path text => ((), h.write path text)
  | .resolveImports importer specifiers options => h.resolveImports importer options specifiers
  | .programOptions options => h.programOptions options

end Host

end BuildRelay
