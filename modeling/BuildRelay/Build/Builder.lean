/-
BuildRelay.Build.Builder — passes over the projects that the driver finds out of date.

A pass takes the projects one by one. The sources of a project that has to be compiled are
registered, and their outputs announced, before the project may finish and write them. The first
failure ends the pass. However a pass ends, no project is active after it.
-/
import BuildRelay.Build.Driver
import BuildRelay.Output.Layout
import BuildRelay.Settings.Placement
import BuildRelay.Status

namespace BuildRelay

/-- Who is told about passes (`BuilderCallbacks`). -/
structure Announcements where
  starting : Bool
  ended : Bool
  deriving DecidableEq, Repr

namespace Announcements

/-- The text of the announcements in a log. -/
def describe (a : Announcements) : String :=
  "BuilderCallbacks \x7b on_builder_starting: " ++ toString a.starting
    ++ ", on_builder_ended: " ++ toString a.ended ++ " \x7d"

end Announcements

/-- The build driver with its host (`SolutionBuilderPlugin`). -/
structure Builder where
  /-- What the driver works against. -/
  host : Host
  naming : OutputNaming
  /-- The projects that the driver starts from. -/
  roots : List String
  driver : Driver
  /-- The mode that the driver was last created for. -/
  mode : Option BuildMode
  /-- Who is told about passes. -/
  announcements : Announcements

namespace Builder

/-- A builder on a fresh workspace, its settings in terms of canonical paths. -/
def ofSettings (settings : Settings) (workspace : Workspace) (disk : FileSystem)
    (resolution : ImportResolution) (naming : OutputNaming) (driver : Driver)
    (announcements : Announcements) : Builder :=
  let (settings, paths, _) := settings.place workspace.paths disk.fileExists
  { host := ⟨{ workspace with paths }, disk, resolution, settings.overrides, settings.projects, none⟩
    naming
    roots := settings.roots
    driver
    mode := none
    announcements }

/-- The builder with its host changed. -/
def onHost (b : Builder) (f : Host → Host) : Builder := { b with host := f b.host }

/-- The builder with its workspace changed. -/
def onWorkspace (b : Builder) (f : Workspace → Workspace) : Builder :=
  b.onHost fun h => h.onWorkspace f

/-- The mode that the driver was created for. -/
def mode? (b : Builder) : Except BuildError BuildMode :=
  match b.mode with
  | some m => .ok m
  | none => .error .noMode

/-- Runs a program of the driver against the host. -/
def runProgram {α : Type} (p : HostProgram α) : BuildAction Builder α :=
  p.run.within Builder.host (fun h b => { b with host := h }) id

/-- Creates the driver anew; if it cannot be created the last one stays (`set_mode`). -/
def setMode (mode : BuildMode) : BuildAction Builder Unit := do
  let b ← Action.get
  Action.tell (.created mode b.roots)
  match b.driver.refusal with
  | some e => Action.fail e
  | none => Action.modify fun b => { b with mode := some mode }

/-! ## Registering the sources of a project -/

/-- The record of a source. -/
def fileOf (p : Project) (s : SourceFile) : File :=
  ⟨if s.isTypings then .readOnly else .compiled, s.fileName, p.id, p.options⟩

/-- Announces the outputs of a source. -/
def announceOutputs (names : OutputNames) (path : String) (w : Workspace) : Workspace :=
  names.toList.foldl (fun w e => w.announce path e.2 (.output e.1 none)) w

/-- Registers a source and, if its file is compiled, announces its outputs. -/
def registerSource (naming : OutputNaming) (ignoreCase : Bool) (p : Project) (w : Workspace)
    (s : SourceFile) : Workspace :=
  let (id, w) := w.registerSource s.fileName s.text (fileOf p s)
  if w.catalog.isCompiled id then
    announceOutputs (naming p.options s.fileName ignoreCase) s.fileName w
  else w

/-- The sources that belong to the project itself and not to a library. -/
def ownSources (p : Project) (sources : List SourceFile) : List SourceFile :=
  sources.filter fun s => !(p.isExternal s || p.isDefaultLib s)

/-- Registers sources of a project in order. -/
def registerSources (p : Project) (sources : List SourceFile) (b : Builder) : Builder :=
  b.onWorkspace fun w =>
    sources.foldl (registerSource b.naming (!b.host.disk.caseSensitive) p) w

/-- Drops what a project registered before, asks for its sources and registers its own
(`register_project_sources`). -/
def refresh (p : Project) : BuildAction Builder Unit := do
  Action.modify fun b => b.onWorkspace fun w => w.resetProject p.id
  Action.tell (.reset p.id)
  Action.tell (.sourcesAsked p.id)
  let sources := ownSources p (← runProgram p.sources)
  Action.modify (registerSources p sources)
  Action.tell (.registered p.id (sources.map SourceFile.fileName))

/-! ## Passes -/

/-- The builder whose driver has only the given answers left. -/
def leaving (b : Builder) (rest : List Pull) : Builder :=
  { b with driver := { b.driver with pending := rest } }

/-- Goes through what the driver hands out. Only a project that has to be compiled is refreshed;
every project is finished (`validate_invalidated_projects`). -/
def drain : List Pull → BuildAction Builder Unit
  | [] => Action.tell .nextAsked
  | .failure e :: rest => do
    Action.tell .nextAsked
    Action.modify fun b => b.leaving rest
    Action.fail e
  | .project p :: rest => do
    Action.tell .nextAsked
    Action.modify fun b => (b.leaving rest).onHost fun h => { h with active := some p.id }
    if p.kind = .build then refresh p
    Action.tell (.finished p.id)
    runProgram p.finish
    drain rest

/-- No project is active any more. -/
def clearActive (b : Builder) : Builder :=
  b.onHost fun h => { h.onWorkspace Workspace.clearActive with active := none }

/-- A pass over all projects that are out of date (`validate_projects`). -/
def validate : BuildAction Builder Unit :=
  Action.thenAlways
    (do
      let b ← Action.get
      match b.mode with
      | none => Action.fail .noMode
      | some _ => drain b.driver.pending)
    clearActive

/-- Announces the start of a pass to whoever wants to hear of it. -/
def announceStarting : BuildAction Builder Unit := do
  if (← Action.get).announcements.starting then Action.tell .passStarting

/-- Announces the end of a pass to whoever wants to hear of it. -/
def announceEnded : BuildAction Builder Unit := do
  if (← Action.get).announcements.ended then Action.tell .passEnded

/-- A full build: a pass, and then whatever the driver still finds to build (`run`). -/
def build : BuildAction Builder Unit := do
  announceStarting
  validate
  Action.tell .buildAsked
  runProgram (← Action.get).driver.build

/-- Reacts to a report of a watching driver; one that does not watch reports nothing of
interest (`on_watch_status`). -/
def onStatus (status : Status) : BuildAction Builder Unit := do
  match (← Action.get).mode with
  | none => Action.fail .noMode
  | some .execute => Action.pure ()
  | some .watch =>
    match status with
    | .changeDetected => do
      announceStarting
      validate
    | .finishedWithOneError | .finishedWithErrors => announceEnded
    | .other _ => Action.pure ()

end Builder

end BuildRelay
