/-
BuildRelay.Bundle.Adapter — serving a bundler from the build session.

The bundler starts a build, resolves imports, loads compiled text and reports changes. Everything
is served from the workspace; the gate holds loads back while a change is on its way through the
compiler. The starts and ends of passes that the builder announces are what the gate hears of the
compiler.

The adapter is the plugin that a bundler loads. Its hooks are `buildStart`, `watchChange`,
`resolveId`, `load` and `buildEnd`, under the names that the bundler gives them: `build_start`,
`watch_change`, `resolve_id`, `load` and `build_end`; `onStatus` is `on_watch_status`.
-/
import BuildRelay.Build.Builder
import BuildRelay.Bundle.Settings
import BuildRelay.Gate.Room

namespace BuildRelay

/-- What can be seen of the bundler's side as it goes. -/
inductive BundleEvent where
  | build (e : BuildEvent)
  /-- A source becomes an entry of the bundle (`emit_chunk`). -/
  | chunk (id : String) (preserveSignature : Bool)
  /-- A file is put into the bundle as it is (`emit_asset`). -/
  | asset (fileName source : String)

/-- A step of the bundler's side on some state. -/
abbrev BundleAction := Action BuildError BundleEvent

/-- Compiled text, as a bundler loads it (`LoadResult`). -/
structure Loaded where
  code : String
  /-- Its source map, if there is one. -/
  map : Option String
  deriving DecidableEq, Repr

/-- The bundler's side of a build session (`TypescriptPlugin`). -/
structure Adapter where
  settings : BundleSettings
  /-- The builder, with the workspace of the session. -/
  builder : Builder
  /-- The gate, and who waits at it. -/
  room : Room

namespace Adapter

/-- The state of the build session. -/
def workspace (a : Adapter) : Workspace := a.builder.host.workspace

/-- The adapter with its workspace changed. -/
def onWorkspace (a : Adapter) (f : Workspace → Workspace) : Adapter :=
  { a with builder := a.builder.onWorkspace f }

/-! ## Building -/

/-- What the gate hears of an event in the build. -/
def hear (r : Room) : BuildEvent → Room
  | .passStarting => r.happen .started
  | .passEnded => r.happen .ended
  | _ => r

/-- Runs an action of the builder; the gate hears of it, and then the readers look. -/
def building {α : Type} (x : BuildAction Builder α) : BundleAction Adapter α := fun a =>
  let o := x a.builder
  { result := o.result
    state := { a with builder := o.state, room := (o.trace.foldl hear a.room).settle }
    trace := o.trace.map .build }

/-- The canonical text of a path, as the session resolves it. -/
def resolve (path : String) : BundleAction Adapter String :=
  Action.modifyGet fun a =>
    let (answer, w) := a.workspace.resolve path
    (answer, a.onWorkspace fun _ => w)

/-- Makes each of some sources an entry, named by its place below the root directory. -/
def emitChunks : List View → BundleAction Adapter Unit
  | [] => Action.pure ()
  | v :: rest =>
    match v.file.options.rootDir with
    | none => Action.fail (.noRootDir v.path)
    | some rootDir => do
      let rootDir ← resolve rootDir
      Action.tell (.chunk (Path.relative rootDir v.path) true)
      emitChunks rest

/-- Builds everything, so that the bundle can be served from the workspace (`build_start`). -/
def buildStart (watch : Bool) : BundleAction Adapter Unit := do
  building (Builder.setMode (.ofWatch watch))
  Action.modify fun a => a.onWorkspace Workspace.resetConsumed
  building Builder.build
  let a ← Action.get
  if a.settings.includeUnused then emitChunks (a.workspace.catalog.ofKind (.output .script))

/-- Reacts to a report of the build driver (`on_watch_status`). -/
def onStatus (status : Status) : BundleAction Adapter Unit := building (Builder.onStatus status)

/-! ## Serving -/

/-- The bundler saw a file change: a new cycle begins, and the gate closes (`watch_change`). -/
def watchChange (a : Adapter) : Adapter :=
  let a := a.onWorkspace Workspace.resetConsumed
  { a with room := a.room.step .change }

/-- The file that an import recorded for the importer leads to, unless it belongs to an external
library. -/
def internalImport? (w : Workspace) (importer specifier : String) : Option String := do
  let link ← (← w.import? importer specifier).artifact.link?
  if link.external then none else some link.destPath

/-- The compiled source registered under a path. -/
def compiledSource? (w : Workspace) (path : String) : Option String :=
  ((w.source? path).filter fun v => v.file.isCompiled).map View.key

/-- Resolves an import to a source that is served here, and notes that it was asked for. What the
driver resolved comes first; otherwise the specifier is read as a path (`resolve_id`). -/
def resolveId (source : String) (importer : Option String) (w : Workspace) :
    Option String × Workspace :=
  let (recorded, w) :=
    match importer with
    | none => (none, w)
    | some importer =>
      let (importer, w) := w.resolve importer
      (internalImport? w importer source, w)
  match recorded with
  | some path => (some path, w.consume path)
  | none =>
    let (path, w) := w.resolve source
    match compiledSource? w path with
    | some path => (some path, w.consume path)
    | none => (none, w)

/-- The compiled text of a source, as it stands. -/
def loaded? (w : Workspace) (id : String) : Option Loaded := do
  let code ← (← w.output? id .script).artifact.text?
  return ⟨code, (w.output? id .sourceMap).bind fun v => v.artifact.text?⟩

/-- Loads compiled text once the gate lets readers go; `none` if that takes longer than
`budget`. The bundler's `load` waits without a bound. -/
def load (a : Adapter) (id : String) (budget : Nat) : Option (Option Loaded) × Adapter :=
  let (ready, room) := a.room.waitWithin budget
  (if ready then some (loaded? a.workspace id) else none, { a with room })

/-! ## Closing the bundle -/

/-- The typings of the sources that were asked for: output directory, path and text. A source
without output directory is refused, even if its typings were never written. -/
def consumedTypings (w : Workspace) :
    List String → Except BuildError (List (String × String × String))
  | [] => .ok []
  | path :: rest =>
    match w.output? path .typings with
    | none => consumedTypings w rest
    | some v =>
      match v.file.options.outDir, v.artifact.text? with
      | none, _ => .error (.noOutDir path)
      | some _, none => consumedTypings w rest
      | some outDir, some text => do return (outDir, v.key, text) :: (← consumedTypings w rest)

/-- Puts typings into the bundle, named by their place below the output directory. -/
def emitAssets : List (String × String × String) → BundleAction Adapter Unit
  | [] => Action.pure ()
  | (outDir, path, text) :: rest => do
    let outDir ← resolve outDir
    Action.tell (.asset (Path.relative outDir path) text)
    emitAssets rest

/-- Puts the typings of every source that was asked for into the bundle (`build_end`). -/
def buildEnd : BundleAction Adapter Unit := do
  let w := (← Action.get).workspace
  match consumedTypings w w.consumed with
  | .error e => Action.fail e
  | .ok typings => emitAssets typings

end Adapter

end BuildRelay
