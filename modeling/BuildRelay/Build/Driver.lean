/-
BuildRelay.Build.Driver — the incremental build driver, as far as it can be observed.

Whatever a driver computes, all that is seen of it is which questions it asks the host, one after
the other, each perhaps chosen by the answers so far, and how it ends. A `HostProgram` is the tree
of these possibilities. A driver hands out invalidated projects, each with the programs that run
when its sources are asked for and when it is finished.
-/
import BuildRelay.Build.Host
import BuildRelay.Data.Action

namespace BuildRelay

/-- How a driver is run (`BuildModeKind`). -/
inductive BuildMode where
  | execute
  /-- Build after build, reported through diagnostics. -/
  | watch
  deriving DecidableEq, Repr

namespace BuildMode

/-- The mode that a bundler asks for. -/
def ofWatch (watch : Bool) : BuildMode := if watch then .watch else .execute

/-- Whether the driver keeps watching. -/
def isWatch (m : BuildMode) : Bool := m = .watch

/-- The name of the mode. -/
def name : BuildMode → String
  | execute => "Execute"
  | watch => "Watch"

/-- The text of the mode in a log. -/
def describe (m : BuildMode) : String := "BuildMode \x7b kind: " ++ m.name ++ ", .. \x7d"

end BuildMode

/-- What can be seen of a build as it goes. -/
inductive BuildEvent where
  | created (mode : BuildMode) (roots : List String)
  | passStarting
  | passEnded
  /-- The next project that is out of date is asked for. -/
  | nextAsked
  /-- What a project registered in earlier passes is dropped. -/
  | reset (project : String)
  | sourcesAsked (project : String)
  | registered (project : String) (fileNames : List String)
  | finished (project : String)
  /-- The driver is told to build what is left. -/
  | buildAsked
  | answered (call : HostCall) (answer : call.Answer)

/-- A step of a build on some state. -/
abbrev BuildAction := Action BuildError BuildEvent

/-- What a driver does with its host until it ends with a value or fails. -/
inductive HostProgram (α : Type) where
  | done (value : α)
  | fail (e : BuildError)
  /-- It asks, and goes on as the answer has it. -/
  | ask (call : HostCall) (next : call.Answer → HostProgram α)

namespace HostProgram

variable {α : Type}

/-- Asks the host along one path of the program. -/
def run : HostProgram α → BuildAction Host α
  | done a => Action.pure a
  | fail e => Action.fail e
  | ask call next => fun h =>
    let (a, h) := h.answer call
    let o := (next a).run h
    { o with trace := .answered call a :: o.trace }

end HostProgram

/-- A source file of a project, as the driver reports it. -/
structure SourceFile where
  fileName : String
  text : String
  /-- Whether it only holds typings. -/
  isTypings : Bool
  deriving DecidableEq, Repr

/-- What has to be done for a project (`InvalidatedProjectKind`). -/
inductive ProjectKind where
  | build
  /-- Put its bundle together again. -/
  | updateBundle
  /-- Renew the times of its outputs. -/
  | updateStamps
  deriving DecidableEq, Repr

/-- A project that the driver has found out of date (`InvalidatedProject`). -/
structure Project where
  /-- The path of its config file. -/
  id : String
  kind : ProjectKind
  options : Options
  /-- What it does when it is asked for its sources (`source_files`). -/
  sources : HostProgram (List SourceFile)
  /-- Whether a source comes from an external library. -/
  isExternal : SourceFile → Bool
  /-- Whether a source belongs to the default library. -/
  isDefaultLib : SourceFile → Bool
  /-- What it does when it may finish (`done`). -/
  finish : HostProgram Unit

/-- What asking for the next project comes to (`next_invalidated_project`). -/
inductive Pull where
  | project (p : Project)
  | failure (e : BuildError)

/-- A build driver (`SolutionBuilder`). -/
structure Driver where
  /-- Why the driver cannot be created, if it cannot. -/
  refusal : Option BuildError
  /-- What asking for the next project will come to, time after time, until there is none. -/
  pending : List Pull
  build : HostProgram Unit

end BuildRelay
