/-
BuildRelay.Proofs.Bundle.Reach — the states that a session of the bundler can be in.

The bundler and the driver work on one workspace, and whoever holds the session may write to it as
well. So the states to be reckoned with are those of a workspace to which anything has been done, in
any order. Everything that happens in a session leads from such a state to such a state
(`Adapter.reached_run`), and there the resolver is right and the tables of the catalog
agree.

* `Workspace.Reached` — the states of a workspace in a session.
* `Workspace.recalling` — a workspace that has resolved something, and nothing else.
* `Adapter.buildStart_eq` — a start in two parts, everything that is built and the entries.
* `Adapter.reached_run` — sessions lead from such states to such states.
* `Adapter.recalls_emitting` — putting things into the bundle does no more than that.
-/
import BuildRelay.Proofs.Build.Overrides
import BuildRelay.Proofs.Build.Supply
import BuildRelay.Proofs.Bundle.Loads
import BuildRelay.Proofs.Path.Below

namespace BuildRelay

namespace Workspace

/-! ## Workspaces in a session -/

/-- The states of a workspace in a session in a directory. At the start it is empty, and whatever its
resolver may have been asked, it remembers no wrong answer; then anything is done to it. -/
structure Reached (cwd : String) (w : Workspace) : Prop where
  canonical : Path.IsCanonical cwd
  session : ∃ paths ops, Path.Resolver.Faithful paths ∧ paths.cwd = cwd ∧
    w = (ofResolver paths).run ops

namespace Reached

variable {cwd : String} {w : Workspace}

theorem run (h : w.Reached cwd) (ops : List Op) : (w.run ops).Reached cwd := by
  obtain ⟨hcanonical, paths, before, hpaths, hcwd, rfl⟩ := h
  exact ⟨hcanonical, paths, before ++ ops, hpaths, hcwd, (run_append _ before ops).symm⟩

/-- The resolver of a session gives the answers that its directory has for it. -/
theorem faithful (h : w.Reached cwd) : w.paths.Faithful := by
  obtain ⟨-, paths, ops, hpaths, -, rfl⟩ := h
  exact (run_paths (w := ofResolver paths) hpaths ops).1

theorem cwd_eq (h : w.Reached cwd) : w.paths.cwd = cwd := by
  obtain ⟨-, paths, ops, hpaths, hcwd, rfl⟩ := h
  exact (run_paths (w := ofResolver paths) hpaths ops).2.trans hcwd

theorem consistent (h : w.Reached cwd) : w.catalog.Consistent := by
  obtain ⟨-, paths, ops, -, -, rfl⟩ := h
  exact run_catalog_consistent paths ops

theorem fst_resolve (h : w.Reached cwd) (path : String) :
    (w.resolve path).1 = Path.resolve cwd path := by
  rw [← h.cwd_eq]
  exact h.faithful.answer path

end Reached

/-! ## Answers remembered -/

/-- The workspace whose resolver remembers other answers; everything else is the same. -/
def recalling (w : Workspace) (memo : OrderedMap String String) : Workspace :=
  { w with paths := { w.paths with memo } }

theorem exists_recalling_resolve (w : Workspace) (path : String) :
    ∃ memo, (w.resolve path).2 = w.recalling memo := by
  refine ⟨(w.paths.resolve path).2.memo, ?_⟩
  have hpaths : (w.paths.resolve path).2 =
      { w.paths with memo := (w.paths.resolve path).2.memo } := by
    rw [Path.Resolver.resolve]
    split <;> rfl
  exact congrArg (fun paths => { w with paths }) hpaths

end Workspace

/-- A builder works on a workspace of a session from the start. -/
theorem Builder.reached_ofSettings (settings : Settings) (dir : String) (disk : FileSystem)
    (resolution : ImportResolution) (naming : OutputNaming) (driver : Driver)
    (announcements : Announcements) :
    (ofSettings settings (.inDir dir) disk resolution naming driver
      announcements).host.workspace.Reached (Path.resolve "" dir) := by
  obtain ⟨hfaithful, hcwd⟩ :=
    settings.place_paths (Path.Resolver.inDir_faithful dir) disk.fileExists
  exact ⟨Path.isCanonical_resolve (by decide) dir, _, [], hfaithful, hcwd, rfl⟩

namespace Adapter

open BuildRelay.Action (Leaves)

/-! ## What happens in a session -/

/-- For the workspace, what happens is a session of its own. -/
def Continues (a a' : Adapter) (_ : List BundleEvent) : Prop :=
  ∃ ops, a'.workspace = a.workspace.run ops

theorem Continues.reached {cwd : String} {a a' : Adapter} {trace : List BundleEvent}
    (h : Continues a a' trace) (ha : a.workspace.Reached cwd) : a'.workspace.Reached cwd := by
  obtain ⟨ops, hops⟩ := h
  rw [hops]
  exact ha.run ops

theorem continues_emitting : Emitting Continues where
  refl a := ⟨[], rfl⟩
  trans := by
    rintro a a' a'' - - ⟨ops, h⟩ ⟨ops', h'⟩
    exact ⟨ops ++ ops', by rw [h', h, Workspace.run_append]⟩
  resolve path a := ⟨[.resolve path], rfl⟩
  tell e a := ⟨[], rfl⟩

theorem continues_building {α : Type} {x : BuildAction Builder α}
    (hx : Leaves Builder.Supplies x) : Leaves Continues (building x) := by
  intro a
  obtain ⟨ops, -, hops⟩ := hx a.builder
  exact ⟨ops, hops⟩

/-- The first part of a start: everything is built. -/
def buildAll (watch : Bool) : BundleAction Adapter Unit := do
  building (Builder.setMode (.ofWatch watch))
  Action.modify fun a => a.onWorkspace Workspace.resetConsumed
  building Builder.build

theorem buildStart_eq (watch : Bool) : buildStart watch = buildAll watch >>= fun _ => emitUnused := by
  simp only [buildAll, Action.bind_assoc]
  rfl

theorem continues_buildAll (watch : Bool) : Leaves Continues (buildAll watch) := by
  unfold buildAll
  refine continues_emitting.bind
    (continues_building (Builder.supplies_stepwise.setMode _)) fun _ => ?_
  refine continues_emitting.bind (fun a => ⟨[.resetConsumed], rfl⟩) fun _ => ?_
  exact continues_building Builder.supplied_build

theorem continues_buildStart (watch : Bool) : Leaves Continues (buildStart watch) := by
  rw [buildStart_eq]
  exact continues_emitting.bind (continues_buildAll watch) fun _ => continues_emitting.emitUnused

/-- What the bundler asks to be resolved is resolved, and noted or not. -/
theorem exists_run_resolveId (source : String) (importer : Option String) (w : Workspace) :
    ∃ ops, (resolveId source importer w).2 = w.run ops := by
  cases importer with
  | none =>
    simp only [resolveId]
    split
    · exact ⟨[.resolve source, .consume _], rfl⟩
    · exact ⟨[.resolve source], rfl⟩
  | some importer =>
    simp only [resolveId]
    split
    · exact ⟨[.resolve importer, .consume _], rfl⟩
    · split
      · exact ⟨[.resolve importer, .resolve source, .consume _], rfl⟩
      · exact ⟨[.resolve importer, .resolve source], rfl⟩

/-- Whatever happens in a session, for the workspace it is a session of its own. -/
theorem continues_step (a : Adapter) (op : Op) : Continues a (a.step op) [] := by
  cases op with
  | start watch => exact continues_buildStart watch a
  | resolve source importer => exact exists_run_resolveId source importer a.workspace
  | load | advance ms | invalidate p => exact ⟨[], rfl⟩
  | change => exact ⟨[.resetConsumed], rfl⟩
  | status s => exact continues_building (Builder.supplied_onStatus s) a
  | close => exact continues_emitting.buildEnd a

/-- Whatever happens in a session leads from one of its states to another. -/
theorem reached_run {cwd : String} {a : Adapter} (h : a.workspace.Reached cwd) (ops : List Op) :
    (a.run ops).workspace.Reached cwd :=
  List.foldlRecOn (motive := fun a' : Adapter => a'.workspace.Reached cwd) ops step h
    fun a' ha' op _ => (a'.continues_step op).reached ha'

/-- In the directory `/p`, anything may be done to the workspace of a fresh session. -/
theorem freshAdapter_reached (ops : List Workspace.Op) :
    (freshAdapter.onWorkspace fun w => w.run ops).workspace.Reached "/p" where
  canonical := by decide
  session := ⟨⟨"/p", ∅⟩, ops, nofun, rfl, rfl⟩

/-! ## Putting things into the bundle -/

/-- Nothing but what the resolver remembers is touched. -/
def Recalls (a a' : Adapter) (_ : List BundleEvent) : Prop :=
  ∃ memo, a' = a.onWorkspace fun w => w.recalling memo

/-- Putting things into the bundle resolves paths, and does nothing else. -/
theorem recalls_emitting : Emitting Recalls where
  refl a := ⟨a.workspace.paths.memo, rfl⟩
  trans := by
    rintro a a' a'' - - ⟨memo, rfl⟩ ⟨memo', rfl⟩
    exact ⟨memo', rfl⟩
  resolve path a := by
    obtain ⟨memo, hmemo⟩ := a.workspace.exists_recalling_resolve path
    exact ⟨memo, congrArg (fun w => a.onWorkspace fun _ => w) hmemo⟩
  tell e a := ⟨a.workspace.paths.memo, rfl⟩

end Adapter

end BuildRelay
