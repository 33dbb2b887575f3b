/-
BuildRelay.Proofs.Bundle.Sessions — what the gate hears of a session of the bundler.

The bundler starts builds, resolves, loads, reports changes and closes the bundle, while the driver
reports on its own. Of all that the gate hears no more than the changes, the loads, the clock, and
the announcements of passes, whatever the passes do and however they end.

* `Op`, `step`, `run` — sessions.
* `gateOps`, `heard` — what the gate hears of a session.
* `Emitting` — what holds of every step of putting things into the bundle, and so of all of it.
* `Attended.room_step`, `Attended.room_run` — the gate and its readers move by what it hears alone.
-/
import BuildRelay.Bundle.Adapter
import BuildRelay.Proofs.Build.Passes
import BuildRelay.Proofs.Gate.Pass

namespace BuildRelay

namespace Adapter

open BuildRelay.Action (Leaves Composes)

/-! ## Sessions -/

/-- What can happen in a session. -/
inductive Op where
  /-- The bundler starts a build, once or to keep watching. -/
  | start (watch : Bool)
  | resolve (source : String) (importer : Option String)
  /-- A load comes, and waits at the gate. -/
  | load
  /-- The bundler sees a change. -/
  | change
  /-- The driver reports on its watch loop. -/
  | status (s : Status)
  /-- The bundler has everything that it asked for. -/
  | close
  | advance (ms : Nat)
  /-- The driver finds one more project out of date, or that it cannot go on. -/
  | invalidate (p : Pull)

/-- A session after something has happened in it. -/
def step (a : Adapter) : Op → Adapter
  | .start watch => (buildStart watch a).state
  | .resolve source importer => a.onWorkspace fun w => (resolveId source importer w).2
  | .load => { a with room := a.room.step .await }
  | .change => a.watchChange
  | .status s => (onStatus s a).state
  | .close => (buildEnd a).state
  | .advance ms => { a with room := a.room.step (.advance ms) }
  | .invalidate p =>
    { a with builder := a.builder.leaving (a.builder.driver.pending ++ [p]) }

/-- A session after things have happened in it, one after the other. -/
def run (a : Adapter) (ops : List Op) : Adapter := ops.foldl step a

@[simp] theorem run_nil (a : Adapter) : a.run [] = a := rfl

@[simp] theorem run_cons (a : Adapter) (op : Op) (ops : List Op) :
    a.run (op :: ops) = (a.step op).run ops := rfl

/-! ## What the gate hears -/

/-- What the gate hears of the driver's reports in watch mode. -/
def statusOps : Status → List Room.Op
  | .changeDetected => [.started]
  | .finishedWithOneError | .finishedWithErrors => [.ended]
  | .other _ => []

/-- What the gate hears of something that happens in a session. A build is announced if its driver
can be created; reports count in watch mode alone. -/
def gateOps (a : Adapter) : Op → List Room.Op
  | .start _ => if a.builder.driver.refusal.isNone then [.started] else []
  | .load => [.await]
  | .change => [.change]
  | .status s => if a.builder.mode = some .watch then statusOps s else []
  | .advance ms => [.advance ms]
  | .resolve .. | .close | .invalidate _ => []

/-- What the gate hears of a session. -/
def heard (a : Adapter) : List Op → List Room.Op
  | [] => []
  | op :: ops => a.gateOps op ++ (a.step op).heard ops

/-- Of a trace the gate hears the announcements. -/
theorem foldl_hear (trace : List BuildEvent) (r : Room) :
    trace.foldl hear r = (Builder.announced trace).foldl hear r := by
  induction trace generalizing r with
  | nil => rfl
  | cons e rest ih => cases e <;> exact ih _

theorem room_building {α : Type} (x : BuildAction Builder α) (a : Adapter) :
    (building x a).state.room =
      ((Builder.announced (x a.builder).trace).foldl hear a.room).settle := by
  rw [← foldl_hear]
  rfl

/-! ## Putting things into the bundle -/

/-- The last part of a start: the sources that nobody has asked for become entries, too, if they are
to be included. -/
def emitUnused : BundleAction Adapter Unit := do
  let a ← Action.get
  if a.settings.includeUnused then emitChunks (a.workspace.catalog.ofKind (.output .script))

/-- A relation that holds of resolving a path and of putting something into the bundle. It then holds
of everything that is put into the bundle. -/
structure Emitting (R : Adapter → Adapter → List BundleEvent → Prop) : Prop extends Composes R where
  resolve : ∀ path, Leaves R (resolve path)
  tell : ∀ (e : BundleEvent) a, R a a [e]

namespace Emitting

variable {R : Adapter → Adapter → List BundleEvent → Prop}

theorem emitChunks (h : Emitting R) (views : List View) : Leaves R (emitChunks views) := by
  induction views with
  | nil => exact h.pure ()
  | cons v rest ih =>
    rw [Adapter.emitChunks]
    split
    · exact h.fail _
    · refine h.bind (h.resolve _) fun _ => ?_
      exact h.bind (h.tell _) fun _ => ih

theorem emitUnused (h : Emitting R) : Leaves R emitUnused := by
  unfold Adapter.emitUnused
  refine h.bind h.get fun a => ?_
  split
  · exact h.emitChunks _
  · exact h.pure ()

theorem emitAssets (h : Emitting R) (typings : List (String × String × String)) :
    Leaves R (emitAssets typings) := by
  induction typings with
  | nil => exact h.pure ()
  | cons typing rest ih =>
    rw [Adapter.emitAssets]
    refine h.bind (h.resolve _) fun _ => ?_
    exact h.bind (h.tell _) fun _ => ih

theorem buildEnd (h : Emitting R) : Leaves R buildEnd := by
  unfold Adapter.buildEnd
  refine h.bind h.get fun a => ?_
  dsimp only
  split
  · exact h.fail _
  · exact h.emitAssets _

end Emitting

/-- Neither the gate nor what it will hear of is touched. -/
def Apart (a a' : Adapter) (_ : List BundleEvent) : Prop :=
  a'.room = a.room ∧ a'.builder.announcements = a.builder.announcements

theorem apart_composes : Composes Apart where
  refl _ := ⟨rfl, rfl⟩
  trans h h' := ⟨h'.1.trans h.1, h'.2.trans h.2⟩

theorem apart_emitting : Emitting Apart where
  toComposes := apart_composes
  resolve _ _ := ⟨rfl, rfl⟩
  tell _ _ := ⟨rfl, rfl⟩

theorem apart_bind {α β : Type} (x : BundleAction Adapter α) {f : α → BundleAction Adapter β}
    (hf : ∀ v, Leaves Apart (f v)) (a : Adapter) :
    Apart (x a).state ((x >>= f) a).state [] := by
  rw [Action.state_bind]
  cases (x a).result with
  | error e => exact ⟨rfl, rfl⟩
  | ok v => exact hf v (x a).state

/-! ## One thing that happens -/

/-- A session whose gate hears of every pass, and whose readers have gone as far as they can. -/
structure Attended (a : Adapter) : Prop where
  announcements : a.builder.announcements = ⟨true, true⟩
  settled : a.room.Settled
  takenUp : Room.TakenUp a.room.gate

/-- A session that starts, with an empty gate. -/
theorem attended_of_empty {a : Adapter} {timeout : Nat} (hroom : a.room = .ofTimeout timeout)
    (hannounced : a.builder.announcements = ⟨true, true⟩) : Attended a := by
  refine ⟨hannounced, ?_, ?_⟩
  · rw [hroom]
    exact Room.ofTimeout_settled timeout
  · rw [hroom]
    exact Room.takenUp_ofTimeout timeout

namespace Attended

variable {a : Adapter}

theorem room_setMode (h : Attended a) (mode : BuildMode) :
    (building (Builder.setMode mode) a).state.room = a.room := by
  rw [room_building, (Builder.unheard_stepwise.setMode mode a.builder).2]
  exact h.settled.settle_eq

/-- A driver that cannot be created is not heard of; one that can is heard to start a pass. -/
theorem start (h : Attended a) (watch : Bool) :
    (buildStart watch a).state.room =
      a.room.run (if a.builder.driver.refusal.isNone then [.started] else []) ∧
    (buildStart watch a).state.builder.announcements = a.builder.announcements := by
  have hroom := h.room_setMode (.ofWatch watch)
  have hkept := (Builder.unheard_stepwise.setMode (.ofWatch watch) a.builder).1
  have hresult := Builder.result_setMode (.ofWatch watch) a.builder
  rw [buildStart, Action.state_bind]
  cases hrefusal : a.builder.driver.refusal with
  | some e =>
    rw [hrefusal] at hresult
    rw [show (building (Builder.setMode (.ofWatch watch)) a).result = .error e from hresult]
    exact ⟨hroom, hkept⟩
  | none =>
    rw [hrefusal] at hresult
    rw [show (building (Builder.setMode (.ofWatch watch)) a).result = .ok () from hresult]
    let ready := (building (Builder.setMode (.ofWatch watch)) a).state.onWorkspace
      Workspace.resetConsumed
    have hready : ready.builder.announcements = ⟨true, true⟩ := hkept.trans h.announcements
    have hbuild := Builder.announced_build ready.builder
    rw [hready] at hbuild
    have htail := apart_bind (building Builder.build) (fun _ => apart_emitting.emitUnused) ready
    refine ⟨htail.1.trans ?_, htail.2.trans ?_⟩
    · rw [room_building, hbuild.2]
      exact congrArg (fun r => (r.happen .started).settle) hroom
    · exact hbuild.1.trans h.announcements.symm

theorem status (h : Attended a) (s : Status) :
    (onStatus s a).state.room =
      a.room.run (if a.builder.mode = some .watch then statusOps s else []) ∧
    (onStatus s a).state.builder.announcements = a.builder.announcements := by
  obtain ⟨hkept, hannounced⟩ := Builder.announced_onStatus s a.builder
  refine ⟨?_, hkept⟩
  rw [onStatus, room_building, hannounced, h.announcements]
  split
  · cases s with
    | changeDetected => rfl
    | finishedWithOneError => rfl
    | finishedWithErrors => rfl
    | other code => exact h.settled.settle_eq
  · exact h.settled.settle_eq

/-- The gate moves by what it hears, and goes on to hear of the builder. -/
theorem moves (h : Attended a) (op : Op) : (a.step op).room = a.room.run (a.gateOps op) ∧
    (a.step op).builder.announcements = a.builder.announcements := by
  cases op with
  | start watch => exact h.start watch
  | resolve source importer => exact ⟨rfl, rfl⟩
  | load => exact ⟨rfl, rfl⟩
  | change => exact ⟨rfl, rfl⟩
  | status s => exact h.status s
  | close => exact apart_emitting.buildEnd a
  | advance ms => exact ⟨rfl, rfl⟩
  | invalidate p => exact ⟨rfl, rfl⟩

theorem room_step (h : Attended a) (op : Op) : (a.step op).room = a.room.run (a.gateOps op) :=
  (h.moves op).1

theorem step (h : Attended a) (op : Op) : Attended (a.step op) := by
  refine ⟨(h.moves op).2.trans h.announcements, ?_, ?_⟩
  · rw [h.room_step]
    exact h.settled.run _
  · rw [h.room_step]
    exact h.settled.takenUp_run h.takenUp _

/-! ## Runs -/

theorem run (h : Attended a) (ops : List Op) : Attended (a.run ops) :=
  List.foldlRecOn ops Adapter.step h fun _ h op _ => h.step op

theorem room_run (h : Attended a) (ops : List Op) :
    (a.run ops).room = a.room.run (a.heard ops) := by
  induction ops generalizing a with
  | nil => rfl
  | cons op ops ih =>
    rw [run_cons, ih (h.step op), h.room_step, heard, Room.run, Room.run, Room.run,
      List.foldl_append]

end Attended

/-- Whether the driver reports that a pass is over. -/
def Op.isFinish : Op → Bool
  | .status s => s.isFinished
  | .start _ | .resolve .. | .load | .change | .close | .advance _ | .invalidate _ => false

/-- The gate hears of the end of a pass from the driver alone. -/
theorem ended_not_mem_gateOps (a : Adapter) {op : Op} (hop : op.isFinish = false) :
    .ended ∉ a.gateOps op := by
  cases op with
  | status s =>
    cases s with
    | changeDetected => simp [gateOps, statusOps]
    | finishedWithOneError => cases hop
    | finishedWithErrors => cases hop
    | other code => simp [gateOps, statusOps]
  | start watch => simp [gateOps]
  | resolve source importer => simp [gateOps]
  | load => simp [gateOps]
  | change => simp [gateOps]
  | close => simp [gateOps]
  | advance ms => simp [gateOps]
  | invalidate p => simp [gateOps]

theorem ended_not_mem_heard (a : Adapter) {ops : List Op}
    (hops : ∀ op ∈ ops, op.isFinish = false) : .ended ∉ a.heard ops := by
  induction ops generalizing a with
  | nil => exact List.not_mem_nil
  | cons op ops ih =>
    rw [heard, List.mem_append, not_or]
    exact ⟨ended_not_mem_gateOps a (hops op List.mem_cons_self),
      ih (a.step op) fun op hop => hops op (List.mem_cons_of_mem _ hop)⟩

end Adapter

end BuildRelay
