/-
BuildRelay.Proofs.Build.Supply — what building does to the workspace.

A build may do much to its workspace: it drops files and registers others, takes texts and records
where imports lead, and it may stop at any point of it. Whatever it does is an operation of the
workspace, so every invariant of workspaces holds after a build as well; and none of it is a demand
of the bundler. What the driver asks is less still: it starts no pass and registers nothing.

* `Workspace.Moves` — a later state of a workspace, reached by operations of one kind.
* `Workspace.Supplied` — nothing more was asked for. `Workspace.Answered` — only questions of the
  driver were answered.
* `HostProgram.answered_run` — what a program of the driver does to the workspace.
* `Builder.supplied_build`, `Builder.supplied_onStatus` — what a builder does to it.
-/
import BuildRelay.Proofs.Build.Passes
import BuildRelay.Proofs.Workspace.Demand

namespace BuildRelay

namespace Workspace

/-- A later state of a workspace, reached by operations of one kind. -/
def Moves (kind : Op → Bool) (w w' : Workspace) : Prop :=
  ∃ ops : List Op, (∀ op ∈ ops, kind op = true) ∧ w' = w.run ops

namespace Moves

variable {kind kind' : Op → Bool} {w w' w'' : Workspace}

theorem refl (w : Workspace) : w.Moves kind w := ⟨[], nofun, rfl⟩

theorem trans (h : w.Moves kind w') (h' : w'.Moves kind w'') : w.Moves kind w'' := by
  obtain ⟨ops, hops, rfl⟩ := h
  obtain ⟨ops', hops', rfl⟩ := h'
  refine ⟨ops ++ ops', fun op hop => ?_, (run_append w ops ops').symm⟩
  exact (List.mem_append.mp hop).elim (hops op) (hops' op)

theorem step (w : Workspace) (op : Op) (hop : kind op = true) : w.Moves kind (w.step op) :=
  ⟨[op], fun _ h => List.mem_singleton.mp h ▸ hop, rfl⟩

theorem mono (h : w.Moves kind w') (hkind : ∀ op, kind op = true → kind' op = true) :
    w.Moves kind' w' := by
  obtain ⟨ops, hops, rfl⟩ := h
  exact ⟨ops, fun op hop => hkind op (hops op hop), rfl⟩

/-- What no operation of the kind changes stays as it was. -/
theorem eq_of_step {α : Type} {f : Workspace → α} (h : w.Moves kind w')
    (hstep : ∀ (v : Workspace) op, kind op = true → f (v.step op) = f v) : f w' = f w := by
  obtain ⟨ops, hops, rfl⟩ := h
  exact List.foldlRecOn (motive := fun v => f v = f w) ops Workspace.step rfl
    fun v hv op hop => (hstep v op (hops op hop)).trans hv

end Moves

/-- A later state of a workspace, in which nothing more was asked for and nothing forgotten. -/
def Supplied (w w' : Workspace) : Prop := w.Moves (fun op => !op.isDemand) w'

theorem Supplied.consumed_eq {w w' : Workspace} (h : w.Supplied w') :
    w'.consumed = w.consumed :=
  h.eq_of_step fun v _ hop => v.consumed_step (Bool.not_eq_true' _ ▸ hop)

/-- Whether an operation is one that a question of the driver may come to: a text arrives, an import
is recorded, a path is resolved. -/
def Op.isAnswer : Op → Bool
  | .fill .. | .importLink .. | .resolve _ => true
  | .reset _ | .clear _ | .clearActive | .source .. | .announce .. | .consume _
  | .resetConsumed => false

/-- A later state of a workspace, after which only questions of the driver were answered: no pass
started or ended, nothing was registered and nothing dropped. -/
def Answered (w w' : Workspace) : Prop := w.Moves Op.isAnswer w'

namespace Answered

variable {w w' : Workspace}

theorem supplied (h : w.Answered w') : w.Supplied w' :=
  h.mono fun op hop => by cases op <;> first | rfl | cases hop

theorem active_eq (h : w.Answered w') : w'.active = w.active := by
  refine h.eq_of_step fun v op hop => ?_
  rw [active_step]
  cases op <;> first | rfl | cases hop

theorem projects_eq (h : w.Answered w') : w'.projects = w.projects := by
  refine h.eq_of_step fun v op hop => ?_
  cases op with
  | fill key text => rw [step_fill]
  | importLink path specifier link | resolve path => rfl
  | _ => cases hop

end Answered

end Workspace

/-! ## What the driver asks -/

namespace Host

open Workspace (Answered)

theorem answered_resolveImports (h : Host) (importer : String) (options : Options)
    (specifiers : List String) :
    h.workspace.Answered (h.resolveImports importer options specifiers).2.workspace := by
  induction specifiers generalizing h with
  | nil => exact .refl _
  | cons specifier rest ih =>
    have hfirst : h.workspace.Answered (h.resolveImport importer options specifier).2.workspace := by
      unfold resolveImport
      split
      · exact .step h.workspace (.importLink ..) rfl
      · exact .refl _
    exact hfirst.trans (ih _)

/-- Every question of the driver is an operation of the workspace, or several. -/
theorem answered_answer (h : Host) (call : HostCall) :
    h.workspace.Answered (h.answer call).2.workspace := by
  cases call with
  | fileExists path | directoryExists path | textAt path | caseSensitive => exact .refl _
  | write path text => exact .step h.workspace (.fill path text) rfl
  | resolveImports importer specifiers options =>
    exact h.answered_resolveImports importer options specifiers
  | programOptions options =>
    show h.workspace.Answered (h.programOptions options).2.workspace
    simp only [programOptions]
    split
    · exact .refl _
    · exact .step h.workspace (.resolve _) rfl

end Host

/-- Whatever a driver asks, its questions are all that happens to the workspace. -/
theorem HostProgram.answered_run {α : Type} (p : HostProgram α) (h : Host) :
    h.workspace.Answered (p.run h).state.workspace := by
  induction p generalizing h with
  | done a => exact .refl _
  | fail e => exact .refl _
  | ask call next ih =>
    exact (h.answered_answer call).trans (ih (h.answer call).1 (h.answer call).2)

/-! ## What a builder does -/

namespace Builder

open Workspace (Supplied)
open BuildRelay.Action (Leaves)

theorem supplied_registerSource (naming : OutputNaming) (ignoreCase : Bool) (p : Project)
    (w : Workspace) (s : SourceFile) :
    w.Supplied (registerSource naming ignoreCase p w s) := by
  have hsource : w.Supplied (w.registerSource s.fileName s.text (fileOf p s)).2 :=
    .step w (.source ..) rfl
  simp only [registerSource]
  split
  · unfold announceOutputs
    exact List.foldlRecOn (motive := w.Supplied) _ _ hsource fun v hv e _ =>
      hv.trans (.step v (.announce ..) rfl)
  · exact hsource

/-- The workspace of a builder moves on, by whatever the builder does. -/
def Supplies (b b' : Builder) (_ : List BuildEvent) : Prop :=
  b.host.workspace.Supplied b'.host.workspace

theorem supplies_stepwise : Stepwise Supplies where
  refl b := .refl _
  trans h h' := h.trans h'
  tell e _ b := .refl _
  program p b := (p.answered_run b.host).supplied
  change c b := by
    cases c with
    | setMode mode | leave rest | start rest project => exact .refl _
    | reset p => exact .step b.host.workspace (.reset p.id) rfl
    | clearActive => exact .step b.host.workspace .clearActive rfl
    | register p sources =>
      exact List.foldlRecOn (motive := b.host.workspace.Supplied) sources _ (.refl _)
        fun w hw s _ => hw.trans (supplied_registerSource _ _ p w s)

theorem supplies_announceStarting : Leaves Supplies announceStarting := by
  intro b
  rw [announceStarting_eq]
  exact .refl _

theorem supplied_build (b : Builder) :
    b.host.workspace.Supplied (build b).state.host.workspace :=
  supplies_stepwise.bind supplies_announceStarting (fun _ => supplies_stepwise.passAndBuild) b

theorem supplied_onStatus (status : Status) (b : Builder) :
    b.host.workspace.Supplied (onStatus status b).state.host.workspace := by
  have hreport : Leaves Supplies (onStatus status) := by
    unfold onStatus
    refine supplies_stepwise.bind supplies_stepwise.get fun b => ?_
    split
    · exact supplies_stepwise.fail _
    · exact supplies_stepwise.pure ()
    · split
      · exact supplies_stepwise.bind supplies_announceStarting fun _ => supplies_stepwise.validate
      · intro b
        rw [announceEnded_eq]
        exact .refl _
      · intro b
        rw [announceEnded_eq]
        exact .refl _
      · exact supplies_stepwise.pure ()
  exact hreport b

end Builder

end BuildRelay
