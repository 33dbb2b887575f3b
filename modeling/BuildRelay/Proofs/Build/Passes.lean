/-
BuildRelay.Proofs.Build.Passes — what is heard of the passes of a builder.

A pass may ask the driver for projects, refresh them, fail in the midst of it: nobody outside hears
of that. What is heard is at most one announcement for a full build or a report, and whether there
is one does not hang on how the pass goes.

* `Action.Leaves` — what an action leaves, told by a relation that composes.
* `Stepwise` — what holds of every step of a pass, and so of the pass.
* `unheard_stepwise` — a pass keeps to itself.
* `announced_build`, `announced_onStatus` — the announcement of a build, and of a report.
-/
import BuildRelay.Build.Builder

namespace BuildRelay

namespace Action

variable {fault event state α β γ : Type}

/-! ## One action after another -/

theorem bind_of_ok {x : Action fault event state α} {s s' : state} {a : α} {v : List event}
    (h : x s = ⟨.ok a, s', v⟩) (f : α → Action fault event state β) :
    (x >>= f) s = ⟨(f a s').result, (f a s').state, v ++ (f a s').trace⟩ := by
  simp only [Bind.bind, Action.bind, h]

theorem bind_of_error {x : Action fault event state α} {s s' : state} {e : fault}
    {v : List event} (h : x s = ⟨.error e, s', v⟩) (f : α → Action fault event state β) :
    (x >>= f) s = ⟨.error e, s', v⟩ := by
  simp only [Bind.bind, Action.bind, h]

theorem bind_assoc (x : Action fault event state α) (f : α → Action fault event state β)
    (g : β → Action fault event state γ) : x >>= f >>= g = x >>= fun a => f a >>= g := by
  funext s
  simp only [Bind.bind, Action.bind]
  cases (x s).result with
  | error e => rfl
  | ok a =>
    cases h : (f a (x s).state).result with
    | error e => simp [h]
    | ok b => simp [h, List.append_assoc]

/-- Only what comes after a success matters. -/
theorem bind_congr {x : Action fault event state α} {f g : α → Action fault event state β}
    {s : state} (h : ∀ a, f a (x s).state = g a (x s).state) : (x >>= f) s = (x >>= g) s := by
  simp only [Bind.bind, Action.bind]
  cases (x s).result with
  | error e => rfl
  | ok a => simp only [h a]

/-! ## What an action leaves -/

theorem state_bind (x : Action fault event state α) (f : α → Action fault event state β)
    (s : state) : ((x >>= f) s).state = match (x s).result with
      | .error _ => (x s).state
      | .ok a => (f a (x s).state).state := by
  simp only [Bind.bind, Action.bind]
  cases (x s).result <;> rfl

theorem trace_bind (x : Action fault event state α) (f : α → Action fault event state β)
    (s : state) : ((x >>= f) s).trace = match (x s).result with
      | .error _ => (x s).trace
      | .ok a => (x s).trace ++ (f a (x s).state).trace := by
  simp only [Bind.bind, Action.bind]
  cases (x s).result <;> rfl

/-- Wherever an action starts, `R` holds of that state, the state that it leaves and its trace. -/
def Leaves (R : state → state → List event → Prop) (x : Action fault event state α) : Prop :=
  ∀ s, R s (x s).state (x s).trace

/-- A relation that holds of doing nothing, and of one thing after another. -/
structure Composes (R : state → state → List event → Prop) : Prop where
  refl : ∀ s, R s s []
  trans : ∀ {s s' s'' v w}, R s s' v → R s' s'' w → R s s'' (v ++ w)

variable {R : state → state → List event → Prop}

theorem Composes.pure (hR : Composes R) (a : α) :
    Leaves R (Pure.pure a : Action fault event state α) :=
  fun s => hR.refl s

theorem Composes.fail (hR : Composes R) (e : fault) :
    Leaves R (Action.fail e : Action fault event state α) :=
  fun s => hR.refl s

theorem Composes.get (hR : Composes R) :
    Leaves R (Action.get : Action fault event state state) :=
  fun s => hR.refl s

theorem Composes.bind (hR : Composes R) {x : Action fault event state α}
    {f : α → Action fault event state β} (hx : Leaves R x) (hf : ∀ a, Leaves R (f a)) :
    Leaves R (x >>= f) := by
  intro s
  rw [state_bind, trace_bind]
  have hfirst := hx s
  cases hresult : (x s).result with
  | error e => exact hfirst
  | ok a => exact hR.trans hfirst (hf a (x s).state)

theorem Leaves.thenAlways {x : Action fault event state α} {f : state → state} (hx : Leaves R x)
    (hf : ∀ s s' v, R s s' v → R s (f s') v) : Leaves R (Action.thenAlways x f) :=
  fun s => hf s _ _ (hx s)

end Action

/-! ## A pass -/

/-- Whether an event of a build is an announcement. -/
def BuildEvent.isAnnouncement : BuildEvent → Bool
  | .passStarting | .passEnded => true
  | .created .. | .nextAsked | .reset _ | .sourcesAsked _ | .registered .. | .finished _
  | .buildAsked | .answered .. => false

namespace Builder

open BuildRelay.Action (Leaves Composes)

/-- How a pass changes its builder by itself, apart from what the programs of the driver do. -/
inductive Change where
  | setMode (mode : BuildMode)
  | leave (rest : List Pull)
  | start (rest : List Pull) (project : String)
  | reset (p : Project)
  | register (p : Project) (sources : List SourceFile)
  | clearActive

/-- The builder after a change. -/
def Change.apply (b : Builder) : Change → Builder
  | setMode mode => { b with mode := some mode }
  | leave rest => b.leaving rest
  | start rest project => (b.leaving rest).onHost fun h => { h with active := some project }
  | reset p => b.onWorkspace fun w => w.resetProject p.id
  | register p sources => registerSources p sources b
  | clearActive => b.clearActive

/-- A relation that holds of everything that a pass is made of: of what it tells, of the programs of
the driver, and of its own changes. It then holds of the pass. -/
structure Stepwise (R : Builder → Builder → List BuildEvent → Prop) : Prop extends Composes R where
  tell : ∀ e : BuildEvent, e.isAnnouncement = false → ∀ b, R b b [e]
  program : ∀ {α : Type} (p : HostProgram α), Leaves R (runProgram p)
  change : ∀ (c : Change) b, R b (c.apply b) []

namespace Stepwise

variable {R : Builder → Builder → List BuildEvent → Prop}

theorem setMode (h : Stepwise R) (mode : BuildMode) : Leaves R (setMode mode) := by
  unfold Builder.setMode
  refine h.bind h.get fun b => ?_
  refine h.bind (h.tell _ rfl) fun _ => ?_
  cases b.driver.refusal with
  | some e => exact h.fail e
  | none => exact h.change (.setMode mode)

theorem refresh (h : Stepwise R) (p : Project) : Leaves R (refresh p) := by
  unfold Builder.refresh
  refine h.bind (h.change (.reset p)) fun _ => ?_
  refine h.bind (h.tell _ rfl) fun _ => ?_
  refine h.bind (h.tell _ rfl) fun _ => ?_
  refine h.bind (h.program p.sources) fun sources => ?_
  refine h.bind (h.change (.register p (ownSources p sources))) fun _ => ?_
  exact h.tell _ rfl

theorem drain (h : Stepwise R) (pulls : List Pull) : Leaves R (drain pulls) := by
  induction pulls with
  | nil => exact h.tell _ rfl
  | cons pull rest ih =>
    cases pull with
    | failure e =>
      rw [Builder.drain]
      refine h.bind (h.tell _ rfl) fun _ => ?_
      refine h.bind (h.change (.leave rest)) fun _ => ?_
      exact h.fail e
    | project p =>
      rw [Builder.drain]
      refine h.bind (h.tell _ rfl) fun _ => ?_
      refine h.bind (h.change (.start rest p.id)) fun _ => ?_
      have hfinish : Leaves R (do
          Action.tell (.finished p.id)
          runProgram p.finish
          Builder.drain rest) := by
        refine h.bind (h.tell _ rfl) fun _ => ?_
        exact h.bind (h.program p.finish) fun _ => ih
      split
      · exact h.bind (h.refresh p) fun _ => hfinish
      · exact hfinish

theorem validate (h : Stepwise R) : Leaves R validate := by
  refine Leaves.thenAlways (h.bind h.get fun b => ?_) ?_
  · split
    · exact h.fail _
    · exact h.drain _
  · intro b b' trace hpass
    have hend := h.trans hpass (h.change .clearActive b')
    rwa [List.append_nil] at hend

/-- What follows the announcement of a full build. -/
theorem passAndBuild (h : Stepwise R) : Leaves R (do
    Builder.validate
    Action.tell .buildAsked
    runProgram (← Action.get).driver.build : BuildAction Builder Unit) := by
  refine h.bind h.validate fun _ => ?_
  refine h.bind (h.tell _ rfl) fun _ => ?_
  exact h.bind h.get fun b => h.program b.driver.build

end Stepwise

/-- The announcements in a trace. -/
def announced (trace : List BuildEvent) : List BuildEvent :=
  trace.filter BuildEvent.isAnnouncement

@[simp] theorem announced_append (v w : List BuildEvent) :
    announced (v ++ w) = announced v ++ announced w :=
  List.filter_append ..

/-- Nothing is announced, and announcing stays as it was set. -/
def Unheard (b b' : Builder) (trace : List BuildEvent) : Prop :=
  b'.announcements = b.announcements ∧ announced trace = []

theorem unheard_composes : Composes Unheard where
  refl b := ⟨rfl, rfl⟩
  trans h h' := ⟨h'.1.trans h.1, by rw [announced_append, h.2, h'.2, List.append_nil]⟩

/-- A program of the driver leaves nothing but its questions with their answers. -/
theorem answered_of_mem_run {α : Type} {p : HostProgram α} {h : Host} {v : BuildEvent}
    (hv : v ∈ (p.run h).trace) : ∃ call answer, v = .answered call answer := by
  induction p generalizing h with
  | done a => cases hv
  | fail e => cases hv
  | ask call next ih =>
    rcases List.mem_cons.mp hv with rfl | hlater
    · exact ⟨call, _, rfl⟩
    · exact ih _ hlater

theorem answered_of_mem_runProgram {α : Type} {p : HostProgram α} {b : Builder} {v : BuildEvent}
    (hv : v ∈ (runProgram p b).trace) : ∃ call answer, v = .answered call answer := by
  obtain ⟨u, hu, rfl⟩ := List.mem_map.mp hv
  exact answered_of_mem_run hu

theorem unheard_runProgram {α : Type} (p : HostProgram α) : Leaves Unheard (runProgram p) := by
  intro b
  refine ⟨rfl, List.filter_eq_nil_iff.mpr fun v hv => ?_⟩
  obtain ⟨call, answer, rfl⟩ := answered_of_mem_runProgram hv
  simp [BuildEvent.isAnnouncement]

theorem unheard_stepwise : Stepwise Unheard where
  toComposes := unheard_composes
  tell e he b := ⟨rfl, by simp [announced, he]⟩
  program p := unheard_runProgram p
  change c b := by cases c <;> exact ⟨rfl, rfl⟩

/-- The mode is set exactly if the driver can be created. -/
theorem result_setMode (mode : BuildMode) (b : Builder) : (setMode mode b).result =
    match b.driver.refusal with
    | some e => .error e
    | none => .ok () := by
  simp only [setMode, Action.get, Action.tell, Bind.bind, Action.bind]
  cases b.driver.refusal <;> rfl

/-! ## What is announced -/

theorem announceStarting_eq (b : Builder) : announceStarting b =
    ⟨.ok (), b, if b.announcements.starting then [.passStarting] else []⟩ := by
  simp only [announceStarting, Action.get, Bind.bind, Action.bind]
  cases b.announcements.starting <;> rfl

theorem announceEnded_eq (b : Builder) : announceEnded b =
    ⟨.ok (), b, if b.announcements.ended then [.passEnded] else []⟩ := by
  simp only [announceEnded, Action.get, Bind.bind, Action.bind]
  cases b.announcements.ended <;> rfl

/-- What follows the announcement of a start is not heard. -/
theorem announced_after_starting {α : Type} {x : BuildAction Builder α} (hx : Leaves Unheard x)
    (b : Builder) :
    ((announceStarting >>= fun _ => x) b).state.announcements = b.announcements ∧
    announced ((announceStarting >>= fun _ => x) b).trace =
      if b.announcements.starting then [.passStarting] else [] := by
  simp only [Action.state_bind, Action.trace_bind, announceStarting_eq, announced_append]
  refine ⟨(hx b).1, ?_⟩
  rw [(hx b).2, List.append_nil]
  cases b.announcements.starting <;> rfl

theorem announced_ended (b : Builder) :
    (announceEnded b).state.announcements = b.announcements ∧
    announced (announceEnded b).trace = if b.announcements.ended then [.passEnded] else [] := by
  rw [announceEnded_eq]
  refine ⟨rfl, ?_⟩
  cases b.announcements.ended <;> rfl

/-- A full build announces its start, and never an end. -/
theorem announced_build (b : Builder) : (build b).state.announcements = b.announcements ∧
    announced (build b).trace = if b.announcements.starting then [.passStarting] else [] := by
  exact announced_after_starting unheard_stepwise.passAndBuild b

/-- What a watching builder announces at a report of the driver. -/
def announcement (a : Announcements) : Status → List BuildEvent
  | .changeDetected => if a.starting then [.passStarting] else []
  | .finishedWithOneError | .finishedWithErrors => if a.ended then [.passEnded] else []
  | .other _ => []

/-- A report is announced in watch mode alone, and however the pass goes that it starts. -/
theorem announced_onStatus (status : Status) (b : Builder) :
    (onStatus status b).state.announcements = b.announcements ∧
    announced (onStatus status b).trace =
      if b.mode = some .watch then announcement b.announcements status else [] := by
  obtain ⟨host, naming, roots, driver, mode, announcements⟩ := b
  cases mode with
  | none => exact ⟨rfl, rfl⟩
  | some mode =>
    cases mode with
    | execute => exact ⟨rfl, rfl⟩
    | watch =>
      rw [if_pos rfl]
      cases status with
      | changeDetected => exact announced_after_starting unheard_stepwise.validate _
      | finishedWithOneError => exact announced_ended _
      | finishedWithErrors => exact announced_ended _
      | other code => exact ⟨rfl, rfl⟩

end Builder

end BuildRelay
