/-
BuildRelay.Proofs.Build.Calls — what a pass asks of the driver, and in which order.

A pass asks for a project, then for its sources if it has to be compiled, then it lets the project
finish, and asks for the next one. The first call that fails ends the pass with its own error.

* `schedule` — the calls of a pass in which none fails.
* `drain_eq_makeCalls` — a pass is the calls of its schedule, one after the other.
* `makeCalls_cases` — all calls are made, or those up to the first that fails.
* `registered_of_scheduled` — a project that has to be compiled finishes right after its sources were
  registered.
* `answered_perform` — no other call registers anything.
* `Conducted`, `validate_conducts_schedule` — a pass from its start to its end.
-/
import BuildRelay.Proofs.Build.Sources

namespace BuildRelay

/-! ## The calls of a pass -/

/-- What a pass asks of the driver. -/
inductive DriverCall where
  /-- The next project that is out of date. -/
  | next
  /-- The sources of a project. -/
  | sources (p : Project)
  /-- That a project finishes. -/
  | finish (p : Project)

/-- What a pass asks of a project. -/
def Project.calls (p : Project) : List DriverCall :=
  match p.kind with
  | .build => [.sources p, .finish p]
  | .updateBundle | .updateStamps => [.finish p]

namespace Builder

/-- The calls of a pass in which none fails. -/
def schedule : List Pull → List DriverCall
  | [] | .failure _ :: _ => [.next]
  | .project p :: rest => .next :: (p.calls ++ schedule rest)

/-- Asks for the next project, which becomes the active one. -/
def pull : BuildAction Builder Unit := do
  Action.tell .nextAsked
  match (← Action.get).driver.pending with
  | [] => Action.pure ()
  | .failure e :: rest => do
    Action.modify fun b => b.leaving rest
    Action.fail e
  | .project p :: rest =>
    Action.modify fun b => (b.leaving rest).onHost fun h => { h with active := some p.id }

end Builder

namespace DriverCall

open Builder

/-- Makes a call, with what a pass does around it. -/
def perform : DriverCall → BuildAction Builder Unit
  | next => pull
  | sources p => refresh p
  | finish p => do
    Action.tell (.finished p.id)
    runProgram p.finish

/-- The driver fails at a call, with an error of its own. -/
def FailsWith (b : Builder) (e : BuildError) : DriverCall → Prop
  | next => ∃ rest, b.driver.pending = .failure e :: rest
  | sources p => (runProgram p.sources (resetting p b)).result = .error e
  | finish p => (runProgram p.finish b).result = .error e

/-- What is seen of a call, apart from what the driver asks the host. -/
def marks (b : Builder) : DriverCall → List BuildEvent
  | next => [.nextAsked]
  | sources p => .reset p.id :: .sourcesAsked p.id ::
    match (runProgram p.sources (resetting p b)).result with
    | .ok files => [.registered p.id ((files.filter fun s => p.Owns s).map SourceFile.fileName)]
    | .error _ => []
  | finish p => [.finished p.id]

end DriverCall

namespace Builder

open BuildRelay.Action (Leaves Composes)

/-- The builder after some calls. -/
def after (b : Builder) (calls : List DriverCall) : Builder :=
  calls.foldl (fun b c => (c.perform b).state) b

/-- None of the calls fails. -/
def Smooth (b : Builder) : List DriverCall → Prop
  | [] => True
  | c :: calls => (∀ e, ¬c.FailsWith b e) ∧ Smooth (c.perform b).state calls

/-- What is seen of some calls. -/
def marks (b : Builder) : List DriverCall → List BuildEvent
  | [] => []
  | c :: calls => c.marks b ++ marks (c.perform b).state calls

/-- A trace without what the driver asked the host. -/
def milestones (trace : List BuildEvent) : List BuildEvent :=
  trace.filter fun
    | .answered .. => false
    | _ => true

@[simp] theorem milestones_append (v w : List BuildEvent) :
    milestones (v ++ w) = milestones v ++ milestones w :=
  List.filter_append ..

theorem after_append (b : Builder) (xs ys : List DriverCall) :
    b.after (xs ++ ys) = (b.after xs).after ys :=
  List.foldl_append ..

theorem smooth_append {b : Builder} {xs ys : List DriverCall} :
    Smooth b (xs ++ ys) ↔ Smooth b xs ∧ Smooth (b.after xs) ys := by
  induction xs generalizing b with
  | nil => exact (and_iff_right trivial).symm
  | cons c xs ih =>
    show _ ∧ Smooth _ (xs ++ ys) ↔ (_ ∧ _) ∧ _
    rw [ih, and_assoc]
    rfl

theorem Smooth.of_prefix {b : Builder} {xs ys : List DriverCall} (h : Smooth b ys)
    (hstart : xs <+: ys) : Smooth b xs := by
  obtain ⟨zs, rfl⟩ := hstart
  exact (smooth_append.mp h).1

/-! ## What one call does -/

theorem milestones_runProgram {α : Type} (p : HostProgram α) (b : Builder) :
    milestones (runProgram p b).trace = [] := by
  refine List.filter_eq_nil_iff.mpr fun v hv => ?_
  obtain ⟨call, answer, rfl⟩ := answered_of_mem_runProgram hv
  simp

section Pull

variable {b : Builder} {rest : List Pull}

theorem pull_of_none (h : b.driver.pending = []) : pull b = ⟨.ok (), b, [.nextAsked]⟩ := by
  simp [pull, Action.tell, Action.get, Bind.bind, Action.bind, Action.pure, h]

theorem pull_of_failure {e : BuildError} (h : b.driver.pending = .failure e :: rest) :
    pull b = ⟨.error e, b.leaving rest, [.nextAsked]⟩ := by
  simp [pull, Action.tell, Action.get, Bind.bind, Action.bind, Action.modify, Action.fail, h]

theorem pull_of_project {p : Project} (h : b.driver.pending = .project p :: rest) :
    pull b = ⟨.ok (), (b.leaving rest).onHost fun h => { h with active := some p.id },
      [.nextAsked]⟩ := by
  simp [pull, Action.tell, Action.get, Bind.bind, Action.bind, Action.modify, h]

end Pull

/-- A call gives the driver's error as it is, and nothing else fails. -/
theorem result_perform_eq_error_iff (c : DriverCall) (b : Builder) (e : BuildError) :
    (c.perform b).result = .error e ↔ c.FailsWith b e := by
  cases c with
  | next =>
    simp only [DriverCall.perform, DriverCall.FailsWith]
    rcases hpending : b.driver.pending with _ | ⟨p | e', rest⟩
    · simp [pull_of_none hpending]
    · simp [pull_of_project hpending]
    · simp [pull_of_failure hpending]
  | sources p =>
    simp only [DriverCall.perform, DriverCall.FailsWith]
    rcases hanswer : runProgram p.sources (resetting p b) with ⟨result, s, v⟩
    cases result with
    | error e' => simp [refresh_of_error hanswer]
    | ok files => simp [refresh_of_ok hanswer]
  | finish p => rfl

theorem milestones_perform (c : DriverCall) (b : Builder) :
    milestones (c.perform b).trace = c.marks b := by
  cases c with
  | next =>
    simp only [DriverCall.perform, DriverCall.marks]
    rcases hpending : b.driver.pending with _ | ⟨p | e, rest⟩
    · rw [pull_of_none hpending]; rfl
    · rw [pull_of_project hpending]; rfl
    · rw [pull_of_failure hpending]; rfl
  | sources p =>
    have hquiet := milestones_runProgram p.sources (resetting p b)
    simp only [DriverCall.perform, DriverCall.marks]
    rcases hanswer : runProgram p.sources (resetting p b) with ⟨result, s, v⟩
    rw [hanswer] at hquiet
    cases result with
    | error e =>
      rw [refresh_of_error hanswer]
      show .reset p.id :: .sourcesAsked p.id :: milestones v = _
      rw [hquiet]
    | ok files =>
      rw [refresh_of_ok hanswer]
      show .reset p.id :: .sourcesAsked p.id :: milestones (v ++ _) = _
      rw [milestones_append, hquiet]
      rfl
  | finish p =>
    show .finished p.id :: milestones (runProgram p.finish b).trace = [.finished p.id]
    rw [milestones_runProgram]

/-! ## Calls in order -/

/-- Makes calls one after the other. -/
def makeCalls : List DriverCall → BuildAction Builder Unit
  | [] => Action.pure ()
  | c :: calls => do
    c.perform
    makeCalls calls

theorem makeCalls_append (xs ys : List DriverCall) :
    makeCalls (xs ++ ys) = makeCalls xs >>= fun _ => makeCalls ys := by
  induction xs with
  | nil => rfl
  | cons c xs ih =>
    show (c.perform >>= fun _ => makeCalls (xs ++ ys)) = _
    rw [ih, ← Action.bind_assoc]
    rfl

/-- All calls are made, or those up to the first that fails; its error is the error of all. -/
theorem makeCalls_cases (calls : List DriverCall) (b : Builder) :
    (Smooth b calls ∧ (makeCalls calls b).result = .ok () ∧
      (makeCalls calls b).state = b.after calls ∧
      milestones (makeCalls calls b).trace = marks b calls) ∨
    ∃ init c left e, calls = init ++ c :: left ∧ Smooth b init ∧ c.FailsWith (b.after init) e ∧
      (makeCalls calls b).result = .error e ∧
      (makeCalls calls b).state = b.after (init ++ [c]) ∧
      milestones (makeCalls calls b).trace = marks b (init ++ [c]) := by
  induction calls generalizing b with
  | nil => exact .inl ⟨trivial, rfl, rfl, rfl⟩
  | cons c calls ih =>
    have hresult := result_perform_eq_error_iff c b
    have hseen := milestones_perform c b
    rcases hperform : c.perform b with ⟨result, s, v⟩
    simp only [hperform] at hresult hseen
    cases result with
    | error e =>
      -- The first call fails already.
      refine .inr ⟨[], c, calls, e, rfl, trivial, (hresult e).mp rfl, ?_⟩
      have hmake : makeCalls (c :: calls) b = ⟨.error e, s, v⟩ :=
        Action.bind_of_error hperform fun _ => makeCalls calls
      refine ⟨by rw [hmake], ?_, ?_⟩
      · rw [hmake]
        show s = (c.perform b).state
        rw [hperform]
      · rw [hmake]
        show milestones v = c.marks b ++ []
        rw [hseen, List.append_nil]
    | ok =>
      have hmake : makeCalls (c :: calls) b = ⟨(makeCalls calls s).result,
          (makeCalls calls s).state, v ++ (makeCalls calls s).trace⟩ :=
        Action.bind_of_ok hperform fun _ => makeCalls calls
      have hgood : ∀ e, ¬c.FailsWith b e := fun e h => nomatch (hresult e).mpr h
      have hafter (cs : List DriverCall) : b.after (c :: cs) = s.after cs := by
        show (c.perform b).state.after cs = _
        rw [hperform]
      have hmarks (cs : List DriverCall) : marks b (c :: cs) = milestones v ++ marks s cs := by
        show c.marks b ++ marks (c.perform b).state cs = _
        rw [hperform, hseen]
      have hsmooth {cs : List DriverCall} (h : Smooth s cs) : Smooth b (c :: cs) := by
        refine ⟨hgood, ?_⟩
        rwa [hperform]
      rw [hmake, hafter, hmarks]
      simp only [milestones_append]
      rcases ih s with ⟨hall, hok, hstate, htrace⟩ |
          ⟨init, last, left, e, rfl, hinit, hfails, herror, hstate, htrace⟩
      · exact .inl ⟨hsmooth hall, hok, hstate, by rw [htrace]⟩
      · refine .inr ⟨c :: init, last, left, e, rfl, hsmooth hinit, ?_, herror, ?_, ?_⟩
        · rwa [hafter]
        · rw [hstate, List.cons_append, hafter]
        · rw [htrace, List.cons_append, hmarks]

/-! ## A pass -/

/-- The driver has the same left to hand out. -/
def SameDriver (b b' : Builder) (_ : List BuildEvent) : Prop := b'.driver = b.driver

theorem sameDriver_composes : Composes SameDriver where
  refl _ := rfl
  trans h h' := h'.trans h

theorem sameDriver_refresh (p : Project) : Leaves SameDriver (refresh p) := by
  intro b
  rcases hanswer : runProgram p.sources (resetting p b) with ⟨result, s, v⟩
  have hdriver : s.driver = b.driver := by
    rw [show s = (runProgram p.sources (resetting p b)).state by rw [hanswer]]
    rfl
  cases result with
  | error e =>
    rw [refresh_of_error hanswer]
    exact hdriver
  | ok files =>
    rw [refresh_of_ok hanswer]
    exact hdriver

theorem sameDriver_calls (p : Project) : Leaves SameDriver (makeCalls p.calls) := by
  have hfinish : Leaves SameDriver (makeCalls [.finish p]) :=
    sameDriver_composes.bind (fun _ => rfl) fun _ => sameDriver_composes.pure ()
  unfold Project.calls
  cases p.kind with
  | build => exact sameDriver_composes.bind (sameDriver_refresh p) fun _ => hfinish
  | updateBundle | updateStamps => exact hfinish

/-- The calls of a project are the refresh that its kind needs, and its end. -/
theorem makeCalls_calls (p : Project) (x : BuildAction Builder Unit) :
    (makeCalls p.calls >>= fun _ => x) = (do
      if p.kind = .build then refresh p
      Action.tell (.finished p.id)
      runProgram p.finish
      x) := by
  have hfinish : (makeCalls [.finish p] >>= fun _ => x) = (do
      Action.tell (.finished p.id)
      runProgram p.finish
      x) := by
    show (Action.tell (.finished p.id) >>= fun _ => runProgram p.finish) >>=
      (fun _ => Action.pure ()) >>= (fun _ => x) = _
    rw [Action.bind_assoc, Action.bind_assoc]
    rfl
  rw [Project.calls]
  cases p.kind with
  | build =>
    show (refresh p >>= fun _ => makeCalls [.finish p]) >>= (fun _ => x) = _
    rw [Action.bind_assoc, hfinish]
    rfl
  | updateBundle | updateStamps => exact hfinish

/-- A round of a pass: a project is pulled, its calls are made, and the pass goes on. -/
theorem drain_project {p : Project} {rest : List Pull} {b : Builder}
    (h : b.driver.pending = .project p :: rest) : drain (.project p :: rest) b =
      (do
        pull
        makeCalls p.calls
        drain rest) b := by
  rw [Action.bind_of_ok (pull_of_project h), makeCalls_calls]
  rfl

/-- A pass is the calls of its schedule. -/
theorem drain_eq_makeCalls {pulls : List Pull} {b : Builder} (h : b.driver.pending = pulls) :
    drain pulls b = makeCalls (schedule pulls) b := by
  induction pulls generalizing b with
  | nil => exact (Action.bind_of_ok (pull_of_none h) fun _ => makeCalls []).symm
  | cons pulled rest ih =>
    cases pulled with
    | failure e => exact (Action.bind_of_error (pull_of_failure h) fun _ => makeCalls []).symm
    | project p =>
      show _ = (pull >>= fun _ => makeCalls (p.calls ++ schedule rest)) b
      rw [drain_project h, makeCalls_append]
      refine Action.bind_congr fun _ => Action.bind_congr fun _ => ih ?_
      rw [sameDriver_calls p _, pull_of_project h]
      rfl

/-- A project that has to be compiled finishes right after it was asked for its sources. -/
theorem sources_before_finish {pulls : List Pull} {init left : List DriverCall} {p : Project}
    (h : schedule pulls = init ++ .finish p :: left) (hkind : p.kind = .build) :
    ∃ prior, init = prior ++ [.sources p] := by
  induction pulls generalizing init with
  | nil => rcases init with _ | ⟨c, _ | ⟨d, init⟩⟩ <;> simp [schedule] at h
  | cons pulled rest ih =>
    cases pulled with
    | failure e => rcases init with _ | ⟨c, _ | ⟨d, init⟩⟩ <;> simp [schedule] at h
    | project q =>
      rcases init with _ | ⟨c, init⟩
      · simp [schedule] at h
      rw [schedule, List.cons_append, List.cons.injEq] at h
      obtain ⟨-, h⟩ := h
      cases hq : q.kind with
      | build =>
        simp only [Project.calls, hq, List.cons_append, List.nil_append] at h
        rcases init with _ | ⟨d, _ | ⟨d', init⟩⟩
        · simp at h
        · simp only [List.cons_append, List.nil_append, List.cons.injEq,
            DriverCall.finish.injEq] at h
          obtain ⟨rfl, rfl, -⟩ := h
          exact ⟨[c], rfl⟩
        · simp only [List.cons_append, List.cons.injEq] at h
          obtain ⟨prior, rfl⟩ := ih h.2.2
          exact ⟨c :: d :: d' :: prior, rfl⟩
      | updateBundle | updateStamps =>
        simp only [Project.calls, hq, List.cons_append, List.nil_append] at h
        rcases init with _ | ⟨d, init⟩
        · simp only [List.nil_append, List.cons.injEq, DriverCall.finish.injEq] at h
          rw [h.1, hkind] at hq
          cases hq
        · simp only [List.cons_append, List.cons.injEq] at h
          obtain ⟨prior, rfl⟩ := ih h.2
          exact ⟨c :: d :: prior, rfl⟩

/-- Asking for the next project leaves the workspace alone. -/
theorem workspace_pull (b : Builder) :
    (DriverCall.next.perform b).state.host.workspace = b.host.workspace := by
  simp only [DriverCall.perform]
  rcases hpending : b.driver.pending with _ | ⟨p | e, rest⟩
  · rw [pull_of_none hpending]
  · rw [pull_of_project hpending]; rfl
  · rw [pull_of_failure hpending]; rfl

/-- Unless it is asked for the sources of a project, whatever the driver does to the workspace it
does by questions of its own. -/
theorem answered_perform {c : DriverCall} (hc : ∀ p, c ≠ .sources p) (b : Builder) :
    b.host.workspace.Answered (c.perform b).state.host.workspace := by
  cases c with
  | next =>
    rw [workspace_pull]
    exact .refl _
  | sources p => exact absurd rfl (hc p)
  | finish p => exact p.finish.answered_run b.host

theorem registered_of_smooth {b : Builder} {prior : List DriverCall} {p : Project}
    (h : Smooth b (prior ++ [.sources p])) :
    Registered p (b.after prior) (b.after (prior ++ [.sources p])) := by
  obtain ⟨hgood, -⟩ := (smooth_append.mp h).2
  rw [after_append]
  cases hresult : (runProgram p.sources (resetting p (b.after prior))).result with
  | error e => exact absurd hresult (hgood e)
  | ok files => exact registered_refresh hresult

/-- When a project finishes that has to be compiled, its sources have just been registered. -/
theorem registered_of_scheduled {b : Builder} {pulls : List Pull} {init : List DriverCall}
    {p : Project} (h : init ++ [.finish p] <+: schedule pulls) (hsmooth : Smooth b init)
    (hkind : p.kind = .build) :
    ∃ prior, init = prior ++ [.sources p] ∧ Registered p (b.after prior) (b.after init) := by
  obtain ⟨left, hleft⟩ := h
  rw [List.append_assoc] at hleft
  obtain ⟨prior, rfl⟩ := sources_before_finish hleft.symm hkind
  exact ⟨prior, rfl, registered_of_smooth hsmooth⟩

theorem validate_of_no_mode {b : Builder} (h : b.mode = none) :
    validate b = ⟨.error .noMode, clearActive b, []⟩ := by
  simp [validate, Action.thenAlways, Action.get, Action.fail, Bind.bind, Action.bind, h]

theorem validate_of_mode {b : Builder} (h : b.mode.isSome = true) :
    (validate b).result = (makeCalls (schedule b.driver.pending) b).result ∧
    (validate b).state = clearActive (makeCalls (schedule b.driver.pending) b).state ∧
    (validate b).trace = (makeCalls (schedule b.driver.pending) b).trace := by
  obtain ⟨mode, hmode⟩ := Option.isSome_iff_exists.mp h
  rw [← drain_eq_makeCalls rfl]
  simp [validate, Action.thenAlways, Action.get, Bind.bind, Action.bind, hmode]

/-- How a pass with an outcome went that made some calls. -/
structure Conducted (b : Builder) (made : List DriverCall)
    (o : Outcome BuildError BuildEvent Builder Unit) : Prop where
  /-- They are calls of the schedule, from its start. -/
  scheduled : made <+: schedule b.driver.pending
  /-- Nothing else was done. -/
  seen : milestones o.trace = marks b made
  left : o.state = clearActive (b.after made)
  /-- A call is made only if none before it failed. -/
  smooth : ∀ init c, init ++ [c] <+: made → Smooth b init
  complete : o.result = .ok () → made = schedule b.driver.pending
  /-- It is the last call that fails, and its error is the error of the pass. -/
  failed : ∀ e, o.result = .error e →
    ∃ init c, made = init ++ [c] ∧ c.FailsWith (b.after init) e
  /-- When a project finishes that has to be compiled, its sources have just been registered. -/
  registered : ∀ init p, init ++ [.finish p] <+: made → p.kind = .build →
    ∃ prior, init = prior ++ [.sources p] ∧ Registered p (b.after prior) (b.after init)
  /-- Only a call for sources changes which files the projects have. -/
  untouched : ∀ init c, init ++ [c] <+: made → (∀ p, c ≠ .sources p) →
    (b.after (init ++ [c])).host.workspace.projects = (b.after init).host.workspace.projects
  /-- Any other call resets nothing and registers nothing: all that happens to the workspace is that
  the driver's own questions are answered. -/
  answered : ∀ init c, init ++ [c] <+: made → (∀ p, c ≠ .sources p) →
    (b.after init).host.workspace.Answered (b.after (init ++ [c])).host.workspace
  /-- Asking for the next project leaves the workspace as it was. -/
  idle : ∀ init, init ++ [.next] <+: made →
    (b.after (init ++ [.next])).host.workspace = (b.after init).host.workspace

/-- Which calls were made says how the workspace was treated as well. -/
theorem conducted_of_made {b : Builder} {made : List DriverCall}
    {o : Outcome BuildError BuildEvent Builder Unit}
    (hscheduled : made <+: schedule b.driver.pending)
    (hsmooth : ∀ init c, init ++ [c] <+: made → Smooth b init)
    (hseen : milestones o.trace = marks b made) (hleft : o.state = clearActive (b.after made))
    (hcomplete : o.result = .ok () → made = schedule b.driver.pending)
    (hfailed : ∀ e, o.result = .error e →
      ∃ init c, made = init ++ [c] ∧ c.FailsWith (b.after init) e) : Conducted b made o := by
  have hanswered : ∀ init (c : DriverCall), (∀ p, c ≠ .sources p) →
      (b.after init).host.workspace.Answered (b.after (init ++ [c])).host.workspace := by
    intro init c hc
    rw [after_append]
    exact answered_perform hc _
  have hidle : ∀ init, (b.after (init ++ [.next])).host.workspace =
      (b.after init).host.workspace := by
    intro init
    rw [after_append]
    exact workspace_pull _
  exact
    { scheduled := hscheduled
      seen := hseen
      left := hleft
      smooth := hsmooth
      complete := hcomplete
      failed := hfailed
      registered := fun init p hstart =>
        registered_of_scheduled (hstart.trans hscheduled) (hsmooth _ _ hstart)
      untouched := fun init c _ hc => (hanswered init c hc).projects_eq
      answered := fun init c _ => hanswered init c
      idle := fun init _ => hidle init }

theorem conducted_of_mode {b : Builder} (h : b.mode.isSome = true) :
    ∃ made, Conducted b made (validate b) := by
  obtain ⟨hresult, hstate, htrace⟩ := validate_of_mode h
  rcases makeCalls_cases (schedule b.driver.pending) b with ⟨hall, hok, hafter, hmarks⟩ |
      ⟨init, c, left, e, hschedule, hinit, hfails, herror, hafter, hmarks⟩
  · -- All calls were made.
    refine ⟨schedule b.driver.pending, conducted_of_made List.prefix_rfl ?_ ?_ ?_ ?_ ?_⟩
    · exact fun init c hstart => hall.of_prefix ((List.prefix_append init [c]).trans hstart)
    · rw [htrace, hmarks]
    · rw [hstate, hafter]
    · exact fun _ => rfl
    · intro e he
      rw [hresult, hok] at he
      cases he
  · -- One call failed, and it was the last.
    refine ⟨init ++ [c], conducted_of_made ?_ ?_ ?_ ?_ ?_ ?_⟩
    · exact ⟨left, by rw [hschedule, List.append_assoc]; rfl⟩
    · intro init' c' hstart
      rcases List.prefix_concat_iff.mp hstart with heq | hshorter
      · obtain ⟨rfl, -⟩ := List.append_inj' heq rfl
        exact hinit
      · exact hinit.of_prefix ((List.prefix_append init' [c']).trans hshorter)
    · rw [htrace, hmarks]
    · rw [hstate, hafter]
    · intro hok
      rw [hresult, herror] at hok
      cases hok
    · intro e' he
      rw [hresult, herror] at he
      cases he
      exact ⟨init, c, rfl, hfails⟩

/-- A pass succeeds exactly if a mode is set and no call of its schedule fails. Without a mode it
asks for nothing. With one it makes the calls of its schedule up to the first that fails, whose
error it ends with: a project finishes before the next is asked for, right after its sources were
registered if it has to be compiled, and nothing else resets a project or registers a source.
However it ends, no project is active. -/
theorem validate_conducts_schedule (b : Builder) :
    ((validate b).result = .ok () ↔ b.mode.isSome = true ∧ Smooth b (schedule b.driver.pending)) ∧
    (b.mode = none → (validate b).result = .error .noMode ∧ (validate b).trace = []) ∧
    (b.mode.isSome = true → ∃ made, Conducted b made (validate b)) ∧
    (validate b).state.host.activeProject = .error .noActiveProject ∧
    (validate b).state.host.workspace.active = none := by
  refine ⟨?_, fun h => ?_, conducted_of_mode, rfl, rfl⟩
  · cases hmode : b.mode with
    | none =>
      rw [validate_of_no_mode hmode]
      simp
    | some mode =>
      have hset : b.mode.isSome = true := by rw [hmode]; rfl
      rw [(validate_of_mode hset).1, Option.isSome_some, and_iff_right rfl]
      rcases makeCalls_cases (schedule b.driver.pending) b with ⟨hall, hok, -, -⟩ |
          ⟨init, c, left, e, hschedule, hinit, hfails, herror, -, -⟩
      · exact iff_of_true hok hall
      · refine iff_of_false (by rw [herror]; exact nofun) fun hall => ?_
        rw [hschedule] at hall
        exact (smooth_append.mp hall).2.1 e hfails
  · rw [validate_of_no_mode h]
    exact ⟨rfl, rfl⟩

/-- A project to be compiled. The driver reports a source of it, typings of its own, and a file of
each sort of library. -/
def projectWithLibraries : Project where
  id := "/p/tsconfig.json"
  kind := .build
  options := ∅
  sources := .done
    [⟨"/p/node_modules/x/x.d.ts", "x", true⟩, ⟨"/p/a.ts", "run()", false⟩, ⟨"/lib.d.ts", "lib", true⟩,
      ⟨"/p/env.d.ts", "env", true⟩]
  isExternal s := s.fileName = "/p/node_modules/x/x.d.ts"
  isDefaultLib s := s.fileName = "/lib.d.ts"
  finish := .done ()

/-- A builder whose driver hands out that project. -/
def pullingLibraries : Builder where
  host :=
    { workspace := .inDir "/p"
      disk := ⟨fun _ => false, fun _ => false, fun _ => none, true⟩
      resolution := fun _ _ _ _ => none
      overrides := none
      projects := ∅
      active := none }
  naming := fun _ _ _ => ⟨some "/p/a.js", none, none⟩
  roots := ["/p"]
  driver := ⟨none, [.project projectWithLibraries], .done ()⟩
  mode := some .execute
  announcements := ⟨false, false⟩

/-- The source and the typings are registered, each with its own text and kind, before the project
finishes; of the libraries nothing is. -/
theorem validate_conducts_schedule_past_libraries :
    (∃ made, Conducted pullingLibraries made (validate pullingLibraries) ∧
      made = [.next, .sources projectWithLibraries, .finish projectWithLibraries, .next]) ∧
    milestones (validate pullingLibraries).trace =
      [.nextAsked, .reset "/p/tsconfig.json", .sourcesAsked "/p/tsconfig.json",
        .registered "/p/tsconfig.json" ["/p/a.ts", "/p/env.d.ts"], .finished "/p/tsconfig.json",
        .nextAsked] ∧
    (validate pullingLibraries).state.host.workspace.projectFiles "/p/tsconfig.json" =
      [⟨.compiled, "/p/a.ts", "/p/tsconfig.json", ∅⟩,
        ⟨.readOnly, "/p/env.d.ts", "/p/tsconfig.json", ∅⟩] ∧
    (validate pullingLibraries).state.host.workspace.text? "/p/a.ts" = some "run()" ∧
    (validate pullingLibraries).state.host.workspace.text? "/lib.d.ts" = none := by
  have hok : (validate pullingLibraries).result = .ok () := rfl
  obtain ⟨made, hmade⟩ := (validate_conducts_schedule pullingLibraries).2.2.1 rfl
  have hall := hmade.complete hok
  subst hall
  exact ⟨⟨_, hmade, rfl⟩, hmade.seen.trans rfl, by decide, by decide, by decide⟩

end Builder

end BuildRelay
