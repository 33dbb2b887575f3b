/-
BuildRelay.Proofs.Gate.Windows — whether a change gets a window of its own.

A change opens a window if the gate holds no other change. Nothing happens at a deadline by itself:
a window whose time is over stays open until somebody looks. If neither a reader nor the compiler
comes, the next change still finds it there and opens none, however late it is. The reader that
comes next is then let go at once, by the deadline of the change that was overlooked.

* `Settled.over_step`, `Settled.unwatched_step` — a window that is over is closed by whoever looks,
  and by nobody else.
* `exists_window` — where the window comes from that a run leaves open.
* `Overlooked` — runs that leave a window open which nobody has looked at.
* `fresh_change_holds_readers_iff` — a change that comes after the time of all earlier ones holds
  its readers until its own deadline exactly if none of those was overlooked.
* `overlooked_change_lets_reader_go` — a run in which one was.
-/
import BuildRelay.Proofs.Gate.Release
import Mathlib.Data.List.Induction

namespace BuildRelay

namespace Gate

variable {g : Gate} {t : Ticket} {now : Nat} {w : Waiter}

/-! ## The phase under a look -/

/-- Whoever comes or waits on the pending change drops it once it is over. -/
theorem phase_poll_of_over (hphase : g.phase = .changePending t)
    (hover : g.verdict? now true t = some false) (hw : w = .arriving ∨ w = .onChange t) :
    (g.poll now true w).1.phase = .idle := by
  have look : (g.pollChange now true t).1.phase = .idle := by
    rw [pollChange_eq, hover]
    simp [phase_tell, hphase]
  rcases hw with rfl | rfl
  · simp only [poll, hphase, Phase.pending?]
    exact look
  · exact look

/-- A reader that neither comes nor waits on the pending change leaves it pending. -/
theorem phase_poll_of_unwatched (hphase : g.phase = .changePending t) (hcomes : w ≠ .arriving)
    (hwaits : w ≠ .onChange t) : (g.poll now true w).1.phase = .changePending t := by
  cases w with
  | arriving => exact absurd rfl hcomes
  | onChange s =>
    have hs : t ≠ s := fun h => hwaits (by rw [h])
    simp only [poll, pollChange_eq]
    cases g.verdict? now true s with
    | none => exact hphase
    | some inTime => simp [phase_tell, hphase, hs]
  | onCompiler s => exact hphase
  | released => exact hphase

theorem awaitCompiler_ne_onChange (g : Gate) (t : Ticket) : g.awaitCompiler ≠ .onChange t := by
  unfold awaitCompiler pollCompiler
  split
  · split <;> simp
  · simp

/-- A look leaves a reader on a change only if it was there before, or has just come. -/
theorem of_poll_eq_onChange (h : (g.poll now true w).2 = .onChange t) :
    w = .arriving ∨ w = .onChange t := by
  obtain ⟨s, hw, hlook⟩ | ⟨hw, -, -⟩ | ⟨s, -, hpoll⟩ | ⟨-, hpoll⟩ := g.poll_cases now true w
  · refine hw.imp And.left fun hs => ?_
    rcases hlook with ⟨inTime, -, hpoll⟩ | ⟨-, hpoll⟩
    · rw [hpoll] at h
      cases inTime with
      | true => exact absurd h (g.awaitCompiler_ne_onChange t)
      | false => cases h
    · rw [hpoll] at h
      cases h
      exact hs
  · exact .inl hw
  · rw [hpoll] at h
    simp only [pollCompiler] at h
    split at h <;> cases h
  · rw [hpoll] at h
    cases h

end Gate

namespace Room

/-! ## The phase under a pass of looks -/

theorem not_pending_pollAll {now : Nat} {g : Gate} {t : Ticket}
    (hphase : g.phase ≠ .changePending t) (ws : List Gate.Waiter) :
    (pollAll now g ws).1.phase ≠ .changePending t := by
  induction ws generalizing g with
  | nil => exact hphase
  | cons w rest ih =>
    refine ih (g := (g.poll now true w).1) ?_
    rcases g.phase_poll now true w with hsame | ⟨-, -, hidle⟩
    · rw [hsame]; exact hphase
    · rw [hidle]; simp

theorem phase_pollAll_of_unwatched {now : Nat} {g : Gate} {t : Ticket} {ws : List Gate.Waiter}
    (hphase : g.phase = .changePending t)
    (hws : ∀ w ∈ ws, w ≠ .arriving ∧ w ≠ .onChange t) :
    (pollAll now g ws).1.phase = .changePending t := by
  induction ws generalizing g with
  | nil => exact hphase
  | cons w rest ih =>
    obtain ⟨hcomes, hwaits⟩ := hws w List.mem_cons_self
    exact ih (Gate.phase_poll_of_unwatched hphase hcomes hwaits)
      fun v hv => hws v (List.mem_cons_of_mem w hv)

/-- Once somebody has looked, a change that is over is not pending. -/
theorem not_pending_pollAll_of_over {now : Nat} {g g' : Gate} {t : Ticket}
    {ws : List Gate.Waiter} (h : Gate.Looked now g g')
    (hws : ∀ t, .onChange t ∈ ws → g.verdict? now true t = some true → g.phase.pending? = none)
    (hover : g.verdict? now true t = some false) {w : Gate.Waiter} (hmem : w ∈ ws)
    (hw : w = .arriving ∨ w = .onChange t) :
    (pollAll now g' ws).1.phase ≠ .changePending t := by
  induction ws generalizing g' with
  | nil => cases hmem
  | cons v rest ih =>
    have hlook := (h.poll v fun s hs => hws s (by rw [hs]; exact List.mem_cons_self)).1
    rcases List.mem_cons.mp hmem with rfl | hmem
    · refine not_pending_pollAll (g := (g'.poll now true w).1) ?_ rest
      by_cases hphase : g'.phase = .changePending t
      · rw [Gate.phase_poll_of_over hphase (by rw [h.verdict?_eq, hover]) hw]
        simp
      · rcases g'.phase_poll now true w with hsame | ⟨-, -, hidle⟩
        · rw [hsame]; exact hphase
        · rw [hidle]; simp
    · exact ih hlook (fun s hs => hws s (List.mem_cons_of_mem v hs)) hmem

namespace Settled

variable {r : Room} {t : Ticket} {d : Nat}

/-- A pending change that is over does not survive an event in which a reader comes, or after which
one that waits for it looks. -/
theorem over_step (h : Settled r) (hphase : r.gate.phase = .changePending t)
    (hd : r.deadlines[t]? = some d) {op : Op} (hstarted : op ≠ .started)
    (hover : d ≤ r.now + op.ms) (hlooks : op = .await ∨ .onChange t ∈ r.waiters) :
    (r.step op).gate.phase ≠ .changePending t := by
  obtain ⟨-, c, hc, hnot, hverdict, -⟩ := h.gate.pending t hphase
  obtain ⟨c', hc', hnot', hverdict', hdeadline'⟩ :=
    changes_happen hc op fun heq => absurd heq hstarted
  have htold : (r.happen op).gate.verdict? (r.happen op).now true t = some false := by
    rw [Gate.verdict?_of_not_started hc' (hverdict'.trans hverdict) (hnot'.trans hnot),
      hdeadline'.trans (deadline_eq hc hd), now_happen, if_pos hover]
  have hready : ∀ s, .onChange s ∈ (r.happen op).waiters →
      (r.happen op).gate.verdict? (r.happen op).now true s = some true →
      (r.happen op).gate.phase.pending? = none :=
    fun _ hs htrue => (h.ready op _ hs).pending?_eq_none htrue
  obtain ⟨w, hmem, hw⟩ : ∃ w ∈ (r.happen op).waiters, w = .arriving ∨ w = .onChange t := by
    rcases hlooks with rfl | hwaits
    · exact ⟨.arriving, List.mem_append_right _ List.mem_cons_self, .inl rfl⟩
    · refine ⟨.onChange t, ?_, .inr rfl⟩
      cases op with
      | await => exact List.mem_append_left _ hwaits
      | change => exact hwaits
      | started => exact hwaits
      | ended => exact hwaits
      | advance ms => exact hwaits
  exact not_pending_pollAll_of_over (Gate.Looked.refl _ _) hready htold hmem hw

/-- A pending change stays as long as nobody comes who could look at it. -/
theorem unwatched_step (h : Settled r) (op : Op)
    (hphase : (r.happen op).gate.phase = .changePending t)
    (hunwatched : ∀ w ∈ (r.happen op).waiters, w ≠ .arriving ∧ w ≠ .onChange t) :
    (r.step op).gate.phase = .changePending t ∧ .onChange t ∉ (r.step op).waiters := by
  refine ⟨phase_pollAll_of_unwatched hphase hunwatched, ?_⟩
  intro hmem
  rw [(h.looked op).2, List.mem_map] at hmem
  obtain ⟨w, hw, hanswer⟩ := hmem
  rcases Gate.of_poll_eq_onChange hanswer with hcomes | hwaits
  · exact (hunwatched w hw).1 hcomes
  · exact (hunwatched w hw).2 hwaits

theorem not_arriving (h : Settled r) {w : Gate.Waiter} (hw : w ∈ r.waiters) : w ≠ .arriving := by
  rintro rfl
  exact h.waiters _ hw

/-- A change that comes to an idle gate opens a window. -/
theorem opens_step (h : Settled r) (hphase : r.gate.phase = .idle) :
    (r.step .change).gate.phase = .changePending r.gate.changes.length ∧
    .onChange r.gate.changes.length ∉ (r.step .change).waiters ∧
    (r.step .change).deadlines[r.gate.changes.length]? = some (r.now + r.gate.timeout) := by
  have hunwatched : ∀ w ∈ (r.happen .change).waiters,
      w ≠ .arriving ∧ w ≠ .onChange r.gate.changes.length := by
    intro w hw
    refine ⟨h.not_arriving hw, ?_⟩
    rintro rfl
    -- Nobody waits on a change that has no ticket yet.
    obtain ⟨c, hc, -⟩ := h.waiters _ hw
    exact absurd (List.getElem?_eq_some_iff.mp hc).1 (Nat.lt_irrefl _)
  obtain ⟨hopen, hnobody⟩ := h.unwatched_step .change
    (by simp [happen, Gate.change, hphase]) hunwatched
  refine ⟨hopen, hnobody, ?_⟩
  rw [h.deadlines_step, if_pos ⟨rfl, hphase⟩]
  simp [deadlines]

end Settled

/-! ## Where an open window comes from -/

theorem run_concat (r : Room) (ops : List Op) (op : Op) :
    r.run (ops ++ [op]) = (r.run ops).step op := by
  rw [run, run, List.foldl_append]
  rfl

theorem run_append (r : Room) (ops ops' : List Op) : r.run (ops ++ ops') = (r.run ops).run ops' :=
  List.foldl_append

theorem elapsed_append (ops ops' : List Op) :
    elapsed (ops ++ ops') = elapsed ops + elapsed ops' := by
  induction ops with
  | nil => simp [elapsed]
  | cons op ops ih => rw [List.cons_append, elapsed, elapsed, ih, Nat.add_assoc]

theorem now_run (r : Room) (ops : List Op) : (r.run ops).now = r.now + elapsed ops := by
  induction ops generalizing r with
  | nil => rfl
  | cons op ops ih => rw [run_cons, ih, now_add_elapsed]

theorem Settled.timeout_run {r : Room} (h : Settled r) (ops : List Op) :
    (r.run ops).gate.timeout = r.gate.timeout := by
  induction ops generalizing r with
  | nil => rfl
  | cons op ops ih => rw [run_cons, ih (h.step op), h.timeout_step]

theorem timeout_run_ofTimeout (timeout : Nat) (ops : List Op) :
    ((ofTimeout timeout).run ops).gate.timeout = timeout :=
  (ofTimeout_settled timeout).timeout_run ops

/-- Whether the compiler is heard of. -/
def Op.isCompiler : Op → Bool
  | .started | .ended => true
  | .change | .await | .advance _ => false

/-- A window that is open after `ops`, for the change `t`: after `before` a change found the gate
idle, and `since` then the compiler has not been heard of. Whoever came since then waits. -/
structure Window (timeout : Nat) (ops : List Op) (t : Ticket) (before since : List Op) : Prop where
  ops_eq : ops = before ++ .change :: since
  idle : ((ofTimeout timeout).run before).gate.phase = .idle
  deadline : ((ofTimeout timeout).run ops).deadlines[t]? =
    some (((ofTimeout timeout).run before).now + timeout)
  quiet : ∀ op ∈ since, op.isCompiler = false
  watched : .await ∈ since → .onChange t ∈ ((ofTimeout timeout).run ops).waiters

theorem Window.extend {timeout : Nat} {ops before since : List Op} {t : Ticket} {op : Op}
    (hwindow : Window timeout ops t before since)
    (hphase : ((ofTimeout timeout).run ops).gate.phase = .changePending t)
    (hquiet : op.isCompiler = false)
    (hkept : ((ofTimeout timeout).run (ops ++ [op])).gate.phase = .changePending t) :
    Window timeout (ops ++ [op]) t before (since ++ [op]) := by
  have h : Settled ((ofTimeout timeout).run ops) := (ofTimeout_settled timeout).run ops
  have hstarted : op ≠ .started := by rintro rfl; cases hquiet
  rw [run_concat] at hkept
  -- The window would have been closed if its time were over and somebody had looked.
  have hahead : op = .await ∨ .onChange t ∈ ((ofTimeout timeout).run ops).waiters →
      ¬((ofTimeout timeout).run before).now + timeout ≤
        ((ofTimeout timeout).run ops).now + op.ms :=
    fun hlooks hover => h.over_step hphase hwindow.deadline hstarted hover hlooks hkept
  refine ⟨?_, hwindow.idle, ?_, ?_, ?_⟩
  · rw [hwindow.ops_eq, List.append_assoc, List.cons_append]
  · rw [run_concat]
    exact h.deadline_step hwindow.deadline op
  · intro op' hop'
    rcases List.mem_append.mp hop' with hold | hnew
    · exact hwindow.quiet op' hold
    · rw [List.mem_singleton.mp hnew]; exact hquiet
  · intro hcame
    rw [run_concat]
    rcases List.mem_append.mp hcame with hold | hnew
    · have hwaits := hwindow.watched hold
      obtain ⟨i, hi⟩ := List.getElem?_of_mem hwaits
      have hstep := h.onChange_step hi hwindow.deadline op fun heq => absurd heq hstarted
      rw [if_neg (hahead (.inr hwaits))] at hstep
      exact List.mem_of_getElem? hstep
    · obtain rfl := List.mem_singleton.mp hnew
      have hcame := h.await_pending hphase hwindow.deadline
      have hnot := hahead (.inl rfl)
      rw [Op.ms, Nat.add_zero] at hnot
      rw [if_neg hnot] at hcame
      exact List.mem_of_getElem? hcame

theorem exists_window (timeout : Nat) (ops : List Op) {t : Ticket}
    (hphase : ((ofTimeout timeout).run ops).gate.phase = .changePending t) :
    ∃ before since, Window timeout ops t before since := by
  induction ops using List.reverseRecOn with
  | nil => cases hphase
  | append_singleton ops op ih =>
    have h : Settled ((ofTimeout timeout).run ops) := (ofTimeout_settled timeout).run ops
    have hkept := hphase
    rw [run_concat] at hphase
    have hpending := (h.looked op).1.pending_of_pending hphase
    have stays : ((ofTimeout timeout).run ops).gate.phase = .changePending t →
        op.isCompiler = false → ∃ before since, Window timeout (ops ++ [op]) t before since := by
      intro hbefore hquiet
      obtain ⟨before, since, hwindow⟩ := ih hbefore
      exact ⟨before, since ++ [op], hwindow.extend hbefore hquiet hkept⟩
    cases op with
    | change =>
      cases hbefore : ((ofTimeout timeout).run ops).gate.phase with
      | idle =>
        obtain ⟨hopen, -, hdeadline⟩ := h.opens_step hbefore
        rw [hopen] at hphase
        cases hphase
        refine ⟨ops, [], rfl, hbefore, ?_, by simp, by simp⟩
        rw [run_concat, hdeadline, timeout_run_ofTimeout]
      | changePending s =>
        simp only [happen, Gate.change, hbefore] at hpending
        exact stays (hbefore.trans hpending) rfl
      | compilerRunning s =>
        simp only [happen, Gate.change, hbefore] at hpending
        cases hpending
    | started =>
      cases hbefore : ((ofTimeout timeout).run ops).gate.phase <;>
        simp [happen, Gate.started, hbefore] at hpending
    | ended =>
      cases hbefore : ((ofTimeout timeout).run ops).gate.phase <;>
        simp [happen, Gate.ended, hbefore] at hpending
    | await => exact stays hpending rfl
    | advance ms => exact stays hpending rfl

/-- A compiler that works was heard to start, and not to end since. -/
theorem started_of_running (timeout : Nat) (ops : List Op) {t : Ticket}
    (hphase : ((ofTimeout timeout).run ops).gate.phase = .compilerRunning t) :
    ∃ before since, ops = before ++ .started :: since ∧ .ended ∉ since := by
  induction ops using List.reverseRecOn with
  | nil => cases hphase
  | append_singleton ops op ih =>
    have h : Settled ((ofTimeout timeout).run ops) := (ofTimeout_settled timeout).run ops
    rw [run_concat] at hphase
    have hrunning := (h.looked op).1.running_of_running hphase
    have stays : ((ofTimeout timeout).run ops).gate.phase = .compilerRunning t →
        op ≠ .ended → ∃ before since, ops ++ [op] = before ++ .started :: since ∧
          .ended ∉ since := by
      intro hbefore hop
      obtain ⟨before, since, hops, hended⟩ := ih hbefore
      refine ⟨before, since ++ [op], by rw [hops, List.append_assoc, List.cons_append], ?_⟩
      simp [hended, Ne.symm hop]
    cases op with
    | change =>
      refine stays ?_ (by simp)
      cases hbefore : ((ofTimeout timeout).run ops).gate.phase <;>
        simp [happen, Gate.change, hbefore] at hrunning ⊢
      exact hrunning
    | started => exact ⟨ops, [], rfl, List.not_mem_nil⟩
    | ended =>
      cases hbefore : ((ofTimeout timeout).run ops).gate.phase <;>
        simp [happen, Gate.ended, hbefore] at hrunning
    | await => exact stays hrunning (by simp)
    | advance ms => exact stays hrunning (by simp)

/-! ## Changes that nobody looked at -/

/-- Whether nobody comes to the gate, neither a reader nor the compiler. -/
def Op.passesBy : Op → Bool
  | .change | .advance _ => true
  | .started | .ended | .await => false

/-- The window that a run leaves open was overlooked: since a change opened it, neither a reader
has come nor has the compiler been heard of. -/
def Overlooked (timeout : Nat) (ops : List Op) : Prop :=
  ∃ before since, ops = before ++ .change :: since ∧
    ((ofTimeout timeout).run before).gate.phase = .idle ∧ ∀ op ∈ since, op.passesBy = true

/-- Every start of the compiler was followed by an end. -/
def Answered (ops : List Op) : Prop := ∀ since, .started :: since <:+ ops → .ended ∈ since

/-- Every change is at least `time` ago. -/
def ChangesPast (time : Nat) (ops : List Op) : Prop :=
  ∀ since, .change :: since <:+ ops → time ≤ elapsed since

theorem Settled.unwatched_run {r : Room} {t : Ticket} (h : Settled r)
    (hphase : r.gate.phase = .changePending t) (hnobody : .onChange t ∉ r.waiters) {ops : List Op}
    (hops : ∀ op ∈ ops, op.passesBy = true) : (r.run ops).gate.phase = .changePending t := by
  induction ops generalizing r with
  | nil => exact hphase
  | cons op ops ih =>
    have hpasses := hops op List.mem_cons_self
    have hunwatched : ∀ w ∈ r.waiters, w ≠ .arriving ∧ w ≠ .onChange t := by
      intro w hw
      refine ⟨h.not_arriving hw, ?_⟩
      rintro rfl
      exact hnobody hw
    have hstep : (r.step op).gate.phase = .changePending t ∧ .onChange t ∉ (r.step op).waiters := by
      cases op with
      | change => exact h.unwatched_step .change (by simp [happen, Gate.change, hphase]) hunwatched
      | advance ms => exact h.unwatched_step (.advance ms) hphase hunwatched
      | started => cases hpasses
      | ended => cases hpasses
      | await => cases hpasses
    exact ih (h.step op) hstep.1 hstep.2 fun op hop => hops op (List.mem_cons_of_mem _ hop)

/-- A window that nobody looks at stays open, with its own deadline. -/
theorem pending_of_unwatched (timeout : Nat) {before since : List Op}
    (hidle : ((ofTimeout timeout).run before).gate.phase = .idle)
    (hsince : ∀ op ∈ since, op.passesBy = true) :
    let r := (ofTimeout timeout).run (before ++ .change :: since)
    ∃ t, r.gate.phase = .changePending t ∧
      r.deadlines[t]? = some (((ofTimeout timeout).run before).now + timeout) := by
  intro r
  have h : Settled ((ofTimeout timeout).run before) := (ofTimeout_settled timeout).run before
  obtain ⟨hopen, hnobody, hdeadline⟩ := h.opens_step hidle
  have hr : r = (((ofTimeout timeout).run before).step .change).run since := run_append ..
  rw [timeout_run_ofTimeout] at hdeadline
  refine ⟨_, hr ▸ (h.step .change).unwatched_run hopen hnobody hsince, ?_⟩
  rw [hr, (h.step .change).deadlines_run,
    List.getElem?_append_left (List.getElem?_eq_some_iff.mp hdeadline).1, hdeadline]

/-- Once the time of all changes is over and the compiler is done, the gate is idle, unless a
window was overlooked. -/
theorem idle_of_not_overlooked {timeout : Nat} {ops : List Op} (hanswered : Answered ops)
    (hpast : ChangesPast timeout ops) (hnot : ¬Overlooked timeout ops) :
    ((ofTimeout timeout).run ops).gate.phase = .idle := by
  have h : Settled ((ofTimeout timeout).run ops) := (ofTimeout_settled timeout).run ops
  cases hphase : ((ofTimeout timeout).run ops).gate.phase with
  | idle => rfl
  | compilerRunning t =>
    obtain ⟨before, since, rfl, hended⟩ := started_of_running timeout ops hphase
    exact absurd (hanswered since (List.suffix_append ..)) hended
  | changePending t =>
    obtain ⟨before, since, hwindow⟩ := exists_window timeout ops hphase
    obtain rfl := hwindow.ops_eq
    refine absurd ⟨before, since, rfl, hwindow.idle, ?_⟩ hnot
    intro op hop
    cases op with
    | change => rfl
    | advance ms => rfl
    | started => cases hwindow.quiet _ hop
    | ended => cases hwindow.quiet _ hop
    | await =>
      -- Whoever came still waits, and so for a deadline that is ahead.
      obtain ⟨i, hi⟩ := List.getElem?_of_mem (hwindow.watched hop)
      have hlt := h.now_lt hi hwindow.deadline
      have hlong := hpast since (List.suffix_append ..)
      rw [now_run, now_run, elapsed_append, elapsed, Op.ms] at hlt
      omega

/-! ## Readers of a fresh change -/

theorem Settled.pending_quiet_run {r : Room} {t : Ticket} {d : Nat} (h : Settled r)
    (hphase : r.gate.phase = .changePending t) (hd : r.deadlines[t]? = some d) {ops : List Op}
    (hquiet : ∀ op ∈ ops, op.isCompiler = false) (hnow : r.now + elapsed ops < d) :
    (r.run ops).gate.phase = .changePending t ∧ (r.run ops).deadlines[t]? = some d := by
  induction ops generalizing r with
  | nil => exact ⟨hphase, hd⟩
  | cons op ops ih =>
    have hop := hquiet op List.mem_cons_self
    rw [← now_add_elapsed] at hnow
    have hstep : (r.step op).gate.phase = .changePending t := by
      refine h.pending_step hphase hd op ?_ ?_ ?_
      · rintro rfl; cases hop
      · rintro rfl; cases hop
      · rw [← now_step]
        exact Nat.lt_of_le_of_lt (Nat.le_add_right _ _) hnow
    exact ih (h.step op) hstep (h.deadline_step hd op)
      (fun op hop => hquiet op (List.mem_cons_of_mem _ hop)) hnow

/-- Until the compiler is heard of, a reader of a pending change goes by the deadline or not at all. -/
theorem letGo_append {deadline now : Nat} {quiet : List Op}
    (hquiet : ∀ op ∈ quiet, op.isCompiler = false) (hnow : now < deadline) (rest : List Op) :
    LetGo deadline now (quiet ++ rest) ↔
      deadline ≤ now + elapsed quiet ∨ LetGo deadline (now + elapsed quiet) rest := by
  induction quiet generalizing now with
  | nil =>
    rw [List.nil_append, elapsed, Nat.add_zero, or_iff_right (Nat.not_le_of_lt hnow)]
  | cons op quiet ih =>
    have hop := hquiet op List.mem_cons_self
    have hlater := fun op hop => hquiet op (List.mem_cons_of_mem _ hop)
    rw [List.cons_append, elapsed, ← Nat.add_assoc]
    cases op with
    | started => cases hop
    | ended => cases hop
    | change => exact ih hlater hnow
    | await => exact ih hlater hnow
    | advance ms =>
      rw [LetGo, Op.ms]
      by_cases hover : deadline ≤ now + ms
      · exact iff_of_true (.inl hover) (.inl (Nat.le_trans hover (Nat.le_add_right _ _)))
      · rw [or_iff_right hover, ih hlater (Nat.lt_of_not_le hover)]

theorem not_letGo {d now : Nat} {ops : List Op} (hquiet : ∀ op ∈ ops, op.isCompiler = false)
    (hnow : now + elapsed ops < d) : ¬LetGo d now ops := by
  have hsplit := letGo_append hquiet (Nat.lt_of_le_of_lt (Nat.le_add_right _ _) hnow) []
  rw [List.append_nil] at hsplit
  rw [hsplit, LetGo, or_false]
  exact Nat.not_le_of_lt hnow

/-- Whether a change holds its readers for its own time. It comes after the events `ops`, when every
earlier change is at least `timeout` ago and the compiler is done with all that it started, and the
compiler is not heard of from then on. After `meanwhile` a reader comes.

If no earlier window was overlooked, the reader is not let go before `timeout` has passed since the
change. If one was, the reader that comes next is let go at once. -/
theorem fresh_change_holds_readers_iff (timeout : Nat) (ops : List Op) (hanswered : Answered ops)
    (hpast : ChangesPast timeout ops) :
    let changed := ((ofTimeout timeout).run ops).step .change
    (¬Overlooked timeout ops → ∀ meanwhile after,
      (∀ op ∈ meanwhile ++ after, op.isCompiler = false) →
      elapsed meanwhile + elapsed after < timeout →
      (changed.run meanwhile).waiters.length ∉
        (((changed.run meanwhile).step .await).run after).released) ∧
    (Overlooked timeout ops → ∀ meanwhile, (∀ op ∈ meanwhile, op.passesBy = true) →
      (changed.run meanwhile).waiters.length ∈ ((changed.run meanwhile).step .await).released) := by
  intro changed
  have h : Settled ((ofTimeout timeout).run ops) := (ofTimeout_settled timeout).run ops
  refine ⟨?holds, ?overlooked⟩
  case holds =>
    intro hnot meanwhile after hquiet htime
    obtain ⟨hopen, -, hdeadline⟩ := h.opens_step (idle_of_not_overlooked hanswered hpast hnot)
    rw [timeout_run_ofTimeout] at hdeadline
    have hnow : changed.now = ((ofTimeout timeout).run ops).now := now_step ..
    have hchanged : Settled changed := h.step .change
    have hsettled : Settled (changed.run meanwhile) := hchanged.run meanwhile
    obtain ⟨hphase, hd⟩ := hchanged.pending_quiet_run hopen hdeadline
      (fun op hop => hquiet op (List.mem_append_left _ hop)) (by omega)
    have hahead : (changed.run meanwhile).now + elapsed after <
        ((ofTimeout timeout).run ops).now + timeout := by
      rw [now_run]
      omega
    have hcame := hsettled.await_pending hphase hd
    rw [if_neg (by omega)] at hcame
    have hkept := hsettled.pending_step hphase hd .await (by simp) (by simp)
      (by rw [Op.ms]; omega)
    rw [(hsettled.step .await).pending_run hcame (hsettled.deadline_step hd .await) hkept, now_step,
      Op.ms, Nat.add_zero]
    exact not_letGo (fun op hop => hquiet op (List.mem_append_right _ hop)) hahead
  case overlooked =>
    rintro ⟨before, since, rfl, hidle, hsince⟩ meanwhile hmeanwhile
    -- The change and what follows it pass the open window by.
    have hpasses : ∀ op ∈ since ++ .change :: meanwhile, op.passesBy = true := by
      intro op hop
      rcases List.mem_append.mp hop with hold | hnew
      · exact hsince op hold
      · rcases List.mem_cons.mp hnew with rfl | hlater
        · rfl
        · exact hmeanwhile op hlater
    obtain ⟨t, hphase, hd⟩ := pending_of_unwatched timeout hidle hpasses
    have hsame : (ofTimeout timeout).run (before ++ .change :: (since ++ .change :: meanwhile)) =
        changed.run meanwhile := by
      rw [← List.cons_append, ← List.append_assoc, run_append]
      rfl
    rw [hsame] at hphase hd
    have hover : ((ofTimeout timeout).run before).now + timeout ≤ (changed.run meanwhile).now := by
      have hlong := hpast since (List.suffix_append ..)
      rw [← hsame, now_run, now_run, elapsed_append, elapsed, elapsed_append]
      omega
    have hcame := ((h.step .change).run meanwhile).await_pending hphase hd
    rw [if_pos hover] at hcame
    exact mem_released_iff.mpr hcame

/-- A change, a reader that waits in vain for the compiler, and another change long after: it holds
its own reader for as long. -/
theorem fresh_change_holds_reader_after_timeout :
    Answered [.change, .await, .advance 1000] ∧ ChangesPast 1000 [.change, .await, .advance 1000] ∧
    ¬Overlooked 1000 [.change, .await, .advance 1000] ∧
    1 ∉ ((ofTimeout 1000).run
      [.change, .await, .advance 1000, .change, .advance 400, .await, .advance 599]).released := by
  have hanswered : Answered [.change, .await, .advance 1000] := by
    simp [Answered, List.suffix_cons_iff]
  have hpast : ChangesPast 1000 [.change, .await, .advance 1000] := by
    simp [ChangesPast, List.suffix_cons_iff, elapsed, Op.ms]
  have hnot : ¬Overlooked 1000 [.change, .await, .advance 1000] := by
    rintro ⟨before, since, hops, -, hsince⟩
    simp [List.cons_eq_append_iff] at hops
    obtain ⟨-, rfl⟩ := hops
    simp [Op.passesBy] at hsince
  refine ⟨hanswered, hpast, hnot, ?_⟩
  exact (fresh_change_holds_readers_iff 1000 _ hanswered hpast).1 hnot [.advance 400] [.advance 599]
    (by simp [Op.isCompiler]) (by simp [elapsed, Op.ms])

/-- A change that nobody looks at, and another long after its time: whoever comes for the second is
let go at once. -/
theorem overlooked_change_lets_reader_go :
    Answered [.change, .advance 2000] ∧ ChangesPast 1000 [.change, .advance 2000] ∧
    ((ofTimeout 1000).run [.change, .advance 2000, .change, .await]).now = 2000 ∧
    0 ∈ ((ofTimeout 1000).run [.change, .advance 2000, .change, .await]).released := by
  refine ⟨?_, ?_, by decide, by decide⟩
  · simp [Answered, List.suffix_cons_iff]
  · simp [ChangesPast, List.suffix_cons_iff, elapsed, Op.ms]

end Room

end BuildRelay
