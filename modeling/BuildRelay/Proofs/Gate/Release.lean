/-
BuildRelay.Proofs.Gate.Release — the event that lets a reader go.

What becomes of a reader is decided when it comes, by the change that the gate holds at that
instant. A reader on a pending change is handed over to the compiler if the compiler starts in
time, and keeps the deadline of its change otherwise, also when the change is dropped or a newer
one has taken its place.

* `Settled.onCompiler_step`, `Settled.onChange_step`, `Settled.onChange_step_started` — what one
  event does to a reader.
* `Settled.onCompiler_run`, `Settled.dropped_run`, `Settled.pending_run` — when a run lets it go.
* `run_released_iff` — the release of every reader of every run.
-/
import BuildRelay.Proofs.Gate.Handles

namespace BuildRelay

namespace Room

/-! ## Time -/

/-- How much time an event takes. -/
def Op.ms : Op → Nat
  | .advance ms => ms
  | .change | .started | .ended | .await => 0

/-- How much time events take together. -/
def elapsed : List Op → Nat
  | [] => 0
  | op :: ops => op.ms + elapsed ops

theorem now_happen (r : Room) (op : Op) : (r.happen op).now = r.now + op.ms := by
  cases op <;> rfl

theorem now_step (r : Room) (op : Op) : (r.step op).now = r.now + op.ms :=
  now_happen r op

theorem now_add_elapsed (r : Room) (op : Op) (ops : List Op) :
    (r.step op).now + elapsed ops = r.now + elapsed (op :: ops) := by
  rw [now_step, elapsed, Nat.add_assoc]

theorem deadline_eq {r : Room} {t : Ticket} {c : Change} {d : Nat}
    (hc : r.gate.changes[t]? = some c) (hd : r.deadlines[t]? = some d) : c.deadline = d := by
  rw [deadlines, List.getElem?_map, hc] at hd
  exact Option.some.inj hd

theorem mem_released_iff {r : Room} {i : Nat} :
    i ∈ r.released ↔ r.waiters[i]? = some .released := by
  rw [released, List.mem_filter, List.mem_range, decide_eq_true_eq]
  exact and_iff_right_of_imp fun hi => (List.getElem?_eq_some_iff.mp hi).1

/-! ## One event -/

namespace Settled

variable {r : Room} {i : Nat} {t : Ticket} {d : Nat}

theorem released_step (h : Settled r) (hw : r.waiters[i]? = some .released) (op : Op) :
    (r.step op).waiters[i]? = some .released :=
  h.waiter_step op hw

theorem deadline_step (h : Settled r) (hd : r.deadlines[t]? = some d) (op : Op) :
    (r.step op).deadlines[t]? = some d := by
  rw [h.deadlines_step, List.getElem?_append_left (List.getElem?_eq_some_iff.mp hd).1, hd]

theorem parked (h : Settled r) {w : Gate.Waiter} (hw : r.waiters[i]? = some w) :
    Parked r.now r.gate w :=
  h.waiters w (List.mem_of_getElem? hw)

/-- A reader on a change has its deadline ahead. -/
theorem now_lt (h : Settled r) (hw : r.waiters[i]? = some (.onChange t))
    (hd : r.deadlines[t]? = some d) : r.now < d := by
  obtain ⟨c, hc, -, -, hlt⟩ := h.parked hw
  rw [← deadline_eq hc hd]
  exact hlt

/-- Only the end of a pass lets a reader on the compiler go. -/
theorem onCompiler_step (h : Settled r) (hw : r.waiters[i]? = some (.onCompiler t)) (op : Op) :
    (r.step op).waiters[i]? = some (if op = .ended then .released else .onCompiler t) := by
  have hphase : r.gate.phase = .compilerRunning t := h.parked hw
  obtain ⟨c, hc, hfinished⟩ := h.gate.running t hphase
  rw [h.waiter_step op hw]
  cases op with
  | change => simp [happen, Gate.change, hphase, Gate.poll, Gate.pollCompiler, hc, hfinished]
  | started => simp [happen, Gate.started, hphase, Gate.poll, Gate.pollCompiler, hc, hfinished]
  | ended => simp [happen, Gate.ended, hphase, Gate.poll, Gate.pollCompiler, Gate.update, hc]
  | await => simp [happen, Gate.poll, Gate.pollCompiler, hc, hfinished]
  | advance ms => simp [happen, Gate.poll, Gate.pollCompiler, hc, hfinished]

end Settled

/-- Only the compiler's start, while a change is pending, takes the change up. -/
theorem changes_happen {r : Room} {t : Ticket} {c : Change}
    (hc : r.gate.changes[t]? = some c) (op : Op)
    (hop : op = .started → r.gate.phase ≠ .changePending t) :
    ∃ c', (r.happen op).gate.changes[t]? = some c' ∧ c'.started = c.started ∧
      c'.verdict = c.verdict ∧ c'.deadline = c.deadline := by
  have update : ∀ (s : Ticket) (f : Change → Change), (s = t → f c = { c with finished := true }) →
      ∃ c', (r.gate.update s f).changes[t]? = some c' ∧ c'.started = c.started ∧
        c'.verdict = c.verdict ∧ c'.deadline = c.deadline := by
    intro s f hf
    by_cases hs : s = t
    · subst hs
      exact ⟨f c, getElem?_update_self hc f, by rw [hf rfl], by rw [hf rfl], by rw [hf rfl]⟩
    · exact ⟨c, getElem?_update_of_ne hc hs f, rfl, rfl, rfl⟩
  cases op with
  | change =>
    simp only [happen, Gate.change]
    split
    · exact ⟨c, by rw [List.getElem?_append_left (List.getElem?_eq_some_iff.mp hc).1, hc],
        rfl, rfl, rfl⟩
    · exact ⟨c, hc, rfl, rfl, rfl⟩
    · exact ⟨c, hc, rfl, rfl, rfl⟩
  | started =>
    simp only [happen, Gate.started]
    split
    · rename_i s hphase
      refine update s _ fun hs => ?_
      rw [hs] at hphase
      exact absurd hphase (hop rfl)
    · exact ⟨c, hc, rfl, rfl, rfl⟩
    · exact ⟨c, hc, rfl, rfl, rfl⟩
  | ended =>
    simp only [happen, Gate.ended]
    split
    · exact update _ _ fun _ => rfl
    · exact update _ _ fun _ => rfl
    · exact ⟨c, hc, rfl, rfl, rfl⟩
  | await => exact ⟨c, hc, rfl, rfl, rfl⟩
  | advance ms => exact ⟨c, hc, rfl, rfl, rfl⟩

namespace Settled

variable {r : Room} {i : Nat} {t : Ticket} {d : Nat}

/-- Unless the compiler takes its change up, a reader on a change waits for its deadline. -/
theorem onChange_step (h : Settled r) (hw : r.waiters[i]? = some (.onChange t))
    (hd : r.deadlines[t]? = some d) (op : Op)
    (hop : op = .started → r.gate.phase ≠ .changePending t) :
    (r.step op).waiters[i]? = some (if d ≤ r.now + op.ms then .released else .onChange t) := by
  obtain ⟨c, hc, hstarted, hverdict, -⟩ := h.parked hw
  obtain ⟨c', hc', hstarted', hverdict', hdeadline'⟩ := changes_happen hc op hop
  rw [h.waiter_step op hw, Gate.poll, Gate.pollChange_eq,
    Gate.verdict?_of_not_started hc' (hverdict'.trans hverdict) (hstarted'.trans hstarted),
    hdeadline'.trans (deadline_eq hc hd), now_happen]
  by_cases hover : d ≤ r.now + op.ms <;> simp [hover]

/-- A compiler that starts in time hands the readers of the pending change over to its end. -/
theorem onChange_step_started (h : Settled r) (hw : r.waiters[i]? = some (.onChange t))
    (hphase : r.gate.phase = .changePending t) :
    (r.step .started).waiters[i]? = some (.onCompiler t) := by
  obtain ⟨-, c, hc, -, hverdict, hfinished⟩ := h.gate.pending t hphase
  have hphase' : (r.happen .started).gate.phase = .compilerRunning t := by
    simp [happen, Gate.started, hphase]
  have hc' : (r.happen .started).gate.changes[t]? = some { c with started := true } := by
    simp [happen, Gate.started, hphase, Gate.update, hc]
  rw [h.waiter_step .started hw, Gate.poll, Gate.pollChange_eq,
    Gate.verdict?_of_started hc' hverdict rfl]
  simp [Gate.awaitCompiler_of_running hphase' hc' hfinished]

/-- Before its deadline a pending change stays pending, whatever other readers do. -/
theorem pending_step (h : Settled r) (hphase : r.gate.phase = .changePending t)
    (hd : r.deadlines[t]? = some d) (op : Op) (hstarted : op ≠ .started) (hended : op ≠ .ended)
    (hnow : r.now + op.ms < d) : (r.step op).gate.phase = .changePending t := by
  have hkept : (r.happen op).gate.phase = .changePending t := by
    cases op with
    | change => simp [happen, Gate.change, hphase]
    | started => exact absurd rfl hstarted
    | ended => exact absurd rfl hended
    | await => exact hphase
    | advance ms => exact hphase
  rcases (h.looked op).1.phase with hsame | ⟨s, hpending, hover, -⟩
  · rw [hsame, hkept]
  · -- It would have been dropped for being over.
    rw [hkept] at hpending
    cases hpending
    obtain ⟨-, c, hc, hnot, hverdict, -⟩ := h.gate.pending t hphase
    obtain ⟨c', hc', hnot', hverdict', hdeadline'⟩ :=
      changes_happen hc op fun heq => absurd heq hstarted
    rw [Gate.verdict?_of_not_started hc' (hverdict'.trans hverdict) (hnot'.trans hnot),
      hdeadline'.trans (deadline_eq hc hd), now_happen, if_neg (Nat.not_le_of_lt hnow)] at hover
    cases hover

/-- A change that is not pending any more never is again. -/
theorem not_pending_step (h : Settled r) (hphase : r.gate.phase ≠ .changePending t)
    (hd : r.deadlines[t]? = some d) (op : Op) : (r.step op).gate.phase ≠ .changePending t := by
  intro hafter
  have hpending := (h.looked op).1.pending_of_pending hafter
  cases op with
  | change =>
    simp only [happen, Gate.change] at hpending
    split at hpending
    · -- A new window has a ticket of its own.
      cases hpending
      have hlt := (List.getElem?_eq_some_iff.mp hd).1
      rw [deadlines, List.length_map] at hlt
      omega
    · exact hphase hpending
    · exact hphase hpending
  | started =>
    simp only [happen, Gate.started] at hpending
    split at hpending
    · cases hpending
    · exact hphase hpending
    · exact hphase hpending
  | ended =>
    simp only [happen, Gate.ended] at hpending
    split at hpending
    · cases hpending
    · cases hpending
    · exact hphase hpending
  | await => exact hphase hpending
  | advance ms => exact hphase hpending

end Settled

/-! ## Runs -/

/-- When events let a reader of a pending change go: once the compiler has started in time, its
next end does; else the deadline does, also after the change was dropped. -/
def LetGo (deadline now : Nat) : List Op → Prop
  | [] => False
  | .advance ms :: ops => deadline ≤ now + ms ∨ LetGo deadline (now + ms) ops
  | .started :: ops => .ended ∈ ops
  | .ended :: ops => deadline ≤ now + elapsed ops
  | .change :: ops | .await :: ops => LetGo deadline now ops

namespace Settled

variable {r : Room} {i : Nat} {t : Ticket} {d : Nat}

theorem released_run (h : Settled r) (hw : r.waiters[i]? = some .released) (ops : List Op) :
    i ∈ (r.run ops).released := by
  induction ops generalizing r with
  | nil => exact mem_released_iff.mpr hw
  | cons op ops ih => exact ih (h.step op) (h.released_step hw op)

/-- A reader on the compiler goes with the first end of a pass. -/
theorem onCompiler_run (h : Settled r) (hw : r.waiters[i]? = some (.onCompiler t))
    (ops : List Op) : i ∈ (r.run ops).released ↔ .ended ∈ ops := by
  induction ops generalizing r with
  | nil => simp [mem_released_iff, hw]
  | cons op ops ih =>
    have hstep := h.onCompiler_step hw op
    rw [run_cons, List.mem_cons]
    by_cases hop : op = .ended
    · rw [if_pos hop] at hstep
      exact iff_of_true ((h.step op).released_run hstep ops) (.inl hop.symm)
    · rw [if_neg hop] at hstep
      rw [ih (h.step op) hstep, or_iff_right (Ne.symm hop)]

/-- A reader whose change is not the pending one any more goes at its deadline. -/
theorem dropped_run (h : Settled r) (hw : r.waiters[i]? = some (.onChange t))
    (hd : r.deadlines[t]? = some d) (hphase : r.gate.phase ≠ .changePending t) (ops : List Op) :
    i ∈ (r.run ops).released ↔ d ≤ r.now + elapsed ops := by
  induction ops generalizing r with
  | nil =>
    have hlt := h.now_lt hw hd
    simp only [run_nil, mem_released_iff, hw, elapsed]
    exact iff_of_false (by simp) (Nat.not_le_of_lt hlt)
  | cons op ops ih =>
    have hstep := h.onChange_step hw hd op fun _ => hphase
    rw [run_cons, ← now_add_elapsed]
    by_cases hover : d ≤ r.now + op.ms
    · rw [if_pos hover] at hstep
      refine iff_of_true ((h.step op).released_run hstep ops) ?_
      rw [now_step]
      exact Nat.le_trans hover (Nat.le_add_right _ _)
    · rw [if_neg hover] at hstep
      exact ih (h.step op) hstep (h.deadline_step hd op) (h.not_pending_step hphase hd op)

/-- A reader of the pending change. -/
theorem pending_run (h : Settled r) (hw : r.waiters[i]? = some (.onChange t))
    (hd : r.deadlines[t]? = some d) (hphase : r.gate.phase = .changePending t) (ops : List Op) :
    i ∈ (r.run ops).released ↔ LetGo d r.now ops := by
  -- Before the deadline, what does not come from the compiler leaves the reader where it is.
  have stay : ∀ (r : Room) (op : Op), Settled r → r.waiters[i]? = some (.onChange t) →
      r.deadlines[t]? = some d → r.gate.phase = .changePending t → op ≠ .started → op ≠ .ended →
      r.now + op.ms < d → (r.step op).waiters[i]? = some (.onChange t) ∧
        (r.step op).gate.phase = .changePending t := by
    intro r op h hw hd hphase hstarted hended hnow
    refine ⟨?_, h.pending_step hphase hd op hstarted hended hnow⟩
    rw [h.onChange_step hw hd op fun heq => absurd heq hstarted, if_neg (Nat.not_le_of_lt hnow)]
  induction ops generalizing r with
  | nil => simp [mem_released_iff, hw, LetGo]
  | cons op ops ih =>
    have hlt := h.now_lt hw hd
    cases op with
    | change =>
      obtain ⟨hw', hphase'⟩ := stay r .change h hw hd hphase (by simp) (by simp) hlt
      exact ih (h.step _) hw' (h.deadline_step hd _) hphase'
    | await =>
      obtain ⟨hw', hphase'⟩ := stay r .await h hw hd hphase (by simp) (by simp) hlt
      exact ih (h.step _) hw' (h.deadline_step hd _) hphase'
    | advance ms =>
      by_cases hover : d ≤ r.now + ms
      · have hstep := h.onChange_step hw hd (.advance ms) (by simp)
        rw [Op.ms, if_pos hover] at hstep
        exact iff_of_true ((h.step _).released_run hstep ops) (.inl hover)
      · obtain ⟨hw', hphase'⟩ :=
          stay r (.advance ms) h hw hd hphase (by simp) (by simp) (Nat.lt_of_not_le hover)
        have hrest := ih (h.step _) hw' (h.deadline_step hd _) hphase'
        rw [now_step] at hrest
        exact hrest.trans (or_iff_right hover).symm
    | started =>
      rw [run_cons, (h.step _).onCompiler_run (h.onChange_step_started hw hphase), LetGo]
    | ended =>
      have hw' := h.onChange_step hw hd .ended (by simp)
      rw [Op.ms, Nat.add_zero, if_neg (Nat.not_le_of_lt hlt)] at hw'
      have hdropped : (r.step .ended).gate.phase ≠ .changePending t := by
        intro hpending
        have hbefore := (h.looked .ended).1.pending_of_pending hpending
        simp [happen, Gate.ended, hphase] at hbefore
      rw [run_cons, (h.step _).dropped_run hw' (h.deadline_step hd _) hdropped, LetGo, now_step,
        Op.ms, Nat.add_zero]

end Settled

/-! ## Readers that come -/

namespace Settled

variable {r : Room} {t : Ticket} {d : Nat}

/-- A reader that comes to an idle gate does not wait. -/
theorem await_idle (h : Settled r) (hphase : r.gate.phase = .idle) :
    (r.step .await).waiters[r.waiters.length]? = some .released := by
  rw [h.waiter_await]
  simp [Gate.poll, hphase, Gate.Phase.pending?, Gate.awaitCompiler, Gate.Phase.ticket?]

theorem await_running (h : Settled r) (hphase : r.gate.phase = .compilerRunning t) :
    (r.step .await).waiters[r.waiters.length]? = some (.onCompiler t) := by
  obtain ⟨c, hc, hfinished⟩ := h.gate.running t hphase
  rw [h.waiter_await, ← Gate.awaitCompiler_of_running hphase hc hfinished]
  simp [Gate.poll, hphase, Gate.Phase.pending?]

theorem await_pending (h : Settled r) (hphase : r.gate.phase = .changePending t)
    (hd : r.deadlines[t]? = some d) : (r.step .await).waiters[r.waiters.length]? =
      some (if d ≤ r.now then .released else .onChange t) := by
  obtain ⟨-, c, hc, hstarted, hverdict, -⟩ := h.gate.pending t hphase
  rw [h.waiter_await]
  simp only [Gate.poll, hphase, Gate.Phase.pending?]
  rw [Gate.pollChange_eq, Gate.verdict?_of_not_started hc hverdict hstarted, deadline_eq hc hd]
  by_cases hover : d ≤ r.now <;> simp [hover]

end Settled

theorem deadlines_run_ofTimeout (timeout : Nat) (ops : List Op) :
    ((ofTimeout timeout).run ops).deadlines = (openings (ofTimeout timeout) ops).map (· + timeout) :=
  (ofTimeout_settled timeout).deadlines_run ops

/-- The pending change is the one that opened a window last. -/
theorem deadline_of_pending {timeout : Nat} {ops : List Op} {t : Ticket}
    (hphase : ((ofTimeout timeout).run ops).gate.phase = .changePending t) :
    ∃ o, (openings (ofTimeout timeout) ops).getLast? = some o ∧
      ((ofTimeout timeout).run ops).deadlines[t]? = some (o + timeout) := by
  have hlast := (((ofTimeout_settled timeout).run ops).gate.pending t hphase).1
  have hlength : t + 1 = (openings (ofTimeout timeout) ops).length := by
    rw [hlast, ← List.length_map Change.deadline, ← deadlines, deadlines_run_ofTimeout,
      List.length_map]
  have hlt : t < (openings (ofTimeout timeout) ops).length := by
    rw [← hlength]
    exact Nat.lt_succ_self t
  obtain ⟨o, ho⟩ : ∃ o, (openings (ofTimeout timeout) ops)[t]? = some o :=
    ⟨_, List.getElem?_eq_getElem hlt⟩
  refine ⟨o, ?_, ?_⟩
  · rw [List.getLast?_eq_getElem?, ← hlength, Nat.add_sub_cancel, ho]
  · rw [deadlines_run_ofTimeout, List.getElem?_map, ho]
    rfl

/-- When the readers of a gate are let go. A reader comes after any events, `pre`, and any more
follow, `post`. Since it is let go exactly if `post` has come far enough, it goes in the very step
that gets there.

A reader is held neither by an idle gate nor by a change whose time is over. One that comes while
the compiler runs goes with the next end of a pass, one that comes in the window of a change goes by
`LetGo`. Nobody drops a pending change before its deadline. Of the two waits that a gate keeps, the
readers' wait for the compiler to start is held only with the wait for its end, and for the same
change: the same events, by steps that drop each wait by itself, come to waits that are paired and
show this very room. -/
theorem run_released_iff (timeout : Nat) (pre post : List Op) :
    let r := (ofTimeout timeout).run pre
    let after := (r.step .await).run post
    let reader := r.waiters.length
    (r.gate.phase = .idle → reader ∈ after.released) ∧
    (∀ t, r.gate.phase = .compilerRunning t → (reader ∈ after.released ↔ .ended ∈ post)) ∧
    (∀ t, r.gate.phase = .changePending t →
      ∃ o, (openings (ofTimeout timeout) pre).getLast? = some o ∧
        (reader ∈ after.released ↔ o + timeout ≤ r.now ∨ LetGo (o + timeout) r.now post) ∧
        ∀ op, op ≠ .started → op ≠ .ended → (r.step op).now < o + timeout →
          (r.step op).gate.phase = .changePending t) ∧
    (∀ t, r.gate.phase.pending? = some t → r.gate.phase.ticket? = some t) ∧
    let waits := (WaitRoom.ofTimeout timeout).run pre
    (∀ t, waits.gate.caller = some t → waits.gate.compiler = some t) ∧
    waits.gate.toGate = r.gate ∧ waits.now = r.now ∧ waits.waiters = r.waiters := by
  intro r after reader
  have h : Settled r := (ofTimeout_settled timeout).run pre
  have hwaits := WaitRoom.shows_run (WaitRoom.shows_ofTimeout timeout) pre
  refine ⟨?idle, ?running, ?pending, ?held, hwaits.gate.1, hwaits.gate.2, hwaits.now, hwaits.waiters⟩
  case idle =>
    intro hphase
    exact (h.step .await).released_run (h.await_idle hphase) post
  case running =>
    intro t hphase
    exact (h.step .await).onCompiler_run (h.await_running hphase) post
  case pending =>
    intro t hphase
    obtain ⟨o, ho, hd⟩ := deadline_of_pending hphase
    refine ⟨o, ho, ?_, ?_⟩
    · have hw := h.await_pending hphase hd
      by_cases hover : o + timeout ≤ r.now
      · rw [if_pos hover] at hw
        exact iff_of_true ((h.step .await).released_run hw post) (.inl hover)
      · rw [if_neg hover] at hw
        have hkept := h.pending_step hphase hd .await (by simp) (by simp)
          (Nat.lt_of_not_le hover)
        rw [or_iff_right hover]
        exact (h.step .await).pending_run hw (h.deadline_step hd .await) hkept post
    · intro op hstarted hended hnow
      rw [now_step] at hnow
      exact h.pending_step hphase hd op hstarted hended hnow
  case held =>
    intro t ht
    cases hphase : r.gate.phase with
    | idle => rw [hphase] at ht; cases ht
    | changePending s => rw [hphase] at ht; exact ht
    | compilerRunning s => rw [hphase] at ht; cases ht

end Room

end BuildRelay
