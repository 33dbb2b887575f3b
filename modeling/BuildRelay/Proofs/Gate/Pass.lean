/-
BuildRelay.Proofs.Gate.Pass — readers while the compiler works.

The start of a pass closes the gate if the gate holds a change: whoever comes later, and whoever
waits for that change, is held back until the end of the pass. It says nothing to a gate that holds
no change.

* `Settled.settle_eq` — readers who look again find nothing new.
* `TakenUp` — what the compiler works on is a change that it took up.
* `Settled.heldBack_step`, `Settled.not_released_run` — nobody gets past a compiler that works.
* `Settled.released_after_started` — who can be let go between the start of a pass and its end.
* `Settled.waitWithin_iff` — to wait within a budget is to come, and to let the clock run.
-/
import BuildRelay.Proofs.Gate.Release

namespace BuildRelay

namespace Room

/-! ## Looking again -/

/-- A reader that has gone as far as it can stays where it is, and notes nothing at the gate. -/
theorem Parked.poll_eq {now : Nat} {g : Gate} (hg : GateSound g) {w : Gate.Waiter}
    (h : Parked now g w) : g.poll now true w = (g, w) := by
  cases w with
  | arriving => exact h.elim
  | released => rfl
  | onChange t =>
    obtain ⟨c, hc, hstarted, hverdict, hlt⟩ := h
    rw [Gate.poll, Gate.pollChange_eq, Gate.verdict?_of_not_started hc hverdict hstarted,
      if_neg (Nat.not_le_of_lt hlt)]
  | onCompiler t =>
    obtain ⟨c, hc, hfinished⟩ := hg.running t h
    simp [Gate.poll, Gate.pollCompiler, hc, hfinished]

theorem pollAll_eq_self {now : Nat} {g : Gate} {ws : List Gate.Waiter}
    (h : ∀ w ∈ ws, g.poll now true w = (g, w)) : pollAll now g ws = (g, ws) := by
  induction ws with
  | nil => rfl
  | cons w rest ih =>
    have hrest := ih fun v hv => h v (List.mem_cons_of_mem w hv)
    simp only [pollAll, h w List.mem_cons_self, hrest]

theorem Settled.settle_eq {r : Room} (h : Settled r) : r.settle = r := by
  rw [settle, pollAll_eq_self fun w hw => (h.waiters w hw).poll_eq h.gate]

/-! ## What the compiler works on -/

/-- The compiler works only on a change that it took up. -/
def TakenUp (g : Gate) : Prop :=
  ∀ t, g.phase = .compilerRunning t → ∃ c, g.changes[t]? = some c ∧ c.started = true

theorem takenUp_ofTimeout (timeout : Nat) : TakenUp (ofTimeout timeout).gate := by
  intro t ht
  cases ht

section Step

variable {r : Room} {i : Nat} {t : Ticket}

theorem Settled.takenUp_happen (h : Settled r) (htaken : TakenUp r.gate) (op : Op) :
    TakenUp (r.happen op).gate := by
  intro t hphase
  cases op with
  | change =>
    simp only [happen, Gate.change] at hphase ⊢
    split at hphase
    · cases hphase
    · exact htaken t hphase
    · exact htaken t hphase
  | started =>
    simp only [happen, Gate.started] at hphase ⊢
    split at hphase
    · rename_i s hpending
      cases hphase
      obtain ⟨-, c, hc, -⟩ := h.gate.pending t hpending
      exact ⟨{ c with started := true }, getElem?_update_self hc _, rfl⟩
    · exact htaken t hphase
    · exact htaken t hphase
  | ended =>
    simp only [happen, Gate.ended] at hphase ⊢
    split at hphase
    · cases hphase
    · cases hphase
    · exact htaken t hphase
  | await => exact htaken t hphase
  | advance ms => exact htaken t hphase

theorem TakenUp.looked {now : Nat} {g g' : Gate} (h : TakenUp g)
    (hlooked : Gate.Looked now g g') : TakenUp g' := by
  intro t hphase'
  obtain ⟨c, hc, hstarted⟩ := h t (hlooked.running_of_running hphase')
  rcases hlooked.change t with hsame | ⟨c', inTime, hc', -, htold, -⟩
  · exact ⟨c, by rw [hsame, hc], hstarted⟩
  · rw [hc] at hc'
    cases hc'
    exact ⟨_, htold, hstarted⟩

theorem Settled.takenUp_step (h : Settled r) (htaken : TakenUp r.gate) (op : Op) :
    TakenUp (r.step op).gate :=
  (h.takenUp_happen htaken op).looked (h.looked op).1

theorem Settled.takenUp_run (h : Settled r) (htaken : TakenUp r.gate) (ops : List Op) :
    TakenUp (r.run ops).gate := by
  induction ops generalizing r with
  | nil => exact htaken
  | cons op ops ih => exact ih (h.step op) (h.takenUp_step htaken op)

/-! ## While the compiler works -/

/-- A compiler that starts works on the change that the gate holds. -/
theorem Settled.phase_step_started (h : Settled r) (hheld : r.gate.phase.ticket? = some t) :
    (r.step .started).gate.phase = .compilerRunning t := by
  refine phase_of_running (h.looked .started).1 ?_
  cases hphase : r.gate.phase with
  | idle => simp [hphase, Gate.Phase.ticket?] at hheld
  | changePending s =>
    rw [hphase] at hheld
    cases hheld
    simp [happen, Gate.started, hphase]
  | compilerRunning s =>
    rw [hphase] at hheld
    cases hheld
    simp [happen, Gate.started, hphase]

/-- Nothing but the end of its pass keeps the compiler from working. -/
theorem Settled.running_step (h : Settled r) (hphase : r.gate.phase = .compilerRunning t) {op : Op}
    (hop : op ≠ .ended) : (r.step op).gate.phase = .compilerRunning t := by
  refine phase_of_running (h.looked op).1 ?_
  cases op with
  | change => simp [happen, Gate.change, hphase]
  | started => simp [happen, Gate.started, hphase]
  | ended => exact absurd rfl hop
  | await => exact hphase
  | advance ms => exact hphase

theorem Settled.running_run (h : Settled r) (hphase : r.gate.phase = .compilerRunning t)
    {ops : List Op} (hops : .ended ∉ ops) : (r.run ops).gate.phase = .compilerRunning t := by
  induction ops generalizing r with
  | nil => exact hphase
  | cons op ops ih =>
    obtain ⟨hop, hrest⟩ := List.ne_and_not_mem_of_not_mem_cons hops
    exact ih (h.step op) (h.running_step hphase (Ne.symm hop)) hrest

/-- A reader that has not come, or waits for the compiler. -/
def HeldBack (r : Room) (i : Nat) (t : Ticket) : Prop :=
  ∀ w, r.waiters[i]? = some w → w = .onCompiler t

/-- Nobody comes but by asking. -/
theorem Settled.no_waiter_step (h : Settled r) (hi : r.waiters[i]? = none) (op : Op)
    (hop : op = .await → i ≠ r.waiters.length) : (r.step op).waiters[i]? = none := by
  have hnone : (r.happen op).waiters[i]? = none := by
    cases op with
    | await =>
      have hlength := List.getElem?_eq_none_iff.mp hi
      have hne := hop rfl
      rw [happen, List.getElem?_eq_none_iff, List.length_append, List.length_singleton]
      omega
    | change => exact hi
    | started => exact hi
    | ended => exact hi
    | advance ms => exact hi
  rw [(h.looked op).2, List.getElem?_map, hnone]
  rfl

/-- Before the end of its pass nobody gets past the compiler. -/
theorem Settled.heldBack_step (h : Settled r) (hphase : r.gate.phase = .compilerRunning t) {op : Op}
    (hop : op ≠ .ended) (hi : HeldBack r i t) : HeldBack (r.step op) i t := by
  intro w hw
  cases hcame : r.waiters[i]? with
  | some v =>
    rw [hi v hcame] at hcame
    rw [h.onCompiler_step hcame op, if_neg hop] at hw
    exact (Option.some.inj hw).symm
  | none =>
    by_cases hcomes : op = .await ∧ i = r.waiters.length
    · obtain ⟨rfl, rfl⟩ := hcomes
      rw [h.await_running hphase] at hw
      exact (Option.some.inj hw).symm
    · rw [h.no_waiter_step hcame op fun heq hlast => hcomes ⟨heq, hlast⟩] at hw
      cases hw

theorem Settled.not_released_run (h : Settled r) (hphase : r.gate.phase = .compilerRunning t)
    (hi : HeldBack r i t) {ops : List Op} (hops : .ended ∉ ops) : i ∉ (r.run ops).released := by
  induction ops generalizing r with
  | nil =>
    intro hreleased
    cases hi _ (mem_released_iff.mp hreleased)
  | cons op ops ih =>
    obtain ⟨hop, hrest⟩ := List.ne_and_not_mem_of_not_mem_cons hops
    exact ih (h.step op) (h.running_step hphase (Ne.symm hop))
      (h.heldBack_step hphase (Ne.symm hop) hi) hrest

/-- Between the start of a pass that finds a change and its end, nobody is let go but readers of
other changes, which the gate had dropped before. -/
theorem Settled.released_after_started (h : Settled r) (htaken : TakenUp r.gate)
    (hheld : r.gate.phase.ticket? = some t) {ops : List Op} (hops : .ended ∉ ops)
    (hi : i ∈ ((r.step .started).run ops).released) :
    i ∈ r.released ∨ ∃ s, s ≠ t ∧ r.waiters[i]? = some (.onChange s) := by
  have hphase := h.phase_step_started hheld
  have free : ¬HeldBack (r.step .started) i t := fun hback =>
    (h.step .started).not_released_run hphase hback hops hi
  cases hcame : r.waiters[i]? with
  | none =>
    refine absurd ?_ free
    intro w hw
    rw [h.no_waiter_step hcame .started (by simp)] at hw
    cases hw
  | some w =>
    cases w with
    | arriving => exact (h.parked hcame).elim
    | released => exact .inl (mem_released_iff.mpr hcame)
    | onCompiler s =>
      have hrunning : r.gate.phase = .compilerRunning s := h.parked hcame
      rw [hrunning] at hheld
      cases hheld
      refine absurd ?_ free
      intro w hw
      rw [h.onCompiler_step hcame .started] at hw
      exact (Option.some.inj hw).symm
    | onChange s =>
      by_cases hs : s = t
      · subst hs
        cases hbefore : r.gate.phase with
        | idle => rw [hbefore] at hheld; cases hheld
        | changePending u =>
          rw [hbefore] at hheld
          cases hheld
          refine absurd ?_ free
          intro w hw
          rw [h.onChange_step_started hcame hbefore] at hw
          exact (Option.some.inj hw).symm
        | compilerRunning u =>
          -- Its readers were handed over when the compiler took the change up.
          rw [hbefore] at hheld
          cases hheld
          obtain ⟨c, hc, hstarted⟩ := htaken s hbefore
          obtain ⟨c', hc', hnot, -⟩ := h.parked hcame
          rw [hc] at hc'
          cases hc'
          rw [hstarted] at hnot
          cases hnot
      · exact .inr ⟨s, hs, rfl⟩

/-- A pass that finds no change is not noticed. -/
theorem Settled.step_started_idle (h : Settled r) (hphase : r.gate.phase = .idle) :
    r.step .started = r := by
  have hsame : r.happen .started = r := by
    simp [happen, Gate.started, hphase]
  rw [Room.step, hsame, h.settle_eq]

/-! ## Waiting within a budget -/

/-- A reader that would wait for at most a budget goes on exactly if one that comes and waits is let
go by then. -/
theorem Settled.waitWithin_iff (h : Settled r) (budget : Nat) : (r.waitWithin budget).1 = true ↔
    r.waiters.length ∈ ((r.step .await).step (.advance budget)).released := by
  rw [mem_released_iff]
  cases hphase : r.gate.phase with
  | idle =>
    rw [(h.step .await).released_step (h.await_idle hphase)]
    simp [waitWithin, Gate.poll, hphase, Gate.Phase.pending?, Gate.awaitCompiler,
      Gate.Phase.ticket?]
  | compilerRunning t =>
    obtain ⟨c, hc, hfinished⟩ := h.gate.running t hphase
    rw [(h.step .await).onCompiler_step (h.await_running hphase)]
    simp [waitWithin, Gate.poll, hphase, Gate.Phase.pending?, Gate.pollCompiler, h.settle_eq, hc,
      Gate.awaitCompiler_of_running hphase hc hfinished, hfinished]
  | changePending t =>
    obtain ⟨-, c, hc, hstarted, hverdict, -⟩ := h.gate.pending t hphase
    have hd : r.deadlines[t]? = some c.deadline := by
      rw [deadlines, List.getElem?_map, hc]
      rfl
    have hlook : ∀ now, r.gate.pollChange now true t =
        if c.deadline ≤ now then (r.gate.tell t false, .released) else (r.gate, .onChange t) := by
      intro now
      rw [Gate.pollChange_eq, Gate.verdict?_of_not_started hc hverdict hstarted]
      by_cases hover : c.deadline ≤ now <;> simp [hover]
    have hcame := h.await_pending hphase hd
    by_cases hover : c.deadline ≤ r.now
    · rw [if_pos hover] at hcame
      rw [(h.step .await).released_step hcame]
      simp [waitWithin, Gate.poll, hphase, Gate.Phase.pending?, hlook, hover]
    · rw [if_neg hover] at hcame
      rw [(h.step .await).onChange_step hcame (h.deadline_step hd .await) (.advance budget)
        (by simp), now_step, Op.ms, Op.ms, Nat.add_zero]
      by_cases hlater : c.deadline ≤ r.now + budget
      · simp [waitWithin, Gate.poll, hphase, Gate.Phase.pending?, hlook, hover, h.settle_eq,
          Gate.wakeTime?, hc, Option.filter, hlater]
      · simp [waitWithin, Gate.poll, hphase, Gate.Phase.pending?, hlook, hover, h.settle_eq,
          Gate.wakeTime?, hc, Option.filter, hlater]

end Step

end Room

end BuildRelay
