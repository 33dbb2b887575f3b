/-
BuildRelay.Proofs.Gate.Settled — rooms in which every reader has gone as far as it can.

After an event every reader looks at the gate. What is left is a settled room: a reader on a change
waits for a deadline ahead, in vain if the gate no longer holds that change, and a reader on the
compiler waits for just the change that the gate holds. `Ready` is what an event leaves of this
before the readers look.

* `run` — a room after events.
* `Settled.ready`, `Ready.poll`, `Settled.run` — every room of every run is settled.
* `Settled.waiter_step` — an event moves each reader by itself.
* `Settled.deadlines_run` — the deadlines are the instants at which changes opened a window, and the
  timeout.
-/
import BuildRelay.Proofs.Gate.Looks

namespace BuildRelay

namespace Room

/-- The room after events, one after the other. -/
def run (r : Room) (ops : List Op) : Room := ops.foldl step r

@[simp] theorem run_nil (r : Room) : r.run [] = r := rfl

@[simp] theorem run_cons (r : Room) (op : Op) (ops : List Op) :
    r.run (op :: ops) = (r.step op).run ops := rfl

/-! ## The invariant -/

/-- What the gate knows of the change that it holds. -/
structure GateSound (g : Gate) : Prop where
  /-- The pending change is the latest, and nobody was told anything about it. -/
  pending : ∀ t, g.phase = .changePending t → t + 1 = g.changes.length ∧
    ∃ c, g.changes[t]? = some c ∧ c.started = false ∧ c.verdict = none ∧ c.finished = false
  /-- The change that the compiler works on is not finished. -/
  running : ∀ t, g.phase = .compilerRunning t →
    ∃ c, g.changes[t]? = some c ∧ c.finished = false

/-- Where a reader stands after an event, before it looks. -/
def Ready (g : Gate) : Gate.Waiter → Prop
  | .arriving | .released => True
  | .onChange t => ∃ c, g.changes[t]? = some c ∧ c.verdict = none ∧
    (c.started = true → g.phase = .compilerRunning t)
  | .onCompiler t => g.phase = .compilerRunning t ∨ ∃ c, g.changes[t]? = some c ∧ c.finished = true

/-- Where a reader stands after it has looked. -/
def Parked (now : Nat) (g : Gate) : Gate.Waiter → Prop
  | .arriving => False
  | .released => True
  | .onChange t => ∃ c, g.changes[t]? = some c ∧ c.started = false ∧ c.verdict = none ∧
    now < c.deadline
  | .onCompiler t => g.phase = .compilerRunning t

/-- Every reader has gone as far as it can. -/
structure Settled (r : Room) : Prop where
  gate : GateSound r.gate
  waiters : ∀ w ∈ r.waiters, Parked r.now r.gate w

theorem ofTimeout_settled (timeout : Nat) : Settled (ofTimeout timeout) := by
  refine ⟨⟨?_, ?_⟩, ?_⟩
  · intro t ht
    cases ht
  · intro t ht
    cases ht
  · intro w hw
    cases hw

/-! ## Before the readers look -/

theorem getElem?_update (g : Gate) (t s : Ticket) (f : Change → Change) :
    (g.update t f).changes[s]? = if t = s then (g.changes[s]?).map f else g.changes[s]? := by
  rw [Gate.update, List.getElem?_modify]
  cases g.changes[s]? <;> by_cases hs : t = s <;> simp [hs]

theorem getElem?_update_self {g : Gate} {t : Ticket} {c : Change} (hc : g.changes[t]? = some c)
    (f : Change → Change) : (g.update t f).changes[t]? = some (f c) := by
  rw [getElem?_update, if_pos rfl, hc]
  rfl

theorem getElem?_update_of_ne {g : Gate} {t s : Ticket} {c : Change}
    (hc : g.changes[t]? = some c) (hs : s ≠ t) (f : Change → Change) :
    (g.update s f).changes[t]? = some c := by
  rw [getElem?_update, if_neg hs, hc]

/-- A reader on a change that the compiler did not take up. -/
theorem ready_of_not_started {g : Gate} {t : Ticket} {c : Change} (hc : g.changes[t]? = some c)
    (hverdict : c.verdict = none) (hstarted : c.started = false) : Ready g (.onChange t) := by
  refine ⟨c, hc, hverdict, fun htrue => ?_⟩
  rw [hstarted] at htrue
  cases htrue

theorem Parked.ready {now : Nat} {g : Gate} {w : Gate.Waiter} (h : Parked now g w) : Ready g w := by
  cases w with
  | arriving => exact trivial
  | released => exact trivial
  | onChange t =>
    obtain ⟨c, hc, hstarted, hverdict, -⟩ := h
    exact ready_of_not_started hc hverdict hstarted
  | onCompiler t => exact .inl h

theorem GateSound.change {g : Gate} (h : GateSound g) (now : Nat) : GateSound (g.change now) := by
  unfold Gate.change
  cases hphase : g.phase with
  | idle =>
    refine ⟨?_, ?_⟩
    · intro t ht
      cases ht
      exact ⟨by simp, ⟨now + g.timeout, false, none, false⟩, by simp, rfl, rfl, rfl⟩
    · intro t ht
      cases ht
  | changePending t => exact h
  | compilerRunning t => exact h

theorem GateSound.started {g : Gate} (h : GateSound g) : GateSound g.started := by
  unfold Gate.started
  cases hphase : g.phase with
  | idle => exact h
  | compilerRunning t => exact h
  | changePending t =>
    obtain ⟨-, c, hc, -, -, hfinished⟩ := h.pending t hphase
    refine ⟨?_, ?_⟩
    · intro s hs
      cases hs
    · intro s hs
      cases hs
      exact ⟨{ c with started := true }, getElem?_update_self hc _, hfinished⟩

theorem GateSound.idle (g : Gate) : GateSound { g with phase := .idle } := by
  refine ⟨?_, ?_⟩
  · intro s hs
    cases hs
  · intro s hs
    cases hs

theorem GateSound.ended {g : Gate} (h : GateSound g) : GateSound g.ended := by
  unfold Gate.ended
  cases hphase : g.phase with
  | idle => exact h
  | changePending t => exact GateSound.idle _
  | compilerRunning t => exact GateSound.idle _

/-- A change that opens no window changes nothing; one that does finds no reader on the compiler. -/
theorem Parked.change {now : Nat} {g : Gate} {w : Gate.Waiter} (h : Parked now g w) :
    Ready (g.change now) w := by
  unfold Gate.change
  cases hphase : g.phase with
  | changePending t => exact h.ready
  | compilerRunning t => exact h.ready
  | idle =>
    cases w with
    | arriving => exact trivial
    | released => exact trivial
    | onChange t =>
      obtain ⟨c, hc, hstarted, hverdict, -⟩ := h
      refine ready_of_not_started ?_ hverdict hstarted
      rw [List.getElem?_append_left (List.getElem?_eq_some_iff.mp hc).1, hc]
    | onCompiler t =>
      rw [Parked, hphase] at h
      cases h

theorem Parked.started {now : Nat} {g : Gate} {w : Gate.Waiter} (h : Parked now g w) :
    Ready g.started w := by
  unfold Gate.started
  cases hphase : g.phase with
  | idle => exact h.ready
  | compilerRunning t => exact h.ready
  | changePending s =>
    cases w with
    | arriving => exact trivial
    | released => exact trivial
    | onChange t =>
      obtain ⟨c, hc, hstarted, hverdict, -⟩ := h
      by_cases hs : s = t
      · subst hs
        exact ⟨{ c with started := true }, getElem?_update_self hc _, hverdict, fun _ => rfl⟩
      · exact ready_of_not_started (getElem?_update_of_ne hc hs _) hverdict hstarted
    | onCompiler t =>
      rw [Parked, hphase] at h
      cases h

/-- The end of a pass finishes the held change, whatever readers it has. -/
theorem Parked.finish {now : Nat} {g : Gate} (hg : GateSound g) {w : Gate.Waiter}
    (h : Parked now g w) {s : Ticket} (hs : g.phase.ticket? = some s) :
    Ready { g.update s fun c => { c with finished := true } with phase := .idle } w := by
  cases w with
  | arriving => exact trivial
  | released => exact trivial
  | onChange t =>
    obtain ⟨c, hc, hstarted, hverdict, -⟩ := h
    by_cases heq : s = t
    · subst heq
      exact ready_of_not_started (getElem?_update_self hc _) hverdict hstarted
    · exact ready_of_not_started (getElem?_update_of_ne hc heq _) hverdict hstarted
  | onCompiler t =>
    obtain ⟨c, hc, -⟩ := hg.running t h
    have heq : s = t := by
      rw [Parked] at h
      rw [h] at hs
      exact (Option.some.inj hs).symm
    subst heq
    exact .inr ⟨{ c with finished := true }, getElem?_update_self hc _, rfl⟩

theorem Parked.ended {now : Nat} {g : Gate} (hg : GateSound g) {w : Gate.Waiter}
    (h : Parked now g w) : Ready g.ended w := by
  unfold Gate.ended
  cases hphase : g.phase with
  | idle => exact h.ready
  | changePending s => exact h.finish hg (by rw [hphase]; rfl)
  | compilerRunning s => exact h.finish hg (by rw [hphase]; rfl)

theorem Settled.gate_happen {r : Room} (h : Settled r) (op : Op) : GateSound (r.happen op).gate := by
  cases op with
  | change => exact h.gate.change r.now
  | started => exact h.gate.started
  | ended => exact h.gate.ended
  | await => exact h.gate
  | advance ms => exact h.gate

theorem Settled.ready {r : Room} (h : Settled r) (op : Op) :
    ∀ w ∈ (r.happen op).waiters, Ready (r.happen op).gate w := by
  cases op with
  | change => exact fun w hw => (h.waiters w hw).change
  | started => exact fun w hw => (h.waiters w hw).started
  | ended => exact fun w hw => (h.waiters w hw).ended h.gate
  | await =>
    intro w hw
    rcases List.mem_append.mp hw with hw | hw
    · exact (h.waiters w hw).ready
    · rw [List.mem_singleton] at hw
      subst hw
      exact trivial
  | advance ms => exact fun w hw => (h.waiters w hw).ready

/-! ## After the readers have looked -/

theorem GateSound.looked {now : Nat} {g g' : Gate} (h : GateSound g)
    (hlooked : Gate.Looked now g g') : GateSound g' := by
  refine ⟨?_, ?_⟩
  · intro t hphase'
    obtain ⟨hlast, c, hc, hstarted, hverdict, hfinished⟩ :=
      h.pending t (hlooked.pending_of_pending hphase')
    refine ⟨?_, c, ?_, hstarted, hverdict, hfinished⟩
    · have hlength := congrArg List.length hlooked.deadlines_eq
      rw [List.length_map, List.length_map] at hlength
      rw [hlength, hlast]
    · -- Whoever is told that the time of a change is over drops it, so nobody was told.
      rcases hlooked.change t with hsame | ⟨c', inTime, -, htold, -, hdropped⟩
      · rw [hsame, hc]
      · rw [Gate.verdict?_of_not_started hc hverdict hstarted] at htold
        split at htold
        · cases htold
          exact absurd hphase' (hdropped rfl)
        · cases htold
  · intro t hphase'
    obtain ⟨c, hc, hfinished⟩ := h.running t (hlooked.running_of_running hphase')
    rcases hlooked.change t with hsame | ⟨c', inTime, hc', -, htold, -⟩
    · exact ⟨c, by rw [hsame, hc], hfinished⟩
    · rw [hc] at hc'
      cases hc'
      exact ⟨_, htold, hfinished⟩

/-- A reader that is told that the compiler started in time leaves no change pending. -/
theorem Ready.pending?_eq_none {now : Nat} {g : Gate} {t : Ticket} (h : Ready g (.onChange t))
    (htold : g.verdict? now true t = some true) : g.phase.pending? = none := by
  obtain ⟨c, hc, hverdict, hphase⟩ := h
  cases hstarted : c.started with
  | true =>
    rw [hphase hstarted]
    rfl
  | false =>
    rw [Gate.verdict?_of_not_started hc hverdict hstarted] at htold
    split at htold <;> cases htold

/-- A change that the compiler did not take up holds its readers until its deadline. -/
theorem parked_of_not_started {now : Nat} {g g' : Gate} (hlooked : Gate.Looked now g g')
    {t : Ticket} {c : Change} (hc : g.changes[t]? = some c) (hverdict : c.verdict = none)
    (hstarted : c.started = false) : Parked now g' (g.pollChange now true t).2 := by
  rw [Gate.pollChange_eq, Gate.verdict?_of_not_started hc hverdict hstarted]
  by_cases hover : c.deadline ≤ now
  · rw [if_pos hover]
    exact trivial
  · rw [if_neg hover]
    refine ⟨c, ?_, hstarted, hverdict, Nat.lt_of_not_le hover⟩
    rcases hlooked.change t with hsame | ⟨c', inTime, -, htold, -, -⟩
    · rw [hsame, hc]
    · rw [Gate.verdict?_of_not_started hc hverdict hstarted, if_neg hover] at htold
      cases htold

theorem phase_of_running {now : Nat} {g g' : Gate} (hlooked : Gate.Looked now g g') {t : Ticket}
    (hphase : g.phase = .compilerRunning t) : g'.phase = .compilerRunning t := by
  rcases hlooked.phase with hsame | ⟨s, hpending, -, -⟩
  · rw [hsame, hphase]
  · rw [hphase] at hpending
    cases hpending

/-- A look takes every reader as far as it can go. -/
theorem Ready.poll {now : Nat} {g g' : Gate} (hg : GateSound g)
    (hlooked : Gate.Looked now g g') {w : Gate.Waiter} (h : Ready g w) :
    Parked now g' (g.poll now true w).2 := by
  have running : ∀ t, g.phase = .compilerRunning t → Parked now g' g.awaitCompiler := by
    intro t hphase
    obtain ⟨c, hc, hfinished⟩ := hg.running t hphase
    rw [Gate.awaitCompiler_of_running hphase hc hfinished]
    exact phase_of_running hlooked hphase
  cases w with
  | released => exact trivial
  | arriving =>
    cases hphase : g.phase with
    | idle =>
      simp only [Gate.poll, hphase, Gate.Phase.pending?, Gate.awaitCompiler, Gate.Phase.ticket?]
      exact trivial
    | compilerRunning t =>
      simp only [Gate.poll, hphase, Gate.Phase.pending?]
      exact running t hphase
    | changePending t =>
      simp only [Gate.poll, hphase, Gate.Phase.pending?]
      obtain ⟨-, c, hc, hstarted, hverdict, -⟩ := hg.pending t hphase
      exact parked_of_not_started hlooked hc hverdict hstarted
  | onChange t =>
    obtain ⟨c, hc, hverdict, hphase⟩ := h
    cases hstarted : c.started with
    | false => exact parked_of_not_started hlooked hc hverdict hstarted
    | true =>
      simp only [Gate.poll, Gate.pollChange_eq, Gate.verdict?_of_started hc hverdict hstarted]
      exact running t (hphase hstarted)
  | onCompiler t =>
    rcases h with hphase | ⟨c, hc, hfinished⟩
    · obtain ⟨c, hc, hfinished⟩ := hg.running t hphase
      simp only [Gate.poll, Gate.pollCompiler, hc, Option.any_some, hfinished]
      exact phase_of_running hlooked hphase
    · simp only [Gate.poll, Gate.pollCompiler, hc, Option.any_some, hfinished]
      exact trivial

/-! ## Steps and runs -/

section Step

variable {r : Room}

/-- The gate after an event is the one that the event left, looked at by the readers. -/
theorem Settled.looked (h : Settled r) (op : Op) :
    Gate.Looked (r.happen op).now (r.happen op).gate (r.step op).gate ∧
      (r.step op).waiters = (r.happen op).waiters.map fun w =>
        ((r.happen op).gate.poll (r.happen op).now true w).2 :=
  looked_pollAll (Gate.Looked.refl _ _) fun _ ht htold =>
    (h.ready op _ ht).pending?_eq_none htold

theorem Settled.step (h : Settled r) (op : Op) : Settled (r.step op) := by
  obtain ⟨hlooked, hwaiters⟩ := h.looked op
  refine ⟨(h.gate_happen op).looked hlooked, ?_⟩
  intro w hw
  rw [hwaiters, List.mem_map] at hw
  obtain ⟨w, hw, rfl⟩ := hw
  exact (h.ready op w hw).poll (h.gate_happen op) hlooked

theorem Settled.run (h : Settled r) (ops : List Op) : Settled (r.run ops) :=
  List.foldlRecOn ops Room.step h fun _ h op _ => h.step op

/-- A reader that was there before an event is answered by the gate that the event left. -/
theorem Settled.waiter_step (h : Settled r) (op : Op) {i : Nat} {w : Gate.Waiter}
    (hw : r.waiters[i]? = some w) : (r.step op).waiters[i]? =
      some ((r.happen op).gate.poll (r.happen op).now true w).2 := by
  have hkept : (r.happen op).waiters[i]? = some w := by
    cases op with
    | await => exact (List.getElem?_append_left (List.getElem?_eq_some_iff.mp hw).1).trans hw
    | change => exact hw
    | started => exact hw
    | ended => exact hw
    | advance ms => exact hw
  rw [(h.looked op).2, List.getElem?_map, hkept]
  rfl

/-- A reader that comes takes the next number and is answered by the gate as it stands. -/
theorem Settled.waiter_await (h : Settled r) :
    (r.step .await).waiters[r.waiters.length]? = some (r.gate.poll r.now true .arriving).2 := by
  rw [(h.looked .await).2, List.getElem?_map]
  simp [happen]

end Step

/-! ## Deadlines -/

/-- The deadlines of all changes so far, by ticket. -/
def deadlines (r : Room) : List Nat := r.gate.changes.map Change.deadline

/-- The instants at which changes opened a window. -/
def openings (r : Room) : List Op → List Nat
  | [] => []
  | op :: ops =>
    (if op = .change ∧ r.gate.phase = .idle then [r.now] else []) ++ openings (r.step op) ops

theorem map_deadline_modify (l : List Change) (t : Ticket) (f : Change → Change)
    (hf : ∀ c, (f c).deadline = c.deadline) :
    (l.modify t f).map Change.deadline = l.map Change.deadline := by
  apply List.ext_getElem?
  intro s
  rw [List.getElem?_map, List.getElem?_map, List.getElem?_modify]
  cases l[s]? with
  | none => rfl
  | some c => by_cases hs : t = s <;> simp [hs, hf]

/-- Only a change that opens a window adds a deadline. -/
theorem deadlines_happen (r : Room) (op : Op) : (r.happen op).deadlines = r.deadlines ++
    (if op = .change ∧ r.gate.phase = .idle then [r.now + r.gate.timeout] else []) := by
  cases op with
  | change =>
    simp only [deadlines, happen, Gate.change]
    cases hphase : r.gate.phase <;> simp
  | started =>
    simp only [deadlines, happen, Gate.started]
    cases hphase : r.gate.phase <;> simp [Gate.update, map_deadline_modify]
  | ended =>
    simp only [deadlines, happen, Gate.ended]
    cases hphase : r.gate.phase <;> simp [Gate.update, map_deadline_modify]
  | await => simp [deadlines, happen]
  | advance ms => simp [deadlines, happen]

theorem timeout_happen (r : Room) (op : Op) : (r.happen op).gate.timeout = r.gate.timeout := by
  cases op with
  | change =>
    simp only [happen, Gate.change]
    split <;> rfl
  | started =>
    simp only [happen, Gate.started]
    split <;> rfl
  | ended =>
    simp only [happen, Gate.ended]
    split <;> rfl
  | await => rfl
  | advance ms => rfl

theorem Settled.deadlines_step {r : Room} (h : Settled r) (op : Op) :
    (r.step op).deadlines = r.deadlines ++
      (if op = .change ∧ r.gate.phase = .idle then [r.now + r.gate.timeout] else []) := by
  rw [← deadlines_happen]
  exact (h.looked op).1.deadlines_eq

theorem Settled.timeout_step {r : Room} (h : Settled r) (op : Op) :
    (r.step op).gate.timeout = r.gate.timeout :=
  (h.looked op).1.timeout.trans (timeout_happen r op)

theorem Settled.deadlines_run {r : Room} (h : Settled r) (ops : List Op) :
    (r.run ops).deadlines = r.deadlines ++ (r.openings ops).map (· + r.gate.timeout) := by
  induction ops generalizing r with
  | nil => simp [openings]
  | cons op ops ih =>
    rw [run_cons, ih (h.step op), h.deadlines_step, h.timeout_step, openings, List.map_append,
      List.append_assoc]
    split <;> rfl

end Room

end BuildRelay
