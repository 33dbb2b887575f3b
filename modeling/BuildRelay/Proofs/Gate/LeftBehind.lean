/-
BuildRelay.Proofs.Gate.LeftBehind — whom the end of a pass lets go.

The end of a pass tells everyone who waits for the compiler to finish. A change that the compiler has
not taken up is dropped by it as well, and the gate is idle; but the readers of that change wait for
the compiler to start, and nobody tells them. They keep the deadline of their change, and wait at an
idle gate until then.

* `lt_count_iff`, `Settled.length_waiters_run` — the event that a reader came by.
* `Settled.await_pending_run` — a reader that comes while a change is pending.
* `LeftBehind` — a reader whose change was dropped before the compiler took it up.
* `LeftBehind.waits`, `leftBehind_of_waits` — such readers wait, and at an idle gate no others do.
* `Settled.waits_step_ended` — what one end of a pass does.
* `waits_iff_leftBehind` — who waits after the end of a pass, and at any idle gate.
-/
import BuildRelay.Proofs.Gate.Pass
import BuildRelay.Proofs.Gate.Windows
import Mathlib.Data.List.TakeWhile

namespace BuildRelay

namespace Room

/-! ## Readers by number -/

/-- A reader that has come and has not been let go. -/
def Waits (r : Room) (i : Nat) : Prop := i < r.waiters.length ∧ i ∉ r.released

instance (r : Room) (i : Nat) : Decidable (r.Waits i) := inferInstanceAs (Decidable (_ ∧ _))

theorem waits_iff {r : Room} {i : Nat} :
    r.Waits i ↔ ∃ w, r.waiters[i]? = some w ∧ w ≠ .released := by
  rw [Waits, mem_released_iff]
  cases hw : r.waiters[i]? with
  | none => simp [List.getElem?_eq_none_iff.mp hw]
  | some w => simp [(List.getElem?_eq_some_iff.mp hw).1]

/-- The numbers below a count are those of the single occurrences. -/
theorem lt_count_iff {α : Type} [DecidableEq α] {a : α} {l : List α} {i : Nat} :
    i < l.count a ↔ ∃ front back, l = front ++ a :: back ∧ front.count a = i := by
  constructor
  · intro h
    induction l generalizing i with
    | nil => simp at h
    | cons b l ih =>
      by_cases hb : b = a
      · subst hb
        cases i with
        | zero => exact ⟨[], l, rfl, rfl⟩
        | succ i =>
          rw [List.count_cons_self] at h
          obtain ⟨front, back, rfl, hcount⟩ := ih (Nat.lt_of_succ_lt_succ h)
          exact ⟨b :: front, back, rfl, by rw [List.count_cons_self, hcount]⟩
      · rw [List.count_cons_of_ne hb] at h
        obtain ⟨front, back, rfl, hcount⟩ := ih h
        exact ⟨b :: front, back, rfl, by rw [List.count_cons_of_ne hb, hcount]⟩
  · rintro ⟨front, back, rfl, rfl⟩
    rw [List.count_append, List.count_cons_self]
    omega

/-- A reader takes the number of those that came before. -/
theorem Settled.length_waiters_run {r : Room} (h : Settled r) (ops : List Op) :
    (r.run ops).waiters.length = r.waiters.length + ops.count .await := by
  induction ops generalizing r with
  | nil => rfl
  | cons op ops ih =>
    have hstep : (r.step op).waiters.length = r.waiters.length + [op].count .await := by
      rw [(h.looked op).2, List.length_map]
      cases op <;> simp [happen]
    rw [run_cons, ih (h.step op), hstep, Nat.add_assoc, ← List.count_append, List.singleton_append]

theorem length_waiters_run_ofTimeout (timeout : Nat) (ops : List Op) :
    ((ofTimeout timeout).run ops).waiters.length = ops.count .await := by
  rw [(ofTimeout_settled timeout).length_waiters_run]
  exact Nat.zero_add _

/-! ## Until the compiler is heard of -/

/-- The events up to the first that comes from the compiler, and the rest. -/
theorem exists_quiet_append (ops : List Op) : ∃ quiet rest, ops = quiet ++ rest ∧
    (∀ op ∈ quiet, op.isCompiler = false) ∧ ∀ op ∈ rest.head?, op.isCompiler = true := by
  refine ⟨ops.takeWhile (!·.isCompiler), ops.dropWhile (!·.isCompiler),
    List.takeWhile_append_dropWhile.symm, fun op hop => ?_, fun op hop => ?_⟩
  · simpa using List.mem_takeWhile_imp hop
  · have hhead := List.head?_dropWhile_not (!·.isCompiler) ops
    rw [Option.mem_def.mp hop] at hhead
    simpa using hhead

/-- A reader that comes while a change is pending. -/
theorem Settled.await_pending_run {r : Room} {t : Ticket} {d : Nat} (h : Settled r)
    (hphase : r.gate.phase = .changePending t) (hd : r.deadlines[t]? = some d) (hnow : r.now < d)
    (ops : List Op) :
    r.waiters.length ∈ ((r.step .await).run ops).released ↔ LetGo d r.now ops := by
  have hcame := h.await_pending hphase hd
  rw [if_neg (Nat.not_le_of_lt hnow)] at hcame
  exact (h.step .await).pending_run hcame (h.deadline_step hd .await)
    (h.pending_step hphase hd .await (by simp) (by simp) hnow) ops

/-- Whoever waits came before the deadline. -/
theorem Settled.before_deadline {r : Room} {t : Ticket} {d : Nat} (h : Settled r)
    (hphase : r.gate.phase = .changePending t) (hd : r.deadlines[t]? = some d) {ops : List Op}
    (hheld : r.waiters.length ∉ ((r.step .await).run ops).released) : r.now < d := by
  by_contra hover
  have hcame := h.await_pending hphase hd
  rw [if_pos (Nat.le_of_not_lt hover)] at hcame
  exact hheld ((h.step .await).released_run hcame ops)

theorem now_run_window (r : Room) (before early : List Op) :
    (r.run (before ++ .change :: early)).now = (r.run before).now + elapsed early := by
  rw [now_run, now_run, elapsed_append, elapsed, Op.ms, Nat.zero_add, Nat.add_assoc]

/-- In its time a window stays open until the compiler is heard of. -/
theorem pending_of_quiet (timeout : Nat) {before early : List Op}
    (hidle : ((ofTimeout timeout).run before).gate.phase = .idle)
    (hquiet : ∀ op ∈ early, op.isCompiler = false) (htime : elapsed early < timeout) :
    let r := (ofTimeout timeout).run (before ++ .change :: early)
    ∃ t, r.gate.phase = .changePending t ∧
      r.deadlines[t]? = some (((ofTimeout timeout).run before).now + timeout) := by
  intro r
  have h : Settled ((ofTimeout timeout).run before) := (ofTimeout_settled timeout).run before
  have hr : r = (((ofTimeout timeout).run before).step .change).run early := run_append ..
  obtain ⟨hopen, -, hdeadline⟩ := h.opens_step hidle
  rw [timeout_run_ofTimeout] at hdeadline
  rw [hr]
  refine ⟨_, (h.step .change).pending_quiet_run hopen hdeadline hquiet ?_⟩
  rw [now_step, Op.ms]
  omega

/-! ## Readers that are left behind -/

/-- The reader with the number `i` is left behind. A change found the gate idle, the reader came, and
then the compiler ended a pass; from the change to that end it was not heard to start. What followed
does not matter, but less than `timeout` has passed since the change. -/
def LeftBehind (timeout : Nat) (ops : List Op) (i : Nat) : Prop :=
  ∃ before early late after,
    ops = (before ++ .change :: early) ++ .await :: (late ++ .ended :: after) ∧
    ((ofTimeout timeout).run before).gate.phase = .idle ∧
    (∀ op ∈ early ++ late, op.isCompiler = false) ∧
    (before ++ .change :: early).count .await = i ∧
    elapsed (early ++ late ++ after) < timeout

section LeftBehind

variable {timeout : Nat} {ops : List Op} {i : Nat}

/-- Who is left behind waits, whatever the gate does meanwhile. -/
theorem LeftBehind.waits (h : LeftBehind timeout ops i) :
    ((ofTimeout timeout).run ops).Waits i := by
  obtain ⟨before, early, late, after, rfl, hidle, hquiet, rfl, htime⟩ := h
  rw [elapsed_append, elapsed_append] at htime
  -- The reader finds the window of the change open, with its time ahead.
  obtain ⟨t, hphase, hd⟩ := pending_of_quiet timeout hidle
    (fun op hop => hquiet op (List.mem_append_left _ hop)) (by omega)
  have hnow := now_run_window (ofTimeout timeout) before early
  have hr := (ofTimeout_settled timeout).run (before ++ .change :: early)
  refine ⟨?_, ?_⟩
  · rw [length_waiters_run_ofTimeout]
    exact lt_count_iff.mpr ⟨_, _, rfl, rfl⟩
  · rw [run_append, run_cons, ← length_waiters_run_ofTimeout timeout,
      hr.await_pending_run hphase hd (by omega),
      letGo_append (fun op hop => hquiet op (List.mem_append_right _ hop)) (by omega), LetGo]
    omega

/-- At an idle gate nobody waits but who was left behind. -/
theorem leftBehind_of_waits (hidle : ((ofTimeout timeout).run ops).gate.phase = .idle)
    (hwaits : ((ofTimeout timeout).run ops).Waits i) : LeftBehind timeout ops i := by
  obtain ⟨hcame, hheld⟩ := hwaits
  rw [length_waiters_run_ofTimeout] at hcame
  obtain ⟨pre, post, rfl, rfl⟩ := lt_count_iff.mp hcame
  have hr : Settled ((ofTimeout timeout).run pre) := (ofTimeout_settled timeout).run pre
  rw [← length_waiters_run_ofTimeout timeout pre, run_append, run_cons] at hheld
  rw [run_append, run_cons] at hidle
  cases hphase : ((ofTimeout timeout).run pre).gate.phase with
  | idle => exact absurd ((hr.step .await).released_run (hr.await_idle hphase) post) hheld
  | compilerRunning t =>
    -- Only the end of its pass makes the gate idle again, and that lets the reader go.
    rw [(hr.step .await).onCompiler_run (hr.await_running hphase)] at hheld
    have hrunning := (hr.step .await).running_run (hr.running_step hphase (by simp)) hheld
    rw [hrunning] at hidle
    cases hidle
  | changePending t =>
    obtain ⟨before, early, hwindow⟩ := exists_window timeout pre hphase
    obtain rfl := hwindow.ops_eq
    have hd := hwindow.deadline
    have hstart := now_run_window (ofTimeout timeout) before early
    have hnow := hr.before_deadline hphase hd hheld
    rw [hr.await_pending_run hphase hd hnow] at hheld
    obtain ⟨late, rest, rfl, hlate, hrest⟩ := exists_quiet_append post
    rw [letGo_append hlate hnow, not_or] at hheld
    obtain ⟨hahead, hheld⟩ := hheld
    -- The window is still open when the compiler is first heard of.
    obtain ⟨hopen, -⟩ := (hr.step .await).pending_quiet_run
      (hr.pending_step hphase hd .await (by simp) (by simp) hnow) (hr.deadline_step hd .await) hlate
      (by rw [now_step, Op.ms]; omega)
    rw [run_append] at hidle
    cases rest with
    | nil =>
      rw [run_nil, hopen] at hidle
      cases hidle
    | cons op after =>
      have hop := hrest op rfl
      cases op with
      | change => cases hop
      | await => cases hop
      | advance ms => cases hop
      | started =>
        have hsettled := (hr.step .await).run late
        have hworks := hsettled.phase_step_started (t := t) (by rw [hopen]; rfl)
        rw [run_cons, (hsettled.step .started).running_run hworks hheld] at hidle
        cases hidle
      | ended =>
        refine ⟨before, early, late, after, rfl, hwindow.idle, ?_, rfl, ?_⟩
        · exact fun op hop => (List.mem_append.mp hop).elim (hwindow.quiet op) (hlate op)
        · rw [LetGo] at hheld
          rw [elapsed_append, elapsed_append]
          omega

end LeftBehind

/-! ## The end of a pass -/

theorem Settled.phase_step_ended {r : Room} (h : Settled r) : (r.step .ended).gate.phase = .idle := by
  have hended : (r.happen .ended).gate.phase = .idle := by
    simp only [happen, Gate.ended]
    split
    · rfl
    · rfl
    · assumption
  rcases (h.looked .ended).1.phase with hsame | ⟨-, -, -, hidle⟩
  · rw [hsame, hended]
  · exact hidle

/-- Who waits after the end of a pass is who waited for the compiler to start. -/
theorem Settled.waits_step_ended {r : Room} (h : Settled r) (i : Nat) :
    (r.step .ended).Waits i ↔ ∃ t, r.waiters[i]? = some (.onChange t) := by
  rw [waits_iff]
  cases hw : r.waiters[i]? with
  | none => simp [h.no_waiter_step hw .ended (by simp)]
  | some w =>
    cases w with
    | arriving => exact (h.parked hw).elim
    | released => simp [h.released_step hw .ended]
    | onCompiler t => simp [h.onCompiler_step hw .ended]
    | onChange t =>
      obtain ⟨c, hc, -, -, hahead⟩ := h.parked hw
      have hd : r.deadlines[t]? = some c.deadline := by rw [deadlines, List.getElem?_map, hc]; rfl
      simp [h.onChange_step hw hd .ended (by simp), Op.ms, Nat.not_le_of_lt hahead]

/-- Whom the end of a pass lets go. Whatever happened before, the gate is idle after it, and everyone
is let go who waited for the compiler to finish, and nobody who waited for it to start. So just those
wait on who were left behind, by this end or by an earlier one, and it is the same whenever the gate
is idle: everyone has been let go exactly if nobody was left behind. -/
theorem waits_iff_leftBehind (timeout : Nat) (ops : List Op) :
    let before := (ofTimeout timeout).run ops
    let after := (ofTimeout timeout).run (ops ++ [.ended])
    after.gate.phase = .idle ∧
    (∀ i, after.Waits i ↔ ∃ t, before.waiters[i]? = some (.onChange t)) ∧
    (∀ i, after.Waits i ↔ LeftBehind timeout (ops ++ [.ended]) i) ∧
    (before.gate.phase = .idle → ∀ i, before.Waits i ↔ LeftBehind timeout ops i) := by
  intro before after
  have h : Settled before := (ofTimeout_settled timeout).run ops
  have hafter : after = before.step .ended := run_concat ..
  have hidle : after.gate.phase = .idle := by
    rw [hafter]
    exact h.phase_step_ended
  refine ⟨hidle, fun i => ?_, fun i => ⟨leftBehind_of_waits hidle, LeftBehind.waits⟩,
    fun hbefore i => ⟨leftBehind_of_waits hbefore, LeftBehind.waits⟩⟩
  rw [hafter]
  exact h.waits_step_ended i

/-- A change, a reader that waits for the compiler to start, and a compiler that only ends: the gate
is idle, and the reader waits until the deadline of its change. -/
theorem end_of_pass_leaves_reader_waiting :
    ((ofTimeout 1000).run [.change, .await, .ended]).gate.phase = .idle ∧
    ((ofTimeout 1000).run [.change, .await, .ended]).Waits 0 ∧
    ((ofTimeout 1000).run [.change, .await, .ended, .advance 999]).Waits 0 ∧
    0 ∈ ((ofTimeout 1000).run [.change, .await, .ended, .advance 1000]).released := by
  decide

end Room

end BuildRelay
