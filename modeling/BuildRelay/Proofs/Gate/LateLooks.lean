/-
BuildRelay.Proofs.Gate.LateLooks — readers that look at the gate in their own time.

A reader that has been woken may look again only after more changes and passes. It learns then what
became of its own change, but if the compiler took that up, it goes on to wait for whatever change
the gate holds by now. That may be one which is still pending, and which is given up later because
the compiler does not come. Nobody finishes that change any more: the reader waits for ever.

* `Event` — a report, an arrival, time that passes, or one look of one reader.
* `Orderly.performAll` — the change that the gate holds is not finished.
* `abandoned_happen_iff`, `abandoned_look_iff` — only a look can abandon a change.
* `stranded_iff_given_up` — a reader is stranded exactly if it waited for a change while that was
  pending, and then a look gave the change up.
* `late_look_strands_reader` — a run in which this happens.
* `Settled.not_stranded` — it happens to nobody who looks after every event.
* `WaitRoom.shows_performAll` — however late readers look, the two waits of a gate stay paired.
-/
import BuildRelay.Proofs.Gate.Handles
import Mathlib.Data.List.Induction

namespace BuildRelay

namespace Room

/-! ## Single looks -/

/-- What happens where readers look in their own time. -/
inductive Event where
  /-- Something that no reader notices yet. -/
  | happens (op : Op)
  /-- One reader looks. If it was signalled and its time is over, `signalFirst` decides. -/
  | looks (reader : Nat) (signalFirst : Bool)
  deriving DecidableEq, Repr

/-- One reader looks at the gate. -/
def look (r : Room) (i : Nat) (signalFirst : Bool) : Room :=
  match r.waiters[i]? with
  | none => r
  | some w =>
    let (gate, w) := r.gate.poll r.now signalFirst w
    { r with gate, waiters := r.waiters.set i w }

/-- The room after an event, where nobody looks unless the event is a look. -/
def perform (r : Room) : Event → Room
  | .happens op => r.happen op
  | .looks i signalFirst => r.look i signalFirst

/-- The room after events, one after the other. -/
def performAll (r : Room) (events : List Event) : Room := events.foldl perform r

theorem performAll_append (r : Room) (es fs : List Event) :
    r.performAll (es ++ fs) = (r.performAll es).performAll fs :=
  List.foldl_append ..

theorem performAll_induction {P : Room → Prop} {r : Room} (start : P r)
    (step : ∀ r e, P r → P (r.perform e)) (events : List Event) : P (r.performAll events) :=
  List.foldlRecOn events perform start fun r h e _ => step r e h

theorem look_eq {r : Room} {i : Nat} {w : Gate.Waiter} (hw : r.waiters[i]? = some w)
    (signalFirst : Bool) : r.look i signalFirst =
      { r with
        gate := (r.gate.poll r.now signalFirst w).1
        waiters := r.waiters.set i (r.gate.poll r.now signalFirst w).2 } := by
  simp only [look, hw]

theorem look_of_none {r : Room} {i : Nat} (hw : r.waiters[i]? = none) (signalFirst : Bool) :
    r.look i signalFirst = r := by
  simp only [look, hw]

end Room

namespace Gate

/-! ## What is finished -/

/-- Whether a change is there and finished, or there and not. -/
def finished? (g : Gate) (t : Ticket) : Option Bool := (g.changes[t]?).map Change.finished

theorem finished?_update (g : Gate) (t s : Ticket) {f : Change → Change}
    (hf : ∀ c, (f c).finished = c.finished) : (g.update t f).finished? s = g.finished? s := by
  simp only [finished?, update, List.getElem?_modify]
  cases g.changes[s]? with
  | none => rfl
  | some c => by_cases hs : t = s <;> simp [hs, hf]

theorem finished?_tell (g : Gate) (t s : Ticket) (inTime : Bool) :
    (g.tell t inTime).finished? s = g.finished? s := by
  rw [finished?, changes_tell]
  exact g.finished?_update t s fun _ => rfl

theorem ne_length_of_finished? {g : Gate} {t : Ticket} {b : Bool} (h : g.finished? t = some b) :
    t ≠ g.changes.length := by
  rintro rfl
  simp [finished?] at h

theorem pollCompiler_eq (g : Gate) (t : Ticket) :
    g.pollCompiler t = if g.finished? t = some true then .released else .onCompiler t := by
  unfold pollCompiler finished?
  cases g.changes[t]? with
  | none => rfl
  | some c => simp

theorem finished?_poll (g : Gate) (now : Nat) (signalFirst : Bool) (w : Waiter) (t : Ticket) :
    (g.poll now signalFirst w).1.finished? t = g.finished? t := by
  obtain ⟨s, -, ⟨inTime, -, hpoll⟩ | ⟨-, hpoll⟩⟩ | ⟨-, -, hpoll⟩ | ⟨s, -, hpoll⟩ | ⟨-, hpoll⟩ :=
    g.poll_cases now signalFirst w
  · rw [hpoll, finished?_tell]
  all_goals rw [hpoll]

theorem awaitCompiler_eq_onCompiler {g : Gate} {t : Ticket} (h : g.awaitCompiler = .onCompiler t) :
    g.phase.ticket? = some t := by
  unfold awaitCompiler at h
  split at h
  · rename_i s hs
    rw [pollCompiler_eq] at h
    split at h
    · cases h
    · cases h
      exact hs
  · cases h

/-- A look leaves a reader waiting for the compiler if it was, or on the change that the gate
holds. -/
theorem of_poll_eq_onCompiler {g : Gate} {now : Nat} {signalFirst : Bool} {w : Waiter} {t : Ticket}
    (h : (g.poll now signalFirst w).2 = .onCompiler t) :
    w = .onCompiler t ∧ (g.poll now signalFirst w).1 = g ∨
      (g.poll now signalFirst w).1.phase.ticket? = some t := by
  obtain ⟨s, -, ⟨inTime, -, hpoll⟩ | ⟨-, hpoll⟩⟩ | ⟨-, -, hpoll⟩ | ⟨s, hw, hpoll⟩ | ⟨-, hpoll⟩ :=
    g.poll_cases now signalFirst w <;> rw [hpoll] at h ⊢
  · cases inTime with
    | true =>
      rw [if_pos rfl, ← awaitCompiler_tell g s] at h
      exact .inr (awaitCompiler_eq_onCompiler h)
    | false => cases h
  · cases h
  · exact .inr (awaitCompiler_eq_onCompiler h)
  · rw [pollCompiler_eq] at h
    split at h
    · cases h
    · cases h
      exact .inl ⟨hw, rfl⟩
  · cases h

theorem ticket?_change (g : Gate) (now : Nat) :
    (g.change now).phase.ticket? = g.phase.ticket?.or (some g.changes.length) := by
  unfold change
  cases hphase : g.phase with
  | idle => rfl
  | changePending t | compilerRunning t =>
    dsimp only
    rw [hphase]
    rfl

theorem finished?_change (g : Gate) (now : Nat) (t : Ticket) : (g.change now).finished? t =
    if g.phase.ticket? = none ∧ t = g.changes.length then some false else g.finished? t := by
  unfold change
  cases hphase : g.phase with
  | idle =>
    simp only [finished?, Phase.ticket?, true_and]
    by_cases ht : t = g.changes.length
    · simp [ht]
    · rw [if_neg ht, List.getElem?_append]
      split
      · rfl
      · rename_i hlt
        rw [List.getElem?_eq_none (Nat.le_of_not_lt hlt), List.getElem?_singleton,
          if_neg (Nat.sub_ne_zero_of_lt (Nat.lt_of_le_of_ne (Nat.le_of_not_lt hlt) (Ne.symm ht)))]
  | changePending s | compilerRunning s => simp [Phase.ticket?]

theorem ticket?_started (g : Gate) : g.started.phase.ticket? = g.phase.ticket? := by
  unfold started
  cases hphase : g.phase with
  | changePending t => rfl
  | idle | compilerRunning t =>
    dsimp only
    rw [hphase]

theorem finished?_started (g : Gate) (t : Ticket) : g.started.finished? t = g.finished? t := by
  unfold started
  cases g.phase with
  | changePending s => exact g.finished?_update s t fun _ => rfl
  | idle | compilerRunning s => rfl

theorem ticket?_ended (g : Gate) : g.ended.phase.ticket? = none := by
  unfold ended
  cases hphase : g.phase with
  | changePending t | compilerRunning t => rfl
  | idle =>
    dsimp only
    rw [hphase]
    rfl

/-- The end of a pass finishes the change that the gate holds, and no other. -/
theorem finished?_ended (g : Gate) (t : Ticket) : g.ended.finished? t =
    if g.phase.ticket? = some t then (g.finished? t).map fun _ => true else g.finished? t := by
  unfold ended
  cases hphase : g.phase with
  | changePending s | compilerRunning s =>
    simp only [Phase.ticket?, Option.some.injEq, finished?, Gate.update, List.getElem?_modify]
    cases g.changes[t]? <;> by_cases hs : s = t <;> simp [hs]
  | idle => simp [Phase.ticket?]

/-- The gate does not hold a change any more, and nobody has finished it. -/
structure Abandoned (g : Gate) (t : Ticket) : Prop where
  dropped : g.phase.ticket? ≠ some t
  unfinished : g.finished? t = some false

end Gate

namespace Room

/-! ## Rooms in order -/

/-- The change that the gate holds is not finished, and every reader that waits for the compiler
waits for a change that there was. -/
structure Orderly (r : Room) : Prop where
  held : ∀ t, r.gate.phase.ticket? = some t → r.gate.finished? t = some false
  known : ∀ (i : Nat) t, r.waiters[i]? = some (Gate.Waiter.onCompiler t) →
    (r.gate.finished? t).isSome = true

theorem ofTimeout_orderly (timeout : Nat) : Orderly (ofTimeout timeout) := by
  refine ⟨?_, ?_⟩
  · intro t ht
    cases ht
  · intro i t hw
    cases hw

section Perform

variable {r : Room} {i j : Nat} {t : Ticket} {signalFirst : Bool}

theorem finished?_look : (r.look j signalFirst).gate.finished? t = r.gate.finished? t := by
  cases hw : r.waiters[j]? with
  | none => rw [look_of_none hw]
  | some w =>
    rw [look_eq hw]
    exact Gate.finished?_poll ..

/-- A look can do no more to the phase than to give up the pending change. -/
theorem phase_look (r : Room) (j : Nat) (signalFirst : Bool) :
    (r.look j signalFirst).gate.phase = r.gate.phase ∨
      ∃ t, r.gate.phase = .changePending t ∧ (r.look j signalFirst).gate.phase = .idle := by
  cases hw : r.waiters[j]? with
  | none =>
    rw [look_of_none hw]
    exact .inl rfl
  | some w =>
    rw [look_eq hw]
    exact r.gate.phase_poll r.now signalFirst w

/-- Only its own look moves a reader. -/
theorem waiter_look_of_ne (hij : i ≠ j) :
    (r.look j signalFirst).waiters[i]? = r.waiters[i]? := by
  cases hw : r.waiters[j]? with
  | none => rw [look_of_none hw]
  | some w =>
    rw [look_eq hw]
    exact List.getElem?_set_ne (Ne.symm hij)

/-- A reader that waits for the compiler sees whether its change is finished, and leaves the gate
as it is. -/
theorem look_onCompiler (hw : r.waiters[i]? = some (.onCompiler t)) :
    (r.look i signalFirst).gate = r.gate ∧ (r.look i signalFirst).waiters[i]? =
      some (if r.gate.finished? t = some true then .released else .onCompiler t) := by
  rw [look_eq hw, ← Gate.pollCompiler_eq]
  refine ⟨rfl, ?_⟩
  exact List.getElem?_set_self (List.getElem?_eq_some_iff.mp hw).1

/-- A reader waits for the compiler after a look if it did before, or on the change that the gate
holds. -/
theorem of_waiter_look (hw : (r.look j signalFirst).waiters[i]? = some (.onCompiler t)) :
    r.waiters[i]? = some (.onCompiler t) ∨
      (r.look j signalFirst).gate.phase.ticket? = some t := by
  by_cases hij : i = j
  · subst hij
    cases hold : r.waiters[i]? with
    | none =>
      rw [look_of_none hold, hold] at hw
      cases hw
    | some w =>
      rw [look_eq hold] at hw ⊢
      have hnew : (r.gate.poll r.now signalFirst w).2 = .onCompiler t := by
        rw [List.getElem?_set_self (List.getElem?_eq_some_iff.mp hold).1] at hw
        exact Option.some.inj hw
      exact (Gate.of_poll_eq_onCompiler hnew).imp (fun h => congrArg some h.1) id
  · rw [waiter_look_of_ne hij] at hw
    exact .inl hw

theorem of_waiter_happen {op : Op} (hw : (r.happen op).waiters[i]? = some (.onCompiler t)) :
    r.waiters[i]? = some (.onCompiler t) := by
  cases op with
  | await =>
    simp only [happen, List.getElem?_append, List.getElem?_singleton] at hw
    split at hw
    · exact hw
    · split at hw <;> cases hw
  | change | started | ended | advance ms => exact hw

theorem waiter_happen {op : Op} {w : Gate.Waiter} (hw : r.waiters[i]? = some w) :
    (r.happen op).waiters[i]? = some w := by
  cases op with
  | await =>
    show (r.waiters ++ [_])[i]? = some w
    rw [List.getElem?_append_left (List.getElem?_eq_some_iff.mp hw).1, hw]
  | change | started | ended | advance ms => exact hw

/-- What is known to be there stays there. -/
theorem isSome_finished?_perform (e : Event) (h : (r.gate.finished? t).isSome = true) :
    ((r.perform e).gate.finished? t).isSome = true := by
  cases e with
  | looks j signalFirst => rwa [perform, finished?_look]
  | happens op =>
    cases op with
    | change =>
      show ((r.gate.change r.now).finished? t).isSome = true
      rw [Gate.finished?_change]
      split
      · rfl
      · exact h
    | started => rwa [perform, happen, Gate.finished?_started]
    | ended =>
      show (r.gate.ended.finished? t).isSome = true
      rw [Gate.finished?_ended]
      split
      · rwa [Option.isSome_map]
      · exact h
    | await | advance ms => exact h

theorem Orderly.perform (h : Orderly r) (e : Event) : Orderly (r.perform e) := by
  have hheld : ∀ t, (r.perform e).gate.phase.ticket? = some t →
      (r.perform e).gate.finished? t = some false := by
    intro t ht
    cases e with
    | looks j signalFirst =>
      simp only [Room.perform, finished?_look] at ht ⊢
      rcases r.phase_look j signalFirst with hsame | ⟨s, -, hidle⟩
      · exact h.held t (by rw [← hsame, ht])
      · rw [hidle] at ht
        cases ht
    | happens op =>
      cases op with
      | change =>
        simp only [Room.perform, happen, Gate.ticket?_change, Gate.finished?_change] at ht ⊢
        cases hphase : r.gate.phase.ticket? with
        | none =>
          rw [hphase] at ht
          cases ht
          exact if_pos ⟨rfl, rfl⟩
        | some s =>
          rw [hphase] at ht
          rw [if_neg (by simp)]
          exact h.held t (hphase.trans ht)
      | started =>
        simp only [Room.perform, happen, Gate.ticket?_started, Gate.finished?_started] at ht ⊢
        exact h.held t ht
      | ended =>
        simp only [Room.perform, happen, Gate.ticket?_ended] at ht
        cases ht
      | await | advance ms => exact h.held t ht
  refine ⟨hheld, fun i t hw => ?_⟩
  cases e with
  | happens op => exact isSome_finished?_perform _ (h.known i t (of_waiter_happen hw))
  | looks j signalFirst =>
    rcases of_waiter_look hw with hold | hphase
    · exact isSome_finished?_perform _ (h.known i t hold)
    · rw [hheld t hphase]
      rfl

theorem Orderly.performAll (h : Orderly r) (events : List Event) : Orderly (r.performAll events) :=
  performAll_induction h (fun _ e h => h.perform e) events

end Perform

/-! ## Abandoned changes -/

section Abandoned

variable {r : Room} {j : Nat} {t : Ticket} {signalFirst : Bool}

/-- No report abandons a change, and none takes up one that is abandoned. -/
theorem abandoned_happen_iff {op : Op} :
    (r.happen op).gate.Abandoned t ↔ r.gate.Abandoned t := by
  cases op with
  | change =>
    constructor
    · intro h
      obtain ⟨hdropped, hunfinished⟩ := h
      rw [happen, Gate.ticket?_change] at hdropped
      rw [happen, Gate.finished?_change,
        if_neg fun hnew => hdropped (by rw [hnew.1, hnew.2]; rfl)] at hunfinished
      exact ⟨fun heq => hdropped (by rw [heq]; rfl), hunfinished⟩
    · intro h
      have hold : t ≠ r.gate.changes.length := Gate.ne_length_of_finished? h.unfinished
      refine ⟨?_, ?_⟩
      · rw [happen, Gate.ticket?_change]
        cases hphase : r.gate.phase.ticket? with
        | none => exact fun heq => hold (Option.some.inj heq).symm
        | some s => exact fun heq => h.dropped (hphase.trans heq)
      · rw [happen, Gate.finished?_change, if_neg fun hnew => hold hnew.2, h.unfinished]
  | started =>
    have hphase := r.gate.ticket?_started
    have hfinished := r.gate.finished?_started t
    constructor
    · intro h
      exact ⟨hphase ▸ h.dropped, hfinished ▸ h.unfinished⟩
    · intro h
      exact ⟨hphase.symm ▸ h.dropped, hfinished.trans h.unfinished⟩
  | ended =>
    constructor
    · intro h
      have hunfinished := h.unfinished
      rw [happen, Gate.finished?_ended] at hunfinished
      by_cases hphase : r.gate.phase.ticket? = some t
      · rw [if_pos hphase, Option.map_eq_some_iff] at hunfinished
        obtain ⟨-, -, hfalse⟩ := hunfinished
        cases hfalse
      · rw [if_neg hphase] at hunfinished
        exact ⟨hphase, hunfinished⟩
    · intro h
      refine ⟨?_, ?_⟩
      · simp [happen, Gate.ticket?_ended]
      · rw [happen, Gate.finished?_ended, if_neg h.dropped, h.unfinished]
  | await | advance ms => exact Iff.rfl

/-- A look abandons a change if it gives it up while it is pending. -/
theorem abandoned_look_iff (hr : Orderly r) : (r.look j signalFirst).gate.Abandoned t ↔
    r.gate.Abandoned t ∨
      r.gate.phase = .changePending t ∧ (r.look j signalFirst).gate.phase = .idle := by
  constructor
  · intro h
    have hunfinished : r.gate.finished? t = some false := by rw [← finished?_look, h.unfinished]
    by_cases hphase : r.gate.phase.ticket? = some t
    · rcases r.phase_look j signalFirst with hsame | ⟨s, hpending, hidle⟩
      · exact absurd (by rw [hsame, hphase]) h.dropped
      · rw [hpending] at hphase
        cases hphase
        exact .inr ⟨hpending, hidle⟩
    · exact .inl ⟨hphase, hunfinished⟩
  · rintro (h | ⟨hpending, hidle⟩)
    · refine ⟨?_, by rw [finished?_look, h.unfinished]⟩
      rcases r.phase_look j signalFirst with hsame | ⟨s, -, hidle⟩
      · rw [hsame]
        exact h.dropped
      · simp [hidle, Gate.Phase.ticket?]
    · refine ⟨by simp [hidle, Gate.Phase.ticket?], ?_⟩
      rw [finished?_look]
      exact hr.held t (by rw [hpending]; rfl)

end Abandoned

/-! ## Stranded readers -/

/-- A reader waits for the compiler to finish a change that is abandoned. -/
structure Stranded (r : Room) (i : Nat) (t : Ticket) : Prop where
  waits : r.waiters[i]? = some (.onCompiler t)
  abandoned : r.gate.Abandoned t

/-- A reader waits for the compiler to finish a change that is still pending, and somebody's look
gives the change up. -/
structure GivesUp (r : Room) (j : Nat) (signalFirst : Bool) (i : Nat) (t : Ticket) : Prop where
  waits : r.waiters[i]? = some (.onCompiler t)
  pending : r.gate.phase = .changePending t
  idle : (r.look j signalFirst).gate.phase = .idle

variable {r : Room} {i : Nat} {t : Ticket}

theorem GivesUp.stranded (hr : Orderly r) {j : Nat} {signalFirst : Bool}
    (h : GivesUp r j signalFirst i t) : Stranded (r.look j signalFirst) i t := by
  have hij : i ≠ j := by
    rintro rfl
    have hidle := h.idle
    rw [(look_onCompiler h.waits).1, h.pending] at hidle
    cases hidle
  refine ⟨by rw [waiter_look_of_ne hij, h.waits], ?_⟩
  exact (abandoned_look_iff hr).mpr (.inr ⟨h.pending, h.idle⟩)

/-- A stranded reader stays where it is, whatever happens and however often it looks. -/
theorem Stranded.perform (hr : Orderly r) (h : Stranded r i t) (e : Event) :
    Stranded (r.perform e) i t := by
  cases e with
  | happens op => exact ⟨waiter_happen h.waits, abandoned_happen_iff.mpr h.abandoned⟩
  | looks j signalFirst =>
    refine ⟨?_, (abandoned_look_iff hr).mpr (.inl h.abandoned)⟩
    by_cases hij : i = j
    · subst hij
      rw [Room.perform, (look_onCompiler h.waits).2, h.abandoned.unfinished]
      rfl
    · rw [Room.perform, waiter_look_of_ne hij, h.waits]

theorem Stranded.performAll (hr : Orderly r) (h : Stranded r i t) (events : List Event) :
    Stranded (r.performAll events) i t :=
  (performAll_induction (P := fun r => Orderly r ∧ Stranded r i t) ⟨hr, h⟩
    (fun _ e h => ⟨h.1.perform e, h.2.perform h.1 e⟩) events).2

/-- One event strands a reader only if it is a look that gives up its change. -/
theorem stranded_of_perform (hr : Orderly r) {e : Event} (h : Stranded (r.perform e) i t) :
    Stranded r i t ∨ ∃ j signalFirst, e = .looks j signalFirst ∧ GivesUp r j signalFirst i t := by
  cases e with
  | happens op => exact .inl ⟨of_waiter_happen h.waits, abandoned_happen_iff.mp h.abandoned⟩
  | looks j signalFirst =>
    have hwaits : r.waiters[i]? = some (.onCompiler t) :=
      (of_waiter_look h.waits).resolve_right h.abandoned.dropped
    rcases (abandoned_look_iff hr).mp h.abandoned with habandoned | ⟨hpending, hidle⟩
    · exact .inl ⟨hwaits, habandoned⟩
    · exact .inr ⟨j, signalFirst, rfl, hwaits, hpending, hidle⟩

/-! ## Readers that are let go -/

/-- A reader waits for a change that is finished, or has been let go. -/
def Freed (r : Room) (i : Nat) (t : Ticket) : Prop :=
  r.gate.finished? t = some true ∧
    (r.waiters[i]? = some (.onCompiler t) ∨ r.waiters[i]? = some .released)

theorem Freed.look_self (h : Freed r i t) (signalFirst : Bool) :
    (r.look i signalFirst).waiters[i]? = some .released := by
  rcases h.2 with hwaits | hreleased
  · rw [(look_onCompiler hwaits).2, if_pos h.1]
  · rw [look_eq hreleased]
    exact List.getElem?_set_self (List.getElem?_eq_some_iff.mp hreleased).1

theorem Freed.perform (h : Freed r i t) (e : Event) : Freed (r.perform e) i t := by
  refine ⟨?_, ?_⟩
  · cases e with
    | looks j signalFirst => rw [Room.perform, finished?_look, h.1]
    | happens op =>
      cases op with
      | change =>
        rw [Room.perform, happen, Gate.finished?_change,
          if_neg fun hnew => Gate.ne_length_of_finished? h.1 hnew.2, h.1]
      | started => rw [Room.perform, happen, Gate.finished?_started, h.1]
      | ended =>
        rw [Room.perform, happen, Gate.finished?_ended, h.1]
        split <;> rfl
      | await | advance ms => exact h.1
  · cases e with
    | happens op => exact h.2.imp waiter_happen waiter_happen
    | looks j signalFirst =>
      by_cases hij : i = j
      · subst hij
        exact .inr (h.look_self signalFirst)
      · rw [Room.perform, waiter_look_of_ne hij]
        exact h.2

theorem Freed.performAll (h : Freed r i t) (events : List Event) :
    Freed (r.performAll events) i t :=
  performAll_induction (P := fun r => Freed r i t) h (fun _ e h => h.perform e) events

/-- The end of a pass lets every reader go that waits for the compiler and is not stranded. -/
theorem freed_ended (hr : Orderly r) (hwaits : r.waiters[i]? = some (.onCompiler t))
    (h : ¬Stranded r i t) : Freed (r.perform (.happens .ended)) i t := by
  refine ⟨?_, .inl (waiter_happen hwaits)⟩
  rw [Room.perform, happen, Gate.finished?_ended]
  by_cases hphase : r.gate.phase.ticket? = some t
  · rw [if_pos hphase, hr.held t hphase]
    rfl
  · rw [if_neg hphase]
    obtain ⟨b, hb⟩ := Option.isSome_iff_exists.mp (hr.known i t hwaits)
    cases b with
    | true => exact hb
    | false => exact absurd ⟨hwaits, hphase, hb⟩ h

/-- After any interleaving of reports, arrivals, time and single looks, a reader is stranded exactly
if at some time it waited for a change that was still pending, and then a look gave that change up.
From then on it waits for ever. Every other reader that waits for the compiler is let go by the next
end of a pass, however late it looks. -/
theorem stranded_iff_given_up (timeout : Nat) (events : List Event) (i : Nat) (t : Ticket) :
    (Stranded ((ofTimeout timeout).performAll events) i t ↔
      ∃ before j signalFirst after, events = before ++ .looks j signalFirst :: after ∧
        GivesUp ((ofTimeout timeout).performAll before) j signalFirst i t) ∧
    (Stranded ((ofTimeout timeout).performAll events) i t → ∀ more,
      ((ofTimeout timeout).performAll (events ++ more)).waiters[i]? = some (.onCompiler t)) ∧
    (((ofTimeout timeout).performAll events).waiters[i]? = some (.onCompiler t) →
      ¬Stranded ((ofTimeout timeout).performAll events) i t → ∀ more signalFirst,
      ((ofTimeout timeout).performAll
        (events ++ .happens .ended :: more ++ [.looks i signalFirst])).waiters[i]? =
          some .released) := by
  have horderly (es : List Event) : Orderly ((ofTimeout timeout).performAll es) :=
    (ofTimeout_orderly timeout).performAll es
  refine ⟨⟨?_, ?_⟩, ?_, ?_⟩
  · induction events using List.reverseRecOn with
    | nil =>
      intro h
      cases h.waits
    | append_singleton events e ih =>
      intro h
      rw [performAll_append] at h
      rcases stranded_of_perform (horderly events) h with hold | ⟨j, signalFirst, rfl, hgives⟩
      · obtain ⟨before, j, signalFirst, after, rfl, hgives⟩ := ih hold
        exact ⟨before, j, signalFirst, after ++ [e], by simp, hgives⟩
      · exact ⟨events, j, signalFirst, [], rfl, hgives⟩
  · rintro ⟨before, j, signalFirst, after, rfl, hgives⟩
    rw [performAll_append]
    exact (hgives.stranded (horderly before)).performAll
      ((horderly before).perform (.looks j signalFirst)) after
  · intro h more
    rw [performAll_append]
    exact (h.performAll (horderly events) more).waits
  · intro hwaits h more signalFirst
    rw [performAll_append, performAll_append]
    have hgone : Freed (((ofTimeout timeout).performAll events).perform (.happens .ended)) i t :=
      freed_ended (horderly events) hwaits h
    exact (hgone.performAll more).look_self signalFirst

/-- A late look makes a reader wait for the second change, which another reader then gives up. -/
def lateLookSession : List Event :=
  [.happens .change, .happens .await, .looks 0 true, .happens .started, .happens .ended,
    .happens .change, .looks 0 true, .happens .await, .looks 1 true, .happens (.advance 1000),
    .looks 1 true]

/-- The first reader is stranded then, and another change with a full pass does not let it go. -/
theorem late_look_strands_reader :
    Stranded ((ofTimeout 1000).performAll lateLookSession) 0 1 ∧
    ((ofTimeout 1000).performAll (lateLookSession ++ [.happens .change, .happens .started,
      .happens .ended, .looks 0 true])).waiters[0]? = some (.onCompiler 1) := by
  refine ⟨⟨by decide, ⟨by decide, by decide⟩⟩, by decide⟩

/-! ## Readers that look at once -/

/-- Nobody is stranded where every reader looks after every event. -/
theorem Settled.not_stranded (h : Settled r) : ¬Stranded r i t := by
  intro hstranded
  have hparked := h.waiters _ (List.mem_of_getElem? hstranded.waits)
  rw [Parked] at hparked
  exact hstranded.abandoned.dropped (by rw [hparked]; rfl)

end Room

/-! ## The two waits, looked at late -/

namespace WaitRoom

/-- One reader looks at the waits. -/
def look (r : WaitRoom) (i : Nat) (signalFirst : Bool) : WaitRoom :=
  match r.waiters[i]? with
  | none => r
  | some w =>
    let (gate, w) := r.gate.poll r.now signalFirst w
    { r with gate, waiters := r.waiters.set i w }

/-- The room after an event, where nobody looks unless the event is a look. -/
def perform (r : WaitRoom) : Room.Event → WaitRoom
  | .happens op => r.happen op
  | .looks i signalFirst => r.look i signalFirst

/-- The room after events, one after the other. -/
def performAll (r : WaitRoom) (events : List Room.Event) : WaitRoom := events.foldl perform r

variable {r : WaitRoom} {r' : Room}

theorem shows_look (h : r.Shows r') (i : Nat) (signalFirst : Bool) :
    (r.look i signalFirst).Shows (r'.look i signalFirst) := by
  obtain ⟨now, gate, waiters⟩ := r
  obtain ⟨now', gate', waiters'⟩ := r'
  obtain ⟨rfl, hgate, rfl⟩ := h
  simp only [look, Room.look]
  cases waiters[i]? with
  | none => exact ⟨rfl, hgate, rfl⟩
  | some w =>
    obtain ⟨hlook, hanswer⟩ := hgate.poll now signalFirst w
    exact ⟨rfl, hlook, by simp only [hanswer]⟩

/-- However late a reader looks, the two waits stay paired, and do what the gate does. -/
theorem shows_perform (h : r.Shows r') (e : Room.Event) : (r.perform e).Shows (r'.perform e) := by
  cases e with
  | happens op => exact h.happen op
  | looks i signalFirst => exact shows_look h i signalFirst

theorem shows_performAll (h : r.Shows r') (events : List Room.Event) :
    (r.performAll events).Shows (r'.performAll events) := by
  induction events generalizing r r' with
  | nil => exact h
  | cons e events ih => exact ih (shows_perform h e)

end WaitRoom

end BuildRelay
