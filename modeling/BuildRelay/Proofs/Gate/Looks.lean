/-
BuildRelay.Proofs.Gate.Looks — a pass in which every reader looks at the gate.

A look writes to the gate: it notes what the readers of a change are told, and a reader whose time
is over drops the pending change. Still the order of the looks does not matter.

* `poll_cases` — what one look comes to.
* `Looked` — how a gate may differ from the one that the pass started from.
* `Looked.poll` — the next reader is answered as by the first gate.
* `looked_pollAll` — so every reader is.
-/
import BuildRelay.Gate.Room

namespace BuildRelay

namespace Gate

/-! ## One look at a change -/

/-- The gate after the readers of a change have been told whether the compiler took it up. -/
def tell (g : Gate) (t : Ticket) (inTime : Bool) : Gate :=
  let g := g.update t fun c => { c with verdict := some inTime }
  if inTime then g else g.expire t

theorem changes_tell (g : Gate) (t : Ticket) (inTime : Bool) :
    (g.tell t inTime).changes = g.changes.modify t fun c => { c with verdict := some inTime } := by
  unfold tell expire
  cases inTime with
  | true => rfl
  | false =>
    simp only [Bool.false_eq_true, if_false]
    split <;> rfl

theorem timeout_tell (g : Gate) (t : Ticket) (inTime : Bool) :
    (g.tell t inTime).timeout = g.timeout := by
  unfold tell expire
  cases inTime with
  | true => rfl
  | false =>
    simp only [Bool.false_eq_true, if_false]
    split <;> rfl

/-- Telling a reader that its time is over drops its change if it is the pending one. -/
theorem phase_tell (g : Gate) (t : Ticket) (inTime : Bool) :
    (g.tell t inTime).phase =
      if inTime = false ∧ g.phase = .changePending t then .idle else g.phase := by
  unfold tell expire update
  cases inTime with
  | true => simp
  | false =>
    cases hphase : g.phase with
    | idle => simp [Phase.pending?]
    | compilerRunning s => simp [Phase.pending?]
    | changePending s => by_cases hs : s = t <;> simp [Phase.pending?, hs]

/-- What a reader is told that no longer waits for the compiler to start hangs on the phase and on
which changes are finished. -/
theorem awaitCompiler_congr {g g' : Gate} (hphase : g'.phase = g.phase)
    (hfinished : ∀ t : Ticket, (g'.changes[t]?).any Change.finished = (g.changes[t]?).any Change.finished) :
    g'.awaitCompiler = g.awaitCompiler := by
  unfold awaitCompiler pollCompiler
  rw [hphase]
  cases g.phase.ticket? with
  | none => rfl
  | some t => simp only [hfinished]

theorem finished_tell (g : Gate) (t s : Ticket) (inTime : Bool) :
    ((g.tell t inTime).changes[s]?).any Change.finished = (g.changes[s]?).any Change.finished := by
  rw [changes_tell, List.getElem?_modify]
  cases g.changes[s]? with
  | none => rfl
  | some c => by_cases hs : t = s <;> simp [hs]

theorem awaitCompiler_tell (g : Gate) (t : Ticket) :
    (g.tell t true).awaitCompiler = g.awaitCompiler := by
  apply awaitCompiler_congr
  · rw [phase_tell]
    simp
  · intro s
    exact g.finished_tell t s true

theorem pollChange_eq (g : Gate) (now : Nat) (signalFirst : Bool) (t : Ticket) :
    g.pollChange now signalFirst t = match g.verdict? now signalFirst t with
      | none => (g, .onChange t)
      | some inTime => (g.tell t inTime, if inTime then g.awaitCompiler else .released) := by
  rw [← awaitCompiler_tell g t]
  unfold pollChange tell
  cases g.verdict? now signalFirst t with
  | none => rfl
  | some inTime => cases inTime <;> rfl

/-- What one look comes to: the reader of a change is told what became of it, or goes on waiting; a
reader that comes while no change is pending sees whether the compiler is at work; and one that
waits for the compiler sees whether it has finished. -/
theorem poll_cases (g : Gate) (now : Nat) (signalFirst : Bool) (w : Waiter) :
    (∃ t, (w = .arriving ∧ g.phase = .changePending t ∨ w = .onChange t) ∧
      ((∃ inTime, g.verdict? now signalFirst t = some inTime ∧
          g.poll now signalFirst w =
            (g.tell t inTime, if inTime then g.awaitCompiler else .released)) ∨
        g.verdict? now signalFirst t = none ∧ g.poll now signalFirst w = (g, .onChange t))) ∨
    (w = .arriving ∧ g.phase.pending? = none ∧ g.poll now signalFirst w = (g, g.awaitCompiler)) ∨
    (∃ t, w = .onCompiler t ∧ g.poll now signalFirst w = (g, g.pollCompiler t)) ∨
    (w = .released ∧ g.poll now signalFirst w = (g, .released)) := by
  have look (t : Ticket) :
      (∃ inTime, g.verdict? now signalFirst t = some inTime ∧
        g.pollChange now signalFirst t =
          (g.tell t inTime, if inTime then g.awaitCompiler else .released)) ∨
      g.verdict? now signalFirst t = none ∧
        g.pollChange now signalFirst t = (g, .onChange t) := by
    rw [pollChange_eq]
    cases g.verdict? now signalFirst t with
    | none => exact .inr ⟨rfl, rfl⟩
    | some inTime => exact .inl ⟨inTime, rfl, rfl⟩
  cases w with
  | arriving =>
    cases hphase : g.phase with
    | changePending t =>
      have hpoll : g.poll now signalFirst .arriving = g.pollChange now signalFirst t := by
        simp only [poll, hphase, Phase.pending?]
      rw [hpoll]
      exact .inl ⟨t, .inl ⟨rfl, rfl⟩, look t⟩
    | idle | compilerRunning t =>
      exact .inr (.inl ⟨rfl, rfl, by simp only [poll, hphase, Phase.pending?]⟩)
  | onChange t => exact .inl ⟨t, .inr rfl, look t⟩
  | onCompiler t => exact .inr (.inr (.inl ⟨t, rfl, rfl⟩))
  | released => exact .inr (.inr (.inr ⟨rfl, rfl⟩))

/-- A look can do no more to the phase than to give up the pending change. -/
theorem phase_poll (g : Gate) (now : Nat) (signalFirst : Bool) (w : Waiter) :
    (g.poll now signalFirst w).1.phase = g.phase ∨
      ∃ t, g.phase = .changePending t ∧ (g.poll now signalFirst w).1.phase = .idle := by
  obtain ⟨s, -, ⟨inTime, -, hpoll⟩ | ⟨-, hpoll⟩⟩ | ⟨-, -, hpoll⟩ | ⟨s, -, hpoll⟩ | ⟨-, hpoll⟩ :=
    g.poll_cases now signalFirst w
  · rw [hpoll, phase_tell]
    split
    · rename_i h
      exact .inr ⟨s, h.2, rfl⟩
    · exact .inl rfl
  all_goals exact .inl (by rw [hpoll])

/-- A change that the compiler did not take up is over when its deadline has come. -/
theorem verdict?_of_not_started {g : Gate} {t : Ticket} {c : Change}
    (hc : g.changes[t]? = some c) (hverdict : c.verdict = none) (hstarted : c.started = false)
    (now : Nat) (signalFirst : Bool) :
    g.verdict? now signalFirst t = if c.deadline ≤ now then some false else none := by
  simp [verdict?, hc, hverdict, hstarted]

theorem verdict?_of_started {g : Gate} {t : Ticket} {c : Change}
    (hc : g.changes[t]? = some c) (hverdict : c.verdict = none) (hstarted : c.started = true)
    (now : Nat) : g.verdict? now true t = some true := by
  simp [verdict?, hc, hverdict, hstarted]

/-- While the compiler works on an unfinished change, readers wait for it. -/
theorem awaitCompiler_of_running {g : Gate} {t : Ticket} {c : Change}
    (hphase : g.phase = .compilerRunning t) (hc : g.changes[t]? = some c)
    (hfinished : c.finished = false) : g.awaitCompiler = .onCompiler t := by
  simp [awaitCompiler, pollCompiler, hphase, Phase.ticket?, hc, hfinished]

/-! ## Gates during a pass -/

/-- A gate that readers have looked at since `g`. Some changes have their verdict noted, and if the
pending change was over it may have been dropped. -/
structure Looked (now : Nat) (g g' : Gate) : Prop where
  timeout : g'.timeout = g.timeout
  change : ∀ t, g'.changes[t]? = g.changes[t]? ∨ ∃ c inTime, g.changes[t]? = some c ∧
    g.verdict? now true t = some inTime ∧
    g'.changes[t]? = some { c with verdict := some inTime } ∧
    (inTime = false → g'.phase ≠ .changePending t)
  phase : g'.phase = g.phase ∨ ∃ t, g.phase = .changePending t ∧
    g.verdict? now true t = some false ∧ g'.phase = .idle

namespace Looked

variable {now : Nat} {g g' : Gate}

theorem refl (now : Nat) (g : Gate) : Looked now g g := ⟨rfl, fun _ => .inl rfl, .inl rfl⟩

/-- Verdicts stay: a noted one is what a later reader would be told. -/
theorem verdict?_eq (h : Looked now g g') (t : Ticket) :
    g'.verdict? now true t = g.verdict? now true t := by
  rcases h.change t with hsame | ⟨c, inTime, -, hverdict, htold, -⟩
  · unfold verdict?
    rw [hsame]
  · rw [hverdict]
    simp [verdict?, htold]

theorem finished_eq (h : Looked now g g') (t : Ticket) :
    (g'.changes[t]?).any Change.finished = (g.changes[t]?).any Change.finished := by
  rcases h.change t with hsame | ⟨c, inTime, hc, -, htold, -⟩
  · rw [hsame]
  · rw [hc, htold]
    rfl

theorem deadlines_eq (h : Looked now g g') :
    g'.changes.map Change.deadline = g.changes.map Change.deadline := by
  apply List.ext_getElem?
  intro t
  rw [List.getElem?_map, List.getElem?_map]
  rcases h.change t with hsame | ⟨c, inTime, hc, -, htold, -⟩
  · rw [hsame]
  · rw [hc, htold]
    rfl

/-- A pass cannot bring a pending change back. -/
theorem pending_of_pending (h : Looked now g g') {t : Ticket}
    (hphase : g'.phase = .changePending t) : g.phase = .changePending t := by
  rcases h.phase with hsame | ⟨s, -, -, hidle⟩
  · rw [← hsame, hphase]
  · rw [hidle] at hphase
    cases hphase

/-- A pass cannot put the compiler to work. -/
theorem running_of_running (h : Looked now g g') {t : Ticket}
    (hphase : g'.phase = .compilerRunning t) : g.phase = .compilerRunning t := by
  rcases h.phase with hsame | ⟨s, -, -, hidle⟩
  · rw [← hsame, hphase]
  · rw [hidle] at hphase
    cases hphase

theorem tell (h : Looked now g g') {t : Ticket} {inTime : Bool}
    (hverdict : g.verdict? now true t = some inTime) : Looked now g (g'.tell t inTime) := by
  have hnot : inTime = false → (g'.tell t inTime).phase ≠ .changePending t := by
    rintro rfl
    rw [phase_tell]
    split
    · simp
    · rename_i hphase
      exact fun heq => hphase ⟨rfl, heq⟩
  refine ⟨(timeout_tell g' t inTime).trans h.timeout, ?_, ?_⟩
  · intro s
    rw [changes_tell, List.getElem?_modify]
    by_cases hs : t = s
    · subst hs
      rcases h.change t with hsame | ⟨c, inTime', hc, hverdict', htold, -⟩
      · cases hc : g.changes[t]? with
        | none => exact .inl (by rw [hsame, hc]; rfl)
        | some c => exact .inr ⟨c, inTime, rfl, hverdict, by rw [hsame, hc]; simp, hnot⟩
      · rw [hverdict] at hverdict'
        cases hverdict'
        exact .inr ⟨c, inTime, hc, hverdict, by rw [htold]; simp, hnot⟩
    · rcases h.change s with hsame | ⟨c, inTime', hc, hverdict', htold, hphase⟩
      · exact .inl (by rw [hsame]; simp [hs])
      · refine .inr ⟨c, inTime', hc, hverdict', by rw [htold]; simp [hs], ?_⟩
        intro hfalse
        rw [phase_tell]
        split
        · simp
        · exact hphase hfalse
  · rw [phase_tell]
    split
    · rename_i hover
      obtain ⟨rfl, hphase⟩ := hover
      exact .inr ⟨t, h.pending_of_pending hphase, hverdict, rfl⟩
    · exact h.phase

theorem pollChange (h : Looked now g g') (t : Ticket)
    (hpending : g.verdict? now true t = some true → g'.phase = g.phase) :
    Looked now g (g'.pollChange now true t).1 ∧
      (g'.pollChange now true t).2 = (g.pollChange now true t).2 := by
  rw [pollChange_eq, pollChange_eq, h.verdict?_eq]
  cases hverdict : g.verdict? now true t with
  | none => exact ⟨h, rfl⟩
  | some inTime =>
    refine ⟨h.tell hverdict, ?_⟩
    cases inTime with
    | false => rfl
    | true => exact awaitCompiler_congr (hpending hverdict) h.finished_eq

/-- The next reader is answered as by the gate that the pass started from. Only one that was told
that the compiler had started could notice that the pending change is gone. -/
theorem poll (h : Looked now g g') (w : Waiter)
    (hw : ∀ t, w = .onChange t → g.verdict? now true t = some true → g.phase.pending? = none) :
    Looked now g (g'.poll now true w).1 ∧ (g'.poll now true w).2 = (g.poll now true w).2 := by
  cases w with
  | arriving =>
    rcases h.phase with hsame | ⟨t, hpending, hover, hidle⟩
    · simp only [Gate.poll, hsame]
      cases g.phase.pending? with
      | none => exact ⟨h, awaitCompiler_congr hsame h.finished_eq⟩
      | some t => exact h.pollChange t fun _ => hsame
    · simp only [Gate.poll, hpending, hidle, Phase.pending?]
      refine ⟨h, ?_⟩
      rw [pollChange_eq, hover]
      simp [awaitCompiler, hidle, Phase.ticket?]
  | onChange t =>
    refine h.pollChange t fun hverdict => ?_
    rcases h.phase with hsame | ⟨s, hpending, -, -⟩
    · exact hsame
    · have hnone := hw t rfl hverdict
      rw [hpending] at hnone
      cases hnone
  | onCompiler t =>
    refine ⟨h, ?_⟩
    simp only [Gate.poll, pollCompiler, h.finished_eq]
  | released => exact ⟨h, rfl⟩

end Looked

end Gate

namespace Room

/-- In a pass every reader is answered as if it were the first to look. -/
theorem looked_pollAll {now : Nat} {g g' : Gate} {ws : List Gate.Waiter}
    (h : Gate.Looked now g g')
    (hws : ∀ t, .onChange t ∈ ws → g.verdict? now true t = some true → g.phase.pending? = none) :
    Gate.Looked now g (pollAll now g' ws).1 ∧
      (pollAll now g' ws).2 = ws.map fun w => (g.poll now true w).2 := by
  induction ws generalizing g' with
  | nil => exact ⟨h, rfl⟩
  | cons w rest ih =>
    obtain ⟨hlook, hanswer⟩ := h.poll w fun t ht => hws t (by rw [ht]; exact List.mem_cons_self)
    obtain ⟨hrest, hanswers⟩ := ih hlook fun t ht => hws t (List.mem_cons_of_mem w ht)
    refine ⟨hrest, ?_⟩
    rw [List.map_cons, ← hanswer, ← hanswers]
    rfl

end Room

end BuildRelay
