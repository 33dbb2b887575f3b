/-
BuildRelay.Proofs.Gate.Handles — a gate as the two waits that it holds.

A gate shows one phase. What it keeps is two waits, though: that of the readers for the compiler to
take a change up, and that for the compiler to finish. A change makes both; after that every report
and every look drops the one or the other by itself. Nothing in this form keeps the first wait from
being held without the second, so that it never is has to be an invariant of the steps. With it the
two waits, read as a phase, do at every step just what the gate does.

* `Waits` — a gate with two waits; `Waits.phase` — the phase that it shows.
* `Waits.Paired` — whoever waits for the compiler to take a change up could wait for its end as well.
* `Waits.Shows` — two waits that are paired, and the gate that they are read as.
* `WaitRoom.shows_step`, `WaitRoom.shows_run` — every run keeps it.
-/
import BuildRelay.Proofs.Gate.Settled

namespace BuildRelay

namespace Gate

/-- A gate that keeps its waits apart. Each is known by the change that it was made for. -/
structure Waits where
  timeout : Nat
  changes : List Change
  /-- The wait of readers for the compiler to take the change up. -/
  caller : Option Ticket
  /-- The wait of readers for the compiler to finish. -/
  compiler : Option Ticket

namespace Waits

def ofTimeout (timeout : Nat) : Waits := ⟨timeout, [], none, none⟩

/-- The phase that a gate with these waits shows. -/
def phase (g : Waits) : Phase :=
  match g.caller, g.compiler with
  | some t, _ => .changePending t
  | none, some t => .compilerRunning t
  | none, none => .idle

/-- The gate that shows its phase only. -/
def toGate (g : Waits) : Gate := ⟨g.timeout, g.changes, g.phase⟩

/-! ## What the waits do -/

def update (g : Waits) (t : Ticket) (f : Change → Change) : Waits :=
  { g with changes := g.changes.modify t f }

/-- Makes both waits, unless one of them is held. -/
def change (g : Waits) (now : Nat) : Waits :=
  if g.caller.isSome || g.compiler.isSome then g
  else
    { g with
      changes := g.changes ++ [⟨now + g.timeout, false, none, false⟩]
      caller := some g.changes.length
      compiler := some g.changes.length }

/-- Ends the first wait; the second is not touched. -/
def started (g : Waits) : Waits :=
  match g.caller with
  | some t => { g.update t fun c => { c with started := true } with caller := none }
  | none => g

/-- Ends the second wait, and drops the first. -/
def ended (g : Waits) : Waits :=
  let g := match g.compiler with
    | some t => { g.update t fun c => { c with finished := true } with compiler := none }
    | none => g
  { g with caller := none }

/-- Drops both waits if the first is still that of the given change. -/
def expire (g : Waits) (t : Ticket) : Waits :=
  if g.caller = some t then { g with caller := none, compiler := none } else g

def pollCompiler (g : Waits) (t : Ticket) : Waiter :=
  if (g.changes[t]?).any Change.finished then .released else .onCompiler t

/-- Goes on to the second wait, if it is held. -/
def awaitCompiler (g : Waits) : Waiter :=
  match g.compiler with
  | some t => g.pollCompiler t
  | none => .released

def pollChange (g : Waits) (now : Nat) (signalFirst : Bool) (t : Ticket) : Waits × Waiter :=
  match g.toGate.verdict? now signalFirst t with
  | none => (g, .onChange t)
  | some inTime =>
    let g := g.update t fun c => { c with verdict := some inTime }
    if inTime then (g, g.awaitCompiler) else (g.expire t, .released)

/-- A reader looks at the waits: at the first, if it is held when it comes, and then at the second. -/
def poll (g : Waits) (now : Nat) (signalFirst : Bool) : Waiter → Waits × Waiter
  | .arriving =>
    match g.caller with
    | some t => g.pollChange now signalFirst t
    | none => (g, g.awaitCompiler)
  | .onChange t => g.pollChange now signalFirst t
  | .onCompiler t => (g, g.pollCompiler t)
  | .released => (g, .released)

/-! ## The waits against the phase -/

/-- The first wait is held only together with the second, and for the same change. -/
def Paired (g : Waits) : Prop := ∀ t, g.caller = some t → g.compiler = some t

/-- Waits that are paired, and the gate that they are read as. -/
def Shows (g : Waits) (g' : Gate) : Prop := g.Paired ∧ g.toGate = g'

namespace Shows

variable {g : Waits} {g' : Gate}

theorem ofTimeout (timeout : Nat) : (Waits.ofTimeout timeout).Shows (.ofTimeout timeout) :=
  ⟨nofun, rfl⟩

/-- Neither wait is held, or the second alone, or both for one change. -/
theorem cases {timeout : Nat} {changes : List Change} {caller compiler : Option Ticket}
    (h : (⟨timeout, changes, caller, compiler⟩ : Waits).Shows g') :
    (caller = none ∧ compiler = none ∧ g' = ⟨timeout, changes, .idle⟩) ∨
    (∃ t, caller = none ∧ compiler = some t ∧ g' = ⟨timeout, changes, .compilerRunning t⟩) ∨
    ∃ t, caller = some t ∧ compiler = some t ∧ g' = ⟨timeout, changes, .changePending t⟩ := by
  obtain ⟨hpaired, rfl⟩ := h
  cases caller with
  | some t =>
    have hcompiler : compiler = some t := hpaired t rfl
    exact .inr (.inr ⟨t, rfl, hcompiler, rfl⟩)
  | none =>
    cases compiler with
    | none => exact .inl ⟨rfl, rfl, rfl⟩
    | some t => exact .inr (.inl ⟨t, rfl, rfl, rfl⟩)

theorem update (h : g.Shows g') (t : Ticket) (f : Change → Change) :
    (g.update t f).Shows (g'.update t f) := by
  obtain ⟨hpaired, rfl⟩ := h
  exact ⟨hpaired, rfl⟩

theorem change (h : g.Shows g') (now : Nat) : (g.change now).Shows (g'.change now) := by
  obtain ⟨timeout, changes, caller, compiler⟩ := g
  obtain ⟨rfl, rfl, rfl⟩ | ⟨t, rfl, rfl, rfl⟩ | ⟨t, rfl, rfl, rfl⟩ := h.cases
  · exact ⟨fun _ ht => ht, rfl⟩
  · exact h
  · exact h

theorem started (h : g.Shows g') : g.started.Shows g'.started := by
  obtain ⟨timeout, changes, caller, compiler⟩ := g
  obtain ⟨rfl, rfl, rfl⟩ | ⟨t, rfl, rfl, rfl⟩ | ⟨t, rfl, rfl, rfl⟩ := h.cases
  · exact h
  · exact h
  · exact ⟨nofun, rfl⟩

theorem ended (h : g.Shows g') : g.ended.Shows g'.ended := by
  obtain ⟨timeout, changes, caller, compiler⟩ := g
  obtain ⟨rfl, rfl, rfl⟩ | ⟨t, rfl, rfl, rfl⟩ | ⟨t, rfl, rfl, rfl⟩ := h.cases <;>
    exact ⟨nofun, rfl⟩

theorem expire (h : g.Shows g') (t : Ticket) : (g.expire t).Shows (g'.expire t) := by
  obtain ⟨timeout, changes, caller, compiler⟩ := g
  obtain ⟨rfl, rfl, rfl⟩ | ⟨s, rfl, rfl, rfl⟩ | ⟨s, rfl, rfl, rfl⟩ := h.cases
  · exact h
  · exact h
  · by_cases hs : s = t
    · simp only [Waits.expire, Gate.expire, Phase.pending?, hs, if_true]
      exact ⟨fun _ ht => absurd ht (by simp), rfl⟩
    · simp only [Waits.expire, Gate.expire, Phase.pending?, Option.some.injEq, hs, if_false]
      exact h

theorem awaitCompiler_eq (h : g.Shows g') : g.awaitCompiler = g'.awaitCompiler := by
  obtain ⟨timeout, changes, caller, compiler⟩ := g
  obtain ⟨rfl, rfl, rfl⟩ | ⟨t, rfl, rfl, rfl⟩ | ⟨t, rfl, rfl, rfl⟩ := h.cases <;> rfl

theorem pollChange (h : g.Shows g') (now : Nat) (signalFirst : Bool) (t : Ticket) :
    (g.pollChange now signalFirst t).1.Shows (g'.pollChange now signalFirst t).1 ∧
      (g.pollChange now signalFirst t).2 = (g'.pollChange now signalFirst t).2 := by
  unfold Waits.pollChange Gate.pollChange
  rw [h.2]
  cases g'.verdict? now signalFirst t with
  | none => exact ⟨h, rfl⟩
  | some inTime =>
    have htold := h.update t fun c => { c with verdict := some inTime }
    cases inTime with
    | true => exact ⟨htold, htold.awaitCompiler_eq⟩
    | false => exact ⟨htold.expire t, rfl⟩

/-- A look at the waits is a look at the gate. -/
theorem poll (h : g.Shows g') (now : Nat) (signalFirst : Bool) (w : Waiter) :
    (g.poll now signalFirst w).1.Shows (g'.poll now signalFirst w).1 ∧
      (g.poll now signalFirst w).2 = (g'.poll now signalFirst w).2 := by
  cases w with
  | arriving =>
    have hawait := h.awaitCompiler_eq
    have hlook := h.pollChange now signalFirst
    simp only [Waits.poll, Gate.poll]
    obtain ⟨timeout, changes, caller, compiler⟩ := g
    obtain ⟨rfl, rfl, rfl⟩ | ⟨t, rfl, rfl, rfl⟩ | ⟨t, rfl, rfl, rfl⟩ := h.cases
    · exact ⟨h, hawait⟩
    · exact ⟨h, hawait⟩
    · exact hlook t
  | onChange t => exact h.pollChange now signalFirst t
  | onCompiler t =>
    obtain ⟨hpaired, rfl⟩ := h
    exact ⟨⟨hpaired, rfl⟩, rfl⟩
  | released => exact ⟨h, rfl⟩

end Shows

end Waits

end Gate

/-! ## Runs -/

/-- A room whose gate keeps its waits apart. -/
structure WaitRoom where
  now : Nat
  gate : Gate.Waits
  waiters : List Gate.Waiter

namespace WaitRoom

open Room (Op)

def ofTimeout (timeout : Nat) : WaitRoom := ⟨0, .ofTimeout timeout, []⟩

/-- Every reader looks at the waits once, in order. -/
def pollAll (now : Nat) (g : Gate.Waits) : List Gate.Waiter → Gate.Waits × List Gate.Waiter
  | [] => (g, [])
  | w :: rest =>
    let (g, w) := g.poll now true w
    let (g, rest) := pollAll now g rest
    (g, w :: rest)

/-- What an event does before any reader looks. -/
def happen (r : WaitRoom) : Op → WaitRoom
  | .change => { r with gate := r.gate.change r.now }
  | .started => { r with gate := r.gate.started }
  | .ended => { r with gate := r.gate.ended }
  | .await => { r with waiters := r.waiters ++ [.arriving] }
  | .advance ms => { r with now := r.now + ms }

/-- Lets every reader go as far as it can. -/
def settle (r : WaitRoom) : WaitRoom :=
  let (gate, waiters) := pollAll r.now r.gate r.waiters
  { r with gate, waiters }

/-- An event, after which all readers look. -/
def step (r : WaitRoom) (op : Op) : WaitRoom := (r.happen op).settle

/-- The room after events, one after the other. -/
def run (r : WaitRoom) (ops : List Op) : WaitRoom := ops.foldl step r

/-- A room with two waits that are paired, and the room whose gate they are read as. -/
structure Shows (r : WaitRoom) (r' : Room) : Prop where
  now : r.now = r'.now
  gate : r.gate.Shows r'.gate
  waiters : r.waiters = r'.waiters

theorem shows_ofTimeout (timeout : Nat) : (ofTimeout timeout).Shows (.ofTimeout timeout) :=
  ⟨rfl, .ofTimeout timeout, rfl⟩

theorem shows_pollAll (now : Nat) {g : Gate.Waits} {g' : Gate} (h : g.Shows g')
    (ws : List Gate.Waiter) : (pollAll now g ws).1.Shows (Room.pollAll now g' ws).1 ∧
      (pollAll now g ws).2 = (Room.pollAll now g' ws).2 := by
  induction ws generalizing g g' with
  | nil => exact ⟨h, rfl⟩
  | cons w rest ih =>
    obtain ⟨hlook, hanswer⟩ := h.poll now true w
    obtain ⟨hrest, hanswers⟩ := ih hlook
    refine ⟨hrest, ?_⟩
    show (g.poll now true w).2 :: (pollAll now (g.poll now true w).1 rest).2 =
      (g'.poll now true w).2 :: (Room.pollAll now (g'.poll now true w).1 rest).2
    rw [hanswer, hanswers]

variable {r : WaitRoom} {r' : Room}

theorem Shows.happen (h : r.Shows r') (op : Op) : (r.happen op).Shows (r'.happen op) := by
  obtain ⟨now, gate, waiters⟩ := r
  obtain ⟨now', gate', waiters'⟩ := r'
  obtain ⟨rfl, hgate, rfl⟩ := h
  cases op with
  | change => exact ⟨rfl, hgate.change _, rfl⟩
  | started => exact ⟨rfl, hgate.started, rfl⟩
  | ended => exact ⟨rfl, hgate.ended, rfl⟩
  | await | advance ms => exact ⟨rfl, hgate, rfl⟩

/-- Whatever happens, the two waits stay paired, and do what the gate does. -/
theorem shows_step (h : r.Shows r') (op : Op) : (r.step op).Shows (r'.step op) := by
  obtain ⟨hnow, hgate, hwaiters⟩ := h.happen op
  obtain ⟨hlooked, hanswers⟩ := shows_pollAll (r.happen op).now hgate (r.happen op).waiters
  simp only [step, settle, Room.step, Room.settle]
  rw [← hnow, ← hwaiters]
  exact ⟨rfl, hlooked, hanswers⟩

theorem shows_run (h : r.Shows r') (ops : List Op) : (r.run ops).Shows (r'.run ops) := by
  induction ops generalizing r r' with
  | nil => exact h
  | cons op ops ih => exact ih (shows_step h op)

end WaitRoom

end BuildRelay
