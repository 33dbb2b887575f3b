/-
BuildRelay.Gate.Basic — holding readers back while a change is on its way through the compiler.

The bundler reports a change and later asks for compiled text. The compiler may or may not care
about the change: if it starts within the timeout, readers wait for it to finish; if it does not,
the change is taken for one that it does not care about, and readers go on.

A gate is idle, or it holds one change, which is pending until the compiler takes it up. Every
change gets a ticket, and a reader that has to wait parks on a ticket, so that it notices what
became of its own change even when it looks again long after the gate has moved on. Nothing
happens at a deadline by itself: a change stays pending until a reader notices that its time is
over.

The gate is what its clients know as the watch, which keeps two waits: `caller_wait` for the compiler
to take a change up and `compiler_wait` for it to finish. The phase says which of them are held, and
`Gate.Waits` keeps them apart and is proved to take the same steps. The operation that a client calls
is named with the definition that stands for it.
-/
import BuildRelay.Text.Duration

namespace BuildRelay

/-- The number of a change, counted from zero. -/
abbrev Ticket := Nat

/-- What became of a reported change. -/
structure Change where
  /-- The instant at which its readers stop waiting for the compiler. -/
  deadline : Nat
  /-- The compiler took it up. -/
  started : Bool
  /-- What its readers have been told: whether the compiler took it up in time. -/
  verdict : Option Bool
  /-- The compiler finished while the gate held it. -/
  finished : Bool
  deriving DecidableEq, Repr

namespace Gate

/-- What a gate is doing (`WatchPhase`). -/
inductive Phase where
  | idle
  /-- A change was reported, and the compiler has not taken it up. -/
  | changePending (t : Ticket)
  | compilerRunning (t : Ticket)
  deriving DecidableEq, Repr

namespace Phase

/-- The change that the gate holds. -/
def ticket? : Phase → Option Ticket
  | idle => none
  | changePending t | compilerRunning t => some t

/-- The change that waits for the compiler. -/
def pending? : Phase → Option Ticket
  | changePending t => some t
  | idle | compilerRunning _ => none

/-- The name of the phase. -/
def describe : Phase → String
  | idle => "Idle"
  | changePending _ => "ChangePending"
  | compilerRunning _ => "CompilerRunning"

end Phase

/-- Where a reader stands in its `await_ready`. -/
inductive Waiter where
  | arriving
  /-- It waits for the compiler to take the change up, or for the deadline. -/
  | onChange (t : Ticket)
  /-- It waits for the compiler to finish. -/
  | onCompiler (t : Ticket)
  | released
  deriving DecidableEq, Repr

end Gate

/-- The gate between the watch loops of the bundler and of the compiler (`Watch`). -/
structure Gate where
  /-- How long a change waits for the compiler, in milliseconds. -/
  timeout : Nat
  /-- All changes so far, by ticket. -/
  changes : List Change
  phase : Gate.Phase
  deriving DecidableEq, Repr

namespace Gate

/-- The timeout that is used where none is given (`DEFAULT_TIMEOUT`). -/
def defaultTimeout : Nat := 1000

/-- An idle gate. -/
def ofTimeout (timeout : Nat) : Gate := ⟨timeout, [], .idle⟩

/-- The text of a gate in a log. -/
def describe (g : Gate) : String :=
  "Watch \x7b timeout: " ++ Text.duration g.timeout ++ ", phase: " ++ g.phase.describe ++ " \x7d"

/-! ## Reports of the bundler and the compiler -/

/-- Changes what is known about a change. -/
def update (g : Gate) (t : Ticket) (f : Change → Change) : Gate :=
  { g with changes := g.changes.modify t f }

/-- The bundler saw a change. It opens a window only if no other change is held
(`change_triggered`). -/
def change (g : Gate) (now : Nat) : Gate :=
  match g.phase with
  | .idle =>
    { g with
      changes := g.changes ++ [⟨now + g.timeout, false, none, false⟩]
      phase := .changePending g.changes.length }
  | .changePending _ | .compilerRunning _ => g

/-- The compiler begins a pass and takes a pending change up (`compiler_started`). -/
def started (g : Gate) : Gate :=
  match g.phase with
  | .changePending t =>
    { g.update t fun c => { c with started := true } with phase := .compilerRunning t }
  | .idle | .compilerRunning _ => g

/-- The compiler ends a pass. The held change is done with, even if it was still pending
(`compiler_ended`). -/
def ended (g : Gate) : Gate :=
  match g.phase with
  | .changePending t | .compilerRunning t =>
    { g.update t fun c => { c with finished := true } with phase := .idle }
  | .idle => g

/-! ## Readers -/

/-- Gives up on a pending change, unless the gate has moved on since (`clear_timed_out`). -/
def expire (g : Gate) (t : Ticket) : Gate :=
  if g.phase.pending? = some t then { g with phase := .idle } else g

/-- What the readers of a change are told at an instant: that the compiler took it up, or that its
time is over. The first answer stays. Where both hold at once, `signalFirst` decides. -/
def verdict? (g : Gate) (now : Nat) (signalFirst : Bool) (t : Ticket) : Option Bool :=
  match g.changes[t]? with
  | none => none
  | some c =>
    c.verdict.or
      (if c.started && c.deadline ≤ now then some signalFirst
       else if c.started then some true
       else if c.deadline ≤ now then some false
       else none)

/-- A reader that waits for the compiler goes on once the change it waits for is finished. -/
def pollCompiler (g : Gate) (t : Ticket) : Waiter :=
  if (g.changes[t]?).any Change.finished then .released else .onCompiler t

/-- A reader that no longer waits for the compiler to start goes on to wait for it to finish, if
the gate holds a change, be it another one. -/
def awaitCompiler (g : Gate) : Waiter :=
  match g.phase.ticket? with
  | some t => g.pollCompiler t
  | none => .released

/-- A reader that waits on a change looks what has become of it. -/
def pollChange (g : Gate) (now : Nat) (signalFirst : Bool) (t : Ticket) : Gate × Waiter :=
  match g.verdict? now signalFirst t with
  | none => (g, .onChange t)
  | some inTime =>
    let g := g.update t fun c => { c with verdict := some inTime }
    if inTime then (g, g.awaitCompiler) else (g.expire t, .released)

/-- A reader looks at the gate and goes as far as it can: one poll of its `await_ready`. -/
def poll (g : Gate) (now : Nat) (signalFirst : Bool) : Waiter → Gate × Waiter
  | .arriving =>
    match g.phase.pending? with
    | some t => g.pollChange now signalFirst t
    | none => (g, g.awaitCompiler)
  | .onChange t => g.pollChange now signalFirst t
  | .onCompiler t => (g, g.pollCompiler t)
  | .released => (g, .released)

/-- The instant at which a reader has to look again, if the clock alone can let it go. -/
def wakeTime? (g : Gate) : Waiter → Option Nat
  | .onChange t => (g.changes[t]?).map Change.deadline
  | .arriving | .onCompiler _ | .released => none

end Gate

end BuildRelay
