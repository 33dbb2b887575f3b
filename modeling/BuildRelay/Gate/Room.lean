/-
BuildRelay.Gate.Room — a gate, a clock, and the readers who wait.

After every step each reader looks at the gate, so a reader is let go at the first instant at
which it can be. Readers are numbered in the order in which they came.

No operation of the watch stands behind a room: it is the clock and the executor that a watch is used
with. An event is a call of the watch or time that passes, and every `await_ready` that has not
returned is polled after it.
-/
import BuildRelay.Gate.Basic

namespace BuildRelay

/-- A gate with a clock and its readers. -/
structure Room where
  /-- The current instant, in milliseconds. -/
  now : Nat
  gate : Gate
  /-- Every reader that ever came, by number. -/
  waiters : List Gate.Waiter
  deriving DecidableEq, Repr

namespace Room

/-- An empty room at instant zero. -/
def ofTimeout (timeout : Nat) : Room := ⟨0, .ofTimeout timeout, []⟩

/-- What can happen in a room. -/
inductive Op where
  /-- The bundler sees a change (`change_triggered`). -/
  | change
  /-- The compiler begins a pass (`compiler_started`). -/
  | started
  /-- The compiler ends a pass (`compiler_ended`). -/
  | ended
  /-- A reader comes (`await_ready`). -/
  | await
  | advance (ms : Nat)
  deriving DecidableEq, Repr

/-- Every reader looks at the gate once, in order. -/
def pollAll (now : Nat) (g : Gate) : List Gate.Waiter → Gate × List Gate.Waiter
  | [] => (g, [])
  | w :: rest =>
    let (g, w) := g.poll now true w
    let (g, rest) := pollAll now g rest
    (g, w :: rest)

/-- Lets every reader go as far as it can. -/
def settle (r : Room) : Room :=
  let (gate, waiters) := pollAll r.now r.gate r.waiters
  { r with gate, waiters }

/-- What an event does before any reader looks. -/
def happen (r : Room) : Op → Room
  | .change => { r with gate := r.gate.change r.now }
  | .started => { r with gate := r.gate.started }
  | .ended => { r with gate := r.gate.ended }
  | .await => { r with waiters := r.waiters ++ [.arriving] }
  | .advance ms => { r with now := r.now + ms }

/-- An event, after which all readers look. -/
def step (r : Room) (op : Op) : Room := (r.happen op).settle

/-- The numbers of the readers that have been let go. -/
def released (r : Room) : List Nat :=
  (List.range r.waiters.length).filter fun i => r.waiters[i]? = some .released

/-- One reader waits here until it is let go, but no longer than `budget`; time passes meanwhile.
Answers whether it was let go. -/
def waitWithin (r : Room) (budget : Nat) : Bool × Room :=
  let (gate, w) := r.gate.poll r.now true .arriving
  let r := { r with gate }.settle
  if w = .released then (true, r)
  else
    let limit := r.now + budget
    let wake := ((gate.wakeTime? w).filter (· ≤ limit)).getD limit
    let (gate, w) := r.gate.poll wake true w
    (w = .released, { r with gate, now := wake }.settle)

end Room

end BuildRelay
