/-
BuildRelay.Data.Action — steps on a state that may fail and that leave a trace.

A failing step keeps what it did to the state and what it left in the trace; only what would have
come after it does not happen.
-/

namespace BuildRelay

universe u

/-- What running an action came to. -/
structure Outcome (fault event state α : Type) where
  /-- The value, or why there is none. -/
  result : Except fault α
  /-- The state afterwards, also after a failure. -/
  state : state
  /-- What happened on the way, oldest first. -/
  trace : List event

/-- A step on a state that may fail and that leaves a trace. -/
def Action (fault event state α : Type) := state → Outcome fault event state α

namespace Action

variable {fault event state α β : Type}

/-- Runs an action from a state. -/
def run (x : Action fault event state α) (s : state) : Outcome fault event state α := x s

/-- The action that only gives a value. -/
protected def pure (a : α) : Action fault event state α := fun s => ⟨.ok a, s, []⟩

/-- One action after another; the second is not run if the first fails. -/
protected def bind (x : Action fault event state α) (f : α → Action fault event state β) :
    Action fault event state β := fun s =>
  let o := x s
  match o.result with
  | .error e => ⟨.error e, o.state, o.trace⟩
  | .ok a =>
    let p := f a o.state
    ⟨p.result, p.state, o.trace ++ p.trace⟩

instance : Monad (Action fault event state) where
  pure := Action.pure
  bind := Action.bind

/-- The action that fails. -/
def fail (e : fault) : Action fault event state α := fun s => ⟨.error e, s, []⟩

/-- The state. -/
def get : Action fault event state state := fun s => ⟨.ok s, s, []⟩

/-- Changes the state. -/
def modify (f : state → state) : Action fault event state Unit := fun s => ⟨.ok (), f s, []⟩

/-- Changes the state and gives a value. -/
def modifyGet (f : state → α × state) : Action fault event state α := fun s =>
  let (a, s) := f s
  ⟨.ok a, s, []⟩

/-- Leaves something in the trace. -/
def tell (v : event) : Action fault event state Unit := fun s => ⟨.ok (), s, [v]⟩

/-- Runs an action on a part of the state, and rewords what it leaves in the trace. -/
def within {part event' : Type} (get : state → part) (put : part → state → state)
    (reword : event' → event) (x : Action fault event' part α) : Action fault event state α :=
  fun s =>
    let o := x (get s)
    ⟨o.result, put o.state s, o.trace.map reword⟩

/-- Runs an action, and a change of the state after it even if it fails. -/
def thenAlways (x : Action fault event state α) (f : state → state) :
    Action fault event state α := fun s =>
  let o := x s
  ⟨o.result, f o.state, o.trace⟩

end Action

end BuildRelay
