/-
BuildRelay.Status — what the build driver says about its watch loop.

The driver reports by diagnostics. Three message codes mark the start and the end of a pass; every
other code carries no meaning here.
-/

namespace BuildRelay

/-- The weight of a diagnostic. -/
inductive Severity where
  | warning
  | error
  | suggestion
  | message
  deriving DecidableEq, Repr

/-- A report of the build driver. -/
structure Diagnostic where
  severity : Severity
  code : Nat
  /-- The file it is about, if it is about one. -/
  file : Option String
  text : String
  deriving DecidableEq, Repr

/-- A status of the driver's watch loop. -/
inductive Status where
  /-- A file changed and an incremental pass starts. -/
  | changeDetected
  /-- The pass finished with exactly one error. -/
  | finishedWithOneError
  /-- The pass finished with some other number of errors, perhaps none. -/
  | finishedWithErrors
  /-- A message without meaning here. -/
  | other (code : Nat)
  deriving DecidableEq, Repr

namespace Status

/-- The status that a message code stands for. -/
def ofCode (code : Nat) : Status :=
  if code = 6032 then changeDetected
  else if code = 6193 then finishedWithOneError
  else if code = 6194 then finishedWithErrors
  else other code

/-- Whether the pass is over. -/
def isFinished : Status → Bool
  | finishedWithOneError | finishedWithErrors => true
  | changeDetected | other _ => false

end Status

namespace Diagnostic

/-- A plain message that is about no file. -/
def message (code : Nat) (text : String) : Diagnostic := ⟨.message, code, none, text⟩

/-- The status that the report stands for. -/
def status (d : Diagnostic) : Status := .ofCode d.code

end Diagnostic

end BuildRelay
