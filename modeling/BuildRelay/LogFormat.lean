/-
BuildRelay.LogFormat — how log lines are laid out, as a user names it.
-/
import BuildRelay.Text.Blank

namespace BuildRelay

/-- The layouts of log output. -/
inductive LogFormat where
  | text
  /-- An indented hierarchy of spans. -/
  | tree
  /-- One JSON object for each event. -/
  | json
  deriving DecidableEq, Repr

namespace LogFormat

/-- Reads a name in any case, blanks around it apart; an unknown name stands for flat lines. -/
def parse (name : String) : LogFormat :=
  let word := (Text.trimChars name.toList).map Char.toLower
  if word = ['t', 'r', 'e', 'e'] then tree
  else if word = ['j', 's', 'o', 'n'] then json
  else text

end LogFormat

end BuildRelay
