/-
BuildRelay.Text.Duration — a span of milliseconds as text.

Below one second the span is written in milliseconds; from there on in seconds, with as many
decimals as it takes and no trailing zero. The empty span is written in the smallest unit.
-/

namespace BuildRelay.Text

/-- The three decimals of a part of a second, without trailing zeros. -/
def millisDecimals (ms : Nat) : List Char :=
  let digits := [ms / 100 % 10, ms / 10 % 10, ms % 10].map Nat.digitChar
  (digits.reverse.dropWhile (· = '0')).reverse

/-- A span of milliseconds, as it is shown. -/
def duration (ms : Nat) : String :=
  if ms = 0 then "0ns"
  else if ms < 1000 then toString ms ++ "ms"
  else
    match millisDecimals (ms % 1000) with
    | [] => toString (ms / 1000) ++ "s"
    | decimals => toString (ms / 1000) ++ "." ++ String.ofList decimals ++ "s"

end BuildRelay.Text
