import BrokerClient.Number.Word

/-!
# Lengths of time

A span counts whole nanoseconds. Timers run on whole milliseconds, so a span has two readings in
milliseconds: `millis` rounds down, `ticks` rounds up. No timer runs for more than thirty years: one
that is set to a longer time fires then (`timerFor`).
-/

namespace BrokerClient

/-- The longest time that a timer runs, in milliseconds: thirty years. -/
def longestTimer : Nat := 86400000 * 365 * 30

/-- How long a timer runs that is set to a time in milliseconds. -/
def timerFor (ms : Nat) : Nat := min ms longestTimer

/-- A length of time. -/
structure Span where
  nanos : Nat
  deriving DecidableEq, Repr, Inhabited

namespace Span

/-- Whole seconds and further nanoseconds. -/
def ofParts (seconds nanos : Nat) : Span := ⟨seconds * 1000000000 + nanos⟩

def ofMillis (ms : Nat) : Span := ⟨ms * 1000000⟩

/-- The milliseconds that have fully passed. -/
def millis (s : Span) : Nat := s.nanos / 1000000

/-- The milliseconds after which a timer of this length fires. -/
def ticks (s : Span) : Nat := timerFor ((s.nanos + 999999) / 1000000)

/-- `millis` in a 64-bit word, the largest one if it does not fit. -/
def millisWord (s : Span) : Nat := min s.millis Number.wordMax

/-- The decimals of `part` out of `10 ^ places`, without zeros at the end. -/
def decimals (places part : Nat) : List Char :=
  let digits := Nat.toDigits 10 part
  let padded := List.replicate (places - digits.length) '0' ++ digits
  (padded.reverse.dropWhile (· = '0')).reverse

/-- `whole` and `part / 10 ^ places`, with a point only where decimals follow. -/
def decimal (whole places part : Nat) : String :=
  match decimals places part with
  | [] => toString whole
  | ds => toString whole ++ "." ++ String.ofList ds

/-- A span in the largest unit that it reaches: seconds, milliseconds, microseconds or
nanoseconds, with as many decimals as it takes to be exact. -/
def text (s : Span) : String :=
  if 1000000000 ≤ s.nanos then decimal (s.nanos / 1000000000) 9 (s.nanos % 1000000000) ++ "s"
  else if 1000000 ≤ s.nanos then decimal (s.nanos / 1000000) 6 (s.nanos % 1000000) ++ "ms"
  else if 1000 ≤ s.nanos then decimal (s.nanos / 1000) 3 (s.nanos % 1000) ++ "µs"
  else toString s.nanos ++ "ns"

end Span

end BrokerClient
