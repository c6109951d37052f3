import Overlay.Time

/-!
# Latency estimates

The latency to a super peer is smoothed over the measured samples, so that one slow answer does not change
the choice of a super peer at once.  The first sample sets the average, and half of it the deviation; each
later one moves the average by an eighth and the deviation by a quarter of the difference.
-/

namespace Overlay

/-- A smoothed latency in milliseconds. -/
structure Latency where
  average : Float
  deviation : Float
  samples : Nat

namespace Latency

def unknown : Latency := ⟨0, 0, 0⟩

/-- The estimate after one more sample in milliseconds. -/
def update (l : Latency) (sample : Nat) : Latency :=
  let x := (UInt64.ofNat sample).toFloat
  let samples := min (l.samples + 1) (2 ^ 64 - 1)
  if l.samples = 0 then ⟨x, x / 2, samples⟩
  else ⟨0.875 * l.average + 0.125 * x, 0.75 * l.deviation + 0.25 * (l.average - x).abs, samples⟩

def isKnown (l : Latency) : Bool := 0 < l.samples

/-- The average in whole milliseconds, once there was a sample. -/
def millis? (l : Latency) : Option Nat :=
  if l.isKnown then some l.average.round.toUInt64.toNat else none

def averageTime (l : Latency) : Duration := .ofSecondsFloat (l.average / 1000)

def deviationTime (l : Latency) : Duration := .ofSecondsFloat (l.deviation / 1000)

/-- How long an answer may be waited for: the average and four deviations, of which at least 100
milliseconds. -/
def timeout (l : Latency) : Duration :=
  let slack := 4 * l.deviation
  let ms := l.average + (if slack < 100 then 100 else slack)
  .ofMillis ms.toUInt64.toNat

end Latency

end Overlay
