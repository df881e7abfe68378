import FragmentRelay.Span

/-!
# Backoff: delays that double up to a ceiling

The delay before the second attempt is the initial one; each further delay is twice the one before,
cut at the ceiling. The doubling stops after 31 steps.
-/

namespace FragmentRelay

/-- A schedule of delays. -/
structure Backoff where
  initial : Span
  ceiling : Span
deriving DecidableEq

namespace Backoff

/-- The schedule that is used when none is given: from 50 milliseconds to two seconds. -/
def standard : Backoff := ⟨Span.ofMillis 50, Span.ofSeconds 2⟩

/-- The shortest delay of a normal schedule. -/
def shortest : Span := Span.ofMillis 1

/-- The schedule with delays of at least a millisecond and its two ends in order. -/
def normalized (b : Backoff) : Backoff :=
  let initial := max b.initial shortest
  let ceiling := max b.ceiling shortest
  if initial ≤ ceiling then ⟨initial, ceiling⟩ else ⟨ceiling, initial⟩

/-- The delay after a given one. -/
def next (b : Backoff) (current : Span) : Span := min (current.scale 2) b.ceiling

/-- The doublings before the delay that follows an attempt; attempts count from one. -/
def doublings (attempt : Nat) : Nat := min (attempt - 1) 31

/-- The delay that follows an attempt. -/
def delayAfter (b : Backoff) (attempt : Nat) : Span :=
  min (b.initial.scale (1 <<< doublings attempt)) b.ceiling

end Backoff

end FragmentRelay
