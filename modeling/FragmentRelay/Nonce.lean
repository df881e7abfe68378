/-!
# Nonces: numbers that tell operations apart

A source issues nonces from the clock's nanoseconds but never issues one that is not above the last,
until the ceiling of 64 bits is reached. The last issued nonce is the whole state of a source.
-/

namespace FragmentRelay

/-- A source of nonces: the last one issued, or the floor it starts above. -/
structure NonceSource where
  last : UInt64 := 0
deriving DecidableEq, Repr

namespace NonceSource

/-- The largest nonce. -/
def ceiling : Nat := UInt64.size - 1

/-- A source that starts above a floor. -/
def startingAfter (floor : UInt64) : NonceSource := ⟨floor⟩

/-- The nonce after the last one at a clock reading: the reading if it is above the last, else one
more than the last, but never above the ceiling. -/
def advance (clock last : UInt64) : UInt64 :=
  UInt64.ofNat (max clock.toNat (min (last.toNat + 1) ceiling))

/-- Issues a nonce. -/
def next (clock : UInt64) (s : NonceSource) : UInt64 × NonceSource :=
  (advance clock s.last, ⟨advance clock s.last⟩)

theorem toNat_advance (clock last : UInt64) :
    (advance clock last).toNat = max clock.toNat (min (last.toNat + 1) ceiling) := by
  have hc := clock.toNat_lt
  simp only [advance, UInt64.toNat_ofNat', ceiling, UInt64.size]
  omega

end NonceSource

end FragmentRelay
