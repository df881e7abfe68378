import FragmentRelay.Wire.Varint

/-!
# Reading: fields taken from a record one after another

A reading holds the bytes that are left and the size claimed so far. Every field claims its size
before its bytes are looked at, four for a 32-bit number, eight for a 64-bit number or a length and
the length of a byte string, so that a forged length cannot make a reader hold more than
`maxRecordLength` bytes.
-/

namespace FragmentRelay.Wire

/-- The size that one record may claim. -/
def maxRecordLength : Nat := 64 * 1024 * 1024

/-- A record half read: the bytes left and the size claimed. -/
structure Reading where
  rest : Octets
  claimed : Nat
deriving DecidableEq

namespace Reading

/-- Claims a size, unless the claims would pass the limit. -/
def claim (size : Nat) (r : Reading) : Except Fault Reading :=
  if r.claimed + size ≤ maxRecordLength then .ok { r with claimed := r.claimed + size }
  else .error .limitExceeded

/-- Takes a 32-bit number. -/
def word32 (r : Reading) : Except Fault (UInt32 × Reading) := do
  let r ← r.claim 4
  let (n, rest) ← readNat32 r.rest
  return (UInt32.ofNat n, { r with rest })

/-- Takes a number of 64 bits as a natural number. -/
def nat64 (r : Reading) : Except Fault (Nat × Reading) := do
  let r ← r.claim 8
  let (n, rest) ← readNat64 r.rest
  return (n, { r with rest })

/-- Takes a 64-bit number. -/
def word64 (r : Reading) : Except Fault (UInt64 × Reading) := do
  let (n, r) ← r.nat64
  return (UInt64.ofNat n, r)

/-- Takes a byte string, its length first. -/
def octets (r : Reading) : Except Fault (Octets × Reading) := do
  let (length, r) ← r.nat64
  let r ← r.claim length
  let (front, rest) ← splitOctets length r.rest
  return (front, { r with rest })

end Reading

end FragmentRelay.Wire
