import FragmentRelay.Blake3

/-!
# Checksums: sixteen bytes that stand for a payload

A checksum is the first half of the BLAKE3 digest of a payload. Records carry it as a byte string of
any length; only one of exactly sixteen bytes is a checksum.

* `ofOctets?_error`: raw bytes of any other length are no checksum.
* `verify_iff`: a payload matches a checksum exactly if the checksum is computed from it.
-/

namespace FragmentRelay

/-- Every checksum has this many bytes. -/
def Checksum.size : Nat := 16

/-- A checksum: exactly sixteen bytes. -/
structure Checksum where
  octets : Octets
  length_eq : octets.length = Checksum.size
deriving DecidableEq

namespace Checksum

/-- Raw bytes of the wrong length: how many there were. -/
structure LengthError where
  found : Nat
deriving DecidableEq, Repr

/-- The text of a length error. -/
def LengthError.message (e : LengthError) : String :=
  s!"checksum must be {size} bytes, found {e.found}"

/-- The checksum of a payload: the first sixteen bytes of its digest. -/
def compute (payload : Octets) : Checksum :=
  ⟨(Blake3.hash payload).take size, by simp [size]⟩

/-- Whether a payload has this checksum. -/
def verify (c : Checksum) (payload : Octets) : Bool := compute payload == c

/-- Raw bytes as a checksum, if there are sixteen of them. -/
def ofOctets? (bs : Octets) : Except LengthError Checksum :=
  if h : bs.length = size then .ok ⟨bs, h⟩ else .error ⟨bs.length⟩

/-- The lower-case hexadecimal text. -/
def hex (c : Checksum) : String := c.octets.hex

theorem ext_octets {c d : Checksum} (h : c.octets = d.octets) : c = d := by
  cases c; cases d; cases h; rfl

theorem ofOctets?_error {bs : Octets} (h : bs.length ≠ size) :
    ofOctets? bs = .error ⟨bs.length⟩ := by
  simp [ofOctets?, h]

theorem verify_iff (c : Checksum) (payload : Octets) :
    c.verify payload = true ↔ compute payload = c := by
  simp [verify]

end Checksum

end FragmentRelay
