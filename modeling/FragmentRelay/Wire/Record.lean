import FragmentRelay.Fragment
import FragmentRelay.Wire.Reading

/-!
# Records: headers and fragments as byte strings

A record is a tag of four bytes and its fields in order. Encoding never fails. Decoding wants the
right tag, all fields within the size limit, and nothing after them.
-/

namespace FragmentRelay.Wire

/-- A tag has this many bytes. -/
def tagLength : Nat := 4

/-- A type of records: its tag and how its fields are written and read. -/
class Record (α : Type) where
  tag : Octets
  write : α → Octets
  read : Reading → Except Fault (α × Reading)

export Record (tag)

/-- A byte string after its length. -/
def writeOctets (bs : Octets) : Octets := writeNat bs.length ++ bs

/-- A header's tag is FCHD. -/
instance : Record Header where
  tag := [0x46, 0x43, 0x48, 0x44]
  write h :=
    writeNat h.cardinality.toNat ++ writeOctets h.checksum ++ writeNat h.nonce.toNat ++
      writeNat h.size.toNat
  read r := do
    let (cardinality, r) ← r.word32
    let (checksum, r) ← r.octets
    let (nonce, r) ← r.word64
    let (size, r) ← r.word64
    return ({ cardinality, checksum, nonce, size }, r)

/-- A fragment's tag is FCFR. -/
instance : Record Fragment where
  tag := [0x46, 0x43, 0x46, 0x52]
  write f :=
    writeNat f.index.toNat ++ writeNat f.cardinality.toNat ++ writeNat f.nonce.toNat ++
      writeOctets f.reassembledChecksum ++ writeOctets f.checksum ++ writeNat f.payloadSize.toNat ++
      writeOctets f.payload
  read r := do
    let (index, r) ← r.word32
    let (cardinality, r) ← r.word32
    let (nonce, r) ← r.word64
    let (reassembledChecksum, r) ← r.octets
    let (checksum, r) ← r.octets
    let (payloadSize, r) ← r.word64
    let (payload, r) ← r.octets
    return ({ index, cardinality, nonce, reassembledChecksum, checksum, payloadSize, payload }, r)

/-- A record as bytes: its tag, then its fields in their shortest form. -/
def encode {α : Type} [Record α] (r : α) : Octets := tag α ++ Record.write r

/-- The record that a byte string is. -/
def decode (α : Type) [Record α] (bs : Octets) : Except Fault α :=
  if bs.length < tagLength then .error (.unexpectedEnd (tagLength - bs.length))
  else if bs.take tagLength ≠ tag α then .error (.wrongTag (bs.take tagLength) (tag α))
  else
    match Record.read ⟨bs.drop tagLength, 0⟩ with
    | .error e => .error e
    | .ok (r, left) => if left.rest = [] then .ok r else .error (.trailing left.rest.length)

end FragmentRelay.Wire
