import FragmentRelay.Checksum

/-!
# Defects: what can be wrong with a record on its own

A header or a fragment is checked without looking at anything else: its checksums must have sixteen
bytes, its cardinality must not be zero, and a fragment's index and declared size must fit.
-/

namespace FragmentRelay

/-- The checksum a record carries the wrong number of bytes for. -/
inductive ChecksumRole where
  | header
  | fragment
  | reassembled
deriving DecidableEq, Repr

/-- The word for a checksum's role. -/
def ChecksumRole.word : ChecksumRole → String
  | header => "header"
  | fragment => "fragment"
  | reassembled => "reassembled"

/-- What is wrong with a record. -/
inductive Defect where
  | checksumLength (role : ChecksumRole) (source : Checksum.LengthError)
  | zeroCardinality
  | indexOutOfRange (index cardinality : UInt32)
  | payloadSizeMismatch (declared : UInt64) (actual : Nat)
deriving DecidableEq, Repr

/-- The text of a defect. -/
def Defect.message : Defect → String
  | checksumLength role source => s!"{role.word} checksum is malformed: {source.message}"
  | zeroCardinality => "cardinality must be greater than zero"
  | indexOutOfRange index cardinality =>
    s!"fragment index {index.toNat} out of range for cardinality {cardinality.toNat}"
  | payloadSizeMismatch declared actual =>
    s!"fragment declares {declared.toNat} payload bytes but carries {actual}"

/-- Raw bytes as the checksum of the given role. -/
def Checksum.ofRole? (role : ChecksumRole) (bs : Octets) : Except Defect Checksum :=
  match Checksum.ofOctets? bs with
  | .ok c => .ok c
  | .error e => .error (.checksumLength role e)

end FragmentRelay
