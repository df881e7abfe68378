import FragmentRelay.Octets

/-!
# Indices: the places of fragments in an operation

Indices are 32-bit numbers from zero up to the cardinality, which does not belong to them.
-/

namespace FragmentRelay.Index

/-- A number that is too large for an index. -/
structure TooLarge where
  number : Nat
deriving DecidableEq, Repr

/-- The text of the error. -/
def TooLarge.message (_ : TooLarge) : String := "number too large to fit in target type"

/-- A number as an index, if it has 32 bits. -/
def ofNat? (n : Nat) : Except TooLarge UInt32 :=
  if n < UInt32.size then .ok (UInt32.ofNat n) else .error ⟨n⟩

/-- The first indices below a cardinality, at most as many as the count says. -/
def first (count : Nat) (cardinality : UInt32) : List UInt32 :=
  (List.range (min count cardinality.toNat)).map UInt32.ofNat

end FragmentRelay.Index
