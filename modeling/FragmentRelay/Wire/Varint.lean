import FragmentRelay.Wire.Fault

/-!
# Varints: whole numbers in one, three, five or nine bytes

A number below 251 is its own byte. Larger ones follow a marker byte: 251 before two bytes, 252
before four and 253 before eight, the lowest first. Writing picks the shortest form; reading accepts
any form that the field's width allows, so a number may have several forms.
-/

namespace FragmentRelay.Wire

/-! ### Writing -/

/-- The shortest form of a number below 2^64. -/
def writeNat (n : Nat) : Octets :=
  if n < 251 then [UInt8.ofNat n]
  else if n < UInt16.size then 251 :: Octets.ofNatLE 2 n
  else if n < UInt32.size then 252 :: Octets.ofNatLE 4 n
  else 253 :: Octets.ofNatLE 8 n

/-! ### Reading -/

/-- The first bytes of an input and the rest, if there are enough of them. -/
def splitOctets (count : Nat) (bs : Octets) : Except Fault (Octets × Octets) :=
  if count ≤ bs.length then .ok (bs.take count, bs.drop count)
  else .error (.unexpectedEnd (count - bs.length))

/-- A number written in a fixed count of bytes. -/
def readFixed (count : Nat) (bs : Octets) : Except Fault (Nat × Octets) :=
  match splitOctets count bs with
  | .ok (front, rest) => .ok (front.toNatLE, rest)
  | .error e => .error e

/-- What a marker byte above 252 promises. -/
def markerWidth (b : UInt8) : Width :=
  if b = 253 then .w64 else if b = 254 then .w128 else .reserved

/-- A number of at most 32 bits: its marker must not promise more. -/
def readNat32 : Octets → Except Fault (Nat × Octets)
  | [] => .error (.unexpectedEnd 1)
  | b :: rest =>
    if b < 251 then .ok (b.toNat, rest)
    else if b = 251 then readFixed 2 rest
    else if b = 252 then readFixed 4 rest
    else .error (.badInteger .w32 (markerWidth b))

/-- A number of at most 64 bits. A marker that promises more is reported against 32 bits if nine
bytes are left, its own included, and against 64 bits otherwise. -/
def readNat64 : Octets → Except Fault (Nat × Octets)
  | [] => .error (.unexpectedEnd 1)
  | b :: rest =>
    if b < 251 then .ok (b.toNat, rest)
    else if b = 251 then readFixed 2 rest
    else if b = 252 then readFixed 4 rest
    else if b = 253 then readFixed 8 rest
    else .error (.badInteger (if 8 ≤ rest.length then .w32 else .w64) (markerWidth b))

end FragmentRelay.Wire
