/-!
# Octets: byte strings and their plain forms

Payloads, records and stored values are byte strings. This module holds the type and its three
plain forms: hexadecimal text, little-endian numbers and UTF-8 text.

* `length_ofNatLE`: a number is written in as many bytes as asked for.
* `length_hexDigits`: two hexadecimal digits for each byte.
-/

namespace FragmentRelay

/-- A byte string, first byte first. -/
abbrev Octets := List UInt8

namespace Octets

/-! ### Hexadecimal text -/

/-- The lower-case hexadecimal digit of a number below sixteen. -/
def hexDigit (n : Nat) : Char :=
  if n < 10 then Char.ofNat (48 + n) else Char.ofNat (87 + n)

/-- The value of a hexadecimal digit in either case. -/
def hexValue? (c : Char) : Option Nat :=
  if c.isDigit then some (c.toNat - 48)
  else if 'a' ≤ c ∧ c ≤ 'f' then some (c.toNat - 87)
  else if 'A' ≤ c ∧ c ≤ 'F' then some (c.toNat - 55)
  else none

/-- Two hexadecimal digits for each byte, the high half first. -/
def hexDigits (bs : Octets) : List Char :=
  bs.flatMap fun b => [hexDigit (b.toNat / 16), hexDigit (b.toNat % 16)]

/-- The lower-case hexadecimal text of a byte string. -/
def hex (bs : Octets) : String := String.ofList bs.hexDigits

theorem length_hexDigits (bs : Octets) : bs.hexDigits.length = 2 * bs.length := by
  induction bs with
  | nil => rfl
  | cons b r ih =>
    simp only [hexDigits, List.flatMap_cons, List.length_append] at ih ⊢
    simp [ih]
    omega

/-! ### Little-endian numbers -/

/-- The lowest `width` bytes of a number, the lowest first. -/
def ofNatLE : Nat → Nat → Octets
  | 0, _ => []
  | width + 1, n => UInt8.ofNat n :: ofNatLE width (n / 256)

/-- The number that a byte string writes, the lowest byte first. -/
def toNatLE : Octets → Nat
  | [] => 0
  | b :: r => b.toNat + 256 * toNatLE r

@[simp] theorem length_ofNatLE (width n : Nat) : (ofNatLE width n).length = width := by
  induction width generalizing n with
  | zero => rfl
  | succ width ih => simp [ofNatLE, ih]

/-! ### Text -/

/-- The UTF-8 encoding of a text. -/
def ofText (s : String) : Octets := s.toByteArray.data.toList

/-- The text that a byte string encodes, if it is valid UTF-8. -/
def toText? (bs : Octets) : Option String := String.fromUTF8? ⟨bs.toArray⟩

end Octets

end FragmentRelay
