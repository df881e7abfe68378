import FragmentRelay.Octets
import FragmentRelay.Decimal
import FragmentRelay.Text.Blank

/-!
# Counters: whole numbers kept as text

A counter is a signed 64-bit number kept as decimal text. Reading forgives blanks around the number,
a sign and leading zeros; writing uses the one shortest form.
-/

namespace FragmentRelay.Counter

/-- The smallest counter. -/
def lowest : Int := -9223372036854775808

/-- The largest counter. -/
def highest : Int := 9223372036854775807

/-- The counter that a byte string writes, if it writes one. -/
def decode (bs : Octets) : Option Int :=
  match bs.toText? with
  | none => none
  | some s => (Decimal.int? (Text.trim s.toList)).filter fun v => decide (lowest ≤ v ∧ v ≤ highest)

/-- A counter as bytes. -/
def encode (v : Int) : Octets := Octets.ofText (String.ofList (Decimal.ofInt v))

end FragmentRelay.Counter
