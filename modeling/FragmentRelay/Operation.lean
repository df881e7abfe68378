import FragmentRelay.Defect

/-!
# Operations: one payload on its way

An operation is named by its nonce and the checksum of its whole payload; one of its fragments is
named by the index besides. The header announces an operation and says how many fragments and bytes
it has.
-/

namespace FragmentRelay

/-- The name of an operation or, with an index, of one of its fragments. -/
structure Identity where
  nonce : UInt64
  checksum : Checksum
  index : Option UInt32 := none
deriving DecidableEq

namespace Identity

/-- The name of the fragment with this index in the same operation. -/
def withIndex (i : Identity) (index : UInt32) : Identity := { i with index := some index }

/-- The name of the whole operation. -/
def operation (i : Identity) : Identity := { i with index := none }

end Identity

/-- The announcement of an operation. -/
structure Header where
  cardinality : UInt32
  checksum : Octets
  nonce : UInt64
  size : UInt64
deriving DecidableEq

namespace Header

/-- A header is sound if its checksum has sixteen bytes and it announces at least one fragment. -/
def validate (h : Header) : Except Defect Checksum :=
  match Checksum.ofRole? .header h.checksum with
  | .error d => .error d
  | .ok c => if h.cardinality = 0 then .error .zeroCardinality else .ok c

/-- The name of the announced operation. -/
def identity (h : Header) : Except Defect Identity :=
  match h.validate with
  | .error d => .error d
  | .ok c => .ok { nonce := h.nonce, checksum := c }

theorem validate_ok_iff {h : Header} {c : Checksum} :
    h.validate = .ok c ↔ c.octets = h.checksum ∧ h.cardinality ≠ 0 := by
  unfold validate Checksum.ofRole?
  by_cases hl : h.checksum.length = Checksum.size
  · simp only [Checksum.ofOctets?, hl, dif_pos]
    by_cases hc : h.cardinality = 0
    · simp [hc]
    · simp only [hc, if_false, Except.ok.injEq, ne_eq, not_false_eq_true, and_true]
      exact ⟨fun e => by rw [← e], fun e => Checksum.ext_octets e.symm⟩
  · simp only [Checksum.ofOctets?_error hl]
    constructor
    · intro e; cases e
    · rintro ⟨e, -⟩; exact absurd (e ▸ c.length_eq) hl

theorem identity_ok_iff {h : Header} {i : Identity} :
    h.identity = .ok i ↔ h.validate = .ok i.checksum ∧ i.nonce = h.nonce ∧ i.index = none := by
  unfold identity
  cases hv : h.validate with
  | error d => simp
  | ok c =>
    obtain ⟨n, k, x⟩ := i
    simp only [Except.ok.injEq, Identity.mk.injEq]
    exact ⟨fun ⟨a, b, c⟩ => ⟨b, a.symm, c.symm⟩, fun ⟨a, b, c⟩ => ⟨b.symm, a, c.symm⟩⟩

end Header

/-- An operation and, once it is known here, its payload. -/
structure Operation where
  header : Header
  payload : Option Octets := none
deriving DecidableEq

end FragmentRelay
