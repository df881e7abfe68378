import FragmentRelay.Operation

/-!
# Fragments: one slot of a payload

A fragment carries its slot's bytes with their own checksum, and repeats what it needs to be placed:
the nonce, the cardinality and the checksum of the whole payload.
-/

namespace FragmentRelay

/-- One slot of a payload. -/
structure Fragment where
  index : UInt32
  cardinality : UInt32
  nonce : UInt64
  reassembledChecksum : Octets
  checksum : Octets
  payloadSize : UInt64
  payload : Octets
deriving DecidableEq

/-- The two checksums of a sound fragment: that of its slot and that of the whole payload. -/
structure FragmentChecksums where
  fragment : Checksum
  reassembled : Checksum
deriving DecidableEq

namespace Fragment

/-- A fragment is sound if both checksums have sixteen bytes, its index lies below its cardinality
and its payload has the declared size. -/
def validate (f : Fragment) : Except Defect FragmentChecksums :=
  match Checksum.ofRole? .fragment f.checksum with
  | .error d => .error d
  | .ok own =>
    match Checksum.ofRole? .reassembled f.reassembledChecksum with
    | .error d => .error d
    | .ok whole =>
      if f.cardinality = 0 then .error .zeroCardinality
      else if f.cardinality ≤ f.index then .error (.indexOutOfRange f.index f.cardinality)
      else if f.payload.length ≠ f.payloadSize.toNat then
        .error (.payloadSizeMismatch f.payloadSize f.payload.length)
      else .ok ⟨own, whole⟩

/-- The name of a fragment. -/
def identity (f : Fragment) : Except Defect Identity :=
  match Checksum.ofRole? .reassembled f.reassembledChecksum with
  | .error d => .error d
  | .ok whole => .ok { nonce := f.nonce, checksum := whole, index := some f.index }

/-- What a sound fragment satisfies. -/
structure Sound (f : Fragment) (own whole : Checksum) : Prop where
  own_octets : own.octets = f.checksum
  whole_octets : whole.octets = f.reassembledChecksum
  index_lt : f.index < f.cardinality
  length_eq : f.payload.length = f.payloadSize.toNat

theorem ofRole?_ok_iff {role : ChecksumRole} {bs : Octets} {c : Checksum} :
    Checksum.ofRole? role bs = .ok c ↔ c.octets = bs := by
  unfold Checksum.ofRole?
  by_cases hl : bs.length = Checksum.size
  · simp only [Checksum.ofOctets?, hl, dif_pos, Except.ok.injEq]
    exact ⟨fun e => by rw [← e], fun e => Checksum.ext_octets e.symm⟩
  · simp only [Checksum.ofOctets?_error hl]
    constructor
    · intro e; cases e
    · intro e; exact absurd (e ▸ c.length_eq) hl

/-- **A fragment passes the check exactly if it is sound.** -/
theorem validate_ok_iff {f : Fragment} {s : FragmentChecksums} :
    f.validate = .ok s ↔ f.Sound s.fragment s.reassembled := by
  unfold validate
  cases ho : Checksum.ofRole? .fragment f.checksum with
  | error d =>
    simp only [reduceCtorEq, false_iff]
    exact fun h => by simp [ofRole?_ok_iff.2 h.own_octets] at ho
  | ok own =>
    cases hw : Checksum.ofRole? .reassembled f.reassembledChecksum with
    | error d =>
      simp only [reduceCtorEq, false_iff]
      exact fun h => by simp [ofRole?_ok_iff.2 h.whole_octets] at hw
    | ok whole =>
      have ho' := ofRole?_ok_iff.1 ho
      have hw' := ofRole?_ok_iff.1 hw
      simp only
      split
      · rename_i hz
        simp only [reduceCtorEq, false_iff]
        intro h
        have := h.index_lt
        rw [hz] at this
        exact absurd this (by simp [UInt32.lt_iff_toNat_lt])
      · split
        · rename_i hi
          simp only [reduceCtorEq, false_iff]
          intro h
          have := h.index_lt
          rw [UInt32.le_iff_toNat_le] at hi
          rw [UInt32.lt_iff_toNat_lt] at this
          omega
        · split
          · rename_i hp
            simp only [reduceCtorEq, false_iff]
            exact fun h => hp h.length_eq
          · rename_i hi hp
            rw [UInt32.le_iff_toNat_le] at hi
            simp only [Except.ok.injEq]
            constructor
            · rintro rfl
              exact ⟨ho', hw', UInt32.lt_iff_toNat_lt.2 (by omega), by omega⟩
            · intro h
              obtain ⟨own', whole'⟩ := s
              have e1 : own = own' := Checksum.ext_octets (ho'.trans h.own_octets.symm)
              have e2 : whole = whole' := Checksum.ext_octets (hw'.trans h.whole_octets.symm)
              rw [e1, e2]

end Fragment

end FragmentRelay
