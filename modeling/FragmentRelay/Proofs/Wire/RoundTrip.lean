import FragmentRelay.Proofs.Wire.Fields

/-!
# Round trips: records that are written and read again

A record claims a fixed size for its numbers and the length of each of its byte strings. A record
whose claims stay within `maxRecordLength` is read back from its encoding, and no other record is.

* `decode_of_forms_append`, `decode_of_forms`: a tag and forms of the fields of a record are read as
  that record, up to the limit, if nothing follows them.
* `exists_forms_of_decode`: whatever is read was written so.
* `round_trip_up_to_limit`: headers and fragments are read back exactly up to the limit.
-/

namespace FragmentRelay

/-- The size that a header claims when it is read. -/
def Header.claimed (h : Header) : Nat := 28 + h.checksum.length

/-- The size that a fragment claims when it is read. -/
def Fragment.claimed (f : Fragment) : Nat :=
  48 + f.reassembledChecksum.length + f.checksum.length + f.payload.length

namespace Wire

/-! ### Records in any form -/

section Records

variable {α : Type} [Record α] [Layout α] {a : α}

theorem decode_tag_append (body : Octets) :
    decode α (tag α ++ body) =
      Record.read ⟨body, 0⟩ >>= fun p => if p.2.rest = [] then .ok p.1
        else .error (.trailing p.2.rest.length) := by
  have htag : (tag α).length = tagLength := Layout.length_tag
  have hlong : ¬ (tag α ++ body).length < tagLength := by simp [htag]
  have ht : (tag α ++ body).take tagLength = tag α := by rw [← htag, List.take_left]
  have hd : (tag α ++ body).drop tagLength = body := by rw [← htag, List.drop_left]
  simp only [decode, if_neg hlong, ht, hd, ne_eq, not_true_eq_false, if_false]
  cases Record.read (α := α) ⟨body, 0⟩ <;> rfl

/-- **A tag and forms of the fields of a record are read as that record, up to the limit, if nothing
follows them.** -/
theorem decode_of_forms_append {parts : List Octets} (h : List.Forall₂ Form (Layout.fields a) parts)
    (rest : Octets) :
    decode α (tag α ++ (parts.flatten ++ rest)) =
      if claimedBy (Layout.fields a) ≤ maxRecordLength then
        if rest = [] then .ok a else .error (.trailing rest.length)
      else .error .limitExceeded := by
  have hread := Layout.read_eq (α := α) ⟨parts.flatten ++ rest, 0⟩
  have hfields := Reading.fields_of_forms h rest (Nat.zero_le maxRecordLength)
  rw [Layout.kinds_fields, Nat.zero_add, hread] at hfields
  rw [decode_tag_append]
  by_cases hle : claimedBy (Layout.fields a) ≤ maxRecordLength
  · rw [if_pos hle] at hfields ⊢
    obtain ⟨⟨a', left⟩, hok, he⟩ := Reading.map_eq_ok.1 hfields
    obtain ⟨ha, rfl⟩ := Prod.mk.inj he
    obtain rfl : a' = a := Layout.fields_injective ha
    rw [hok]
    rfl
  · rw [if_neg hle] at hfields ⊢
    rw [Reading.map_eq_error.1 hfields]
    rfl

theorem decode_of_forms {parts : List Octets} (h : List.Forall₂ Form (Layout.fields a) parts) :
    decode α (tag α ++ parts.flatten) =
      if claimedBy (Layout.fields a) ≤ maxRecordLength then .ok a else .error .limitExceeded := by
  have happend := decode_of_forms_append h []
  rwa [List.append_nil, if_pos rfl] at happend

/-- **Whatever is read was written as a tag and forms of its fields, and lies within the limit.** -/
theorem exists_forms_of_decode {bs : Octets} (h : decode α bs = .ok a) :
    (∃ parts, bs = tag α ++ parts.flatten ∧ List.Forall₂ Form (Layout.fields a) parts) ∧
      claimedBy (Layout.fields a) ≤ maxRecordLength := by
  unfold decode at h
  split_ifs at h with hshort htag
  split at h
  · cases h
  · rename_i a' left hread
    split_ifs at h with hleft
    cases h
    have hfields : Reading.fields (Layout.kinds α) ⟨bs.drop tagLength, 0⟩ =
        .ok (Layout.fields a, left) := by
      rw [Layout.read_eq, hread]
      rfl
    obtain ⟨⟨parts, hparts, hforms⟩, hclaimed, hle⟩ := Reading.exists_forms hfields (Nat.zero_le _)
    rw [hleft, List.append_nil] at hparts
    refine ⟨⟨parts, ?_, hforms⟩, ?_⟩
    · rw [← hparts, ← not_not.1 htag, List.take_append_drop]
    · rwa [hclaimed, Nat.zero_add] at hle

theorem encode_eq : encode a = tag α ++ ((Layout.fields a).map Field.write).flatten := by
  rw [encode, Layout.write_eq]

theorem write_forms {fs : List Field} (h : ∀ x ∈ fs, x.Addressable) :
    List.Forall₂ Form fs (fs.map Field.write) := by
  rw [List.forall₂_map_right_iff, List.forall₂_same]
  exact fun x hx => Field.write_form (h x hx)

theorem decode_encode_of_addressable (h : ∀ x ∈ Layout.fields a, x.Addressable) :
    decode α (encode a) =
      if claimedBy (Layout.fields a) ≤ maxRecordLength then .ok a else .error .limitExceeded := by
  rw [encode_eq, decode_of_forms (write_forms h)]

end Records

/-! ### Headers and fragments -/

theorem claimedBy_header (h : Header) : claimedBy (Layout.fields h) = h.claimed := by
  simp only [Layout.fields, claimedBy, Field.claimed, Header.claimed]
  omega

theorem claimedBy_fragment (f : Fragment) : claimedBy (Layout.fields f) = f.claimed := by
  simp only [Layout.fields, claimedBy, Field.claimed, Fragment.claimed]
  omega

theorem addressable_of_claimedBy {fs : List Field} (h : claimedBy fs ≤ maxRecordLength) :
    ∀ x ∈ fs, x.Addressable := by
  have hlimit : maxRecordLength < UInt64.size := by decide
  induction fs with
  | nil => exact fun x hx => absurd hx List.not_mem_nil
  | cons f fs ih =>
    rw [claimedBy] at h
    intro x hx
    rcases List.mem_cons.1 hx with rfl | hx
    · cases x with
      | word32 n => trivial
      | word64 n => trivial
      | octets bs =>
        rw [Field.claimed] at h
        exact Nat.lt_of_le_of_lt (by omega) hlimit
    · exact ih (by omega) x hx

theorem decode_encode_header {h : Header} (hc : h.claimed ≤ maxRecordLength) :
    decode Header (encode h) = .ok h := by
  rw [← claimedBy_header] at hc
  rw [decode_encode_of_addressable (addressable_of_claimedBy hc), if_pos hc]

theorem decode_encode_of_identity {h : Header} {i : Identity} (hi : h.identity = .ok i) :
    decode Header (encode h) = .ok h := by
  obtain ⟨hv, -, -⟩ := Header.identity_ok_iff.1 hi
  refine decode_encode_header ?_
  rw [Header.claimed, ← (Header.validate_ok_iff.1 hv).1, i.checksum.length_eq]
  decide

theorem decode_encode_fragment {f : Fragment} (hc : f.claimed ≤ maxRecordLength) :
    decode Fragment (encode f) = .ok f := by
  rw [← claimedBy_fragment] at hc
  rw [decode_encode_of_addressable (addressable_of_claimedBy hc), if_pos hc]

/-- **Decoding undoes encoding exactly up to the limit.** A record that claims more is refused for
its size, provided that its byte strings have lengths of 64 bits; within the limit they always
do. -/
theorem round_trip_up_to_limit :
    (∀ h : Header, decode Header (encode h) = .ok h ↔ h.claimed ≤ maxRecordLength) ∧
    (∀ f : Fragment, decode Fragment (encode f) = .ok f ↔ f.claimed ≤ maxRecordLength) ∧
    (∀ h : Header, (∀ x ∈ Layout.fields h, x.Addressable) → maxRecordLength < h.claimed →
      decode Header (encode h) = .error .limitExceeded) ∧
    ∀ f : Fragment, (∀ x ∈ Layout.fields f, x.Addressable) → maxRecordLength < f.claimed →
      decode Fragment (encode f) = .error .limitExceeded := by
  refine ⟨fun h => ⟨fun hd => ?_, decode_encode_header⟩,
    fun f => ⟨fun hd => ?_, decode_encode_fragment⟩, fun h hx hlt => ?_, fun f hx hlt => ?_⟩
  · rw [← claimedBy_header]
    exact (exists_forms_of_decode hd).2
  · rw [← claimedBy_fragment]
    exact (exists_forms_of_decode hd).2
  · rw [← claimedBy_header] at hlt
    rw [decode_encode_of_addressable hx, if_neg (Nat.not_le.2 hlt)]
  · rw [← claimedBy_fragment] at hlt
    rw [decode_encode_of_addressable hx, if_neg (Nat.not_le.2 hlt)]

/-- A header with a checksum of some length. -/
def headerOfLength (n : Nat) : Header := ⟨2, List.replicate n 0, 5, 3⟩

/-- A fragment with a payload of some length. -/
def fragmentOfLength (n : Nat) : Fragment := ⟨0, 2, 5, [], [], 3, List.replicate n 0⟩

theorem claimed_headerOfLength (n : Nat) : (headerOfLength n).claimed = 28 + n := by
  rw [Header.claimed, headerOfLength, List.length_replicate]

theorem claimed_fragmentOfLength (n : Nat) : (fragmentOfLength n).claimed = 48 + n := by
  rw [Fragment.claimed, fragmentOfLength, List.length_replicate]
  rfl

theorem addressable_headerOfLength {n : Nat} (h : n < UInt64.size) :
    ∀ x ∈ Layout.fields (headerOfLength n), x.Addressable := by
  simpa [Layout.fields, headerOfLength, Field.Addressable] using h

theorem addressable_fragmentOfLength {n : Nat} (h : n < UInt64.size) :
    ∀ x ∈ Layout.fields (fragmentOfLength n), x.Addressable := by
  simpa [Layout.fields, fragmentOfLength, Field.Addressable] using h

theorem longRecords_refused :
    (maxRecordLength < (headerOfLength (maxRecordLength - 27)).claimed ∧
      (∀ x ∈ Layout.fields (headerOfLength (maxRecordLength - 27)), x.Addressable) ∧
      decode Header (encode (headerOfLength (maxRecordLength - 27))) = .error .limitExceeded) ∧
    maxRecordLength < (fragmentOfLength (maxRecordLength - 47)).claimed ∧
      (∀ x ∈ Layout.fields (fragmentOfLength (maxRecordLength - 47)), x.Addressable) ∧
      decode Fragment (encode (fragmentOfLength (maxRecordLength - 47))) =
        .error .limitExceeded := by
  have hh : maxRecordLength < (headerOfLength (maxRecordLength - 27)).claimed := by
    rw [claimed_headerOfLength]
    decide
  have hf : maxRecordLength < (fragmentOfLength (maxRecordLength - 47)).claimed := by
    rw [claimed_fragmentOfLength]
    decide
  have hx := addressable_headerOfLength (n := maxRecordLength - 27) (by decide)
  have hy := addressable_fragmentOfLength (n := maxRecordLength - 47) (by decide)
  exact ⟨⟨hh, hx, round_trip_up_to_limit.2.2.1 _ hx hh⟩, hf, hy,
    round_trip_up_to_limit.2.2.2 _ hy hf⟩

end Wire

end FragmentRelay
