import FragmentRelay.Proofs.Batch.Cut

/-!
# Valid: what the check of settings promises

Settings that pass their check have a chunk size that is not zero and leaves room for the other
fields of a record, two different subjects, groups that hand out every delivery at least once, and a
slot for each header worker. Of what they cut, receivers accept everything: the records can be read
again, are sound, and name the same operation on both subjects.

* `Settings.valid_of_validate`: what the check gives.
* `Settings.valid_records_accepted`: what receivers make of the records.
-/

namespace FragmentRelay

namespace Settings

variable {s : Settings}

/-- What settings that pass their check satisfy. -/
structure Valid (s : Settings) : Prop where
  chunk_pos : 0 < s.chunkSize.toNat
  chunk_le : s.chunkSize.toNat ≤ maxChunkSize
  subjects_ne : s.subjects.reassembly ≠ s.subjects.fragmentIngest
  ingest_deliveries : 1 ≤ s.ingest.maxDeliveries.toNat
  reassembly_deliveries : 1 ≤ s.reassembly.maxDeliveries.toNat
  reassembly_slots : 0 < s.reassembly.maxInFlight.toNat

theorem rules_of_validate (h : s.validate = .ok ()) : ∀ r ∈ s.rules, r.1 = true := by
  unfold validate at h
  split at h
  · rename_i hnone
    intro r hr
    simpa using List.find?_eq_none.1 hnone r hr
  · cases h

theorem valid_of_validate (h : s.validate = .ok ()) : s.Valid := by
  have hall := rules_of_validate h
  simp only [rules, List.forall_mem_cons, bne_iff_ne, ne_eq, Bool.and_eq_true,
    decide_eq_true_eq] at hall
  obtain ⟨hpos, hle, -, hsubjects, -, ⟨-, hslots⟩, ⟨hingest, hreassembly⟩, -⟩ := hall
  rw [← UInt64.toNat_inj] at hpos hslots
  rw [← UInt32.toNat_inj] at hingest hreassembly
  exact ⟨Nat.pos_of_ne_zero hpos, hle, hsubjects, Nat.pos_of_ne_zero hingest,
    Nat.pos_of_ne_zero hreassembly, Nat.pos_of_ne_zero hslots⟩

theorem Valid.splitter_ok (h : s.Valid) :
    ∃ cutter : Splitter, s.splitter = .ok cutter ∧ cutter.chunk = s.chunkSize.toNat :=
  ⟨_, dif_pos h.chunk_pos, rfl⟩

end Settings

namespace Batch.Cut

variable {b : Batch} {payload : Octets} {f : Fragment}

theorem validate_header (h : b.Cut payload) : b.header.validate = .ok (Checksum.compute payload) :=
  (Header.identity_ok_iff.1 h.identity_ok).1

theorem exists_checksums (h : b.Cut payload) (hf : f ∈ b.fragments) :
    ∃ sums, f.validate = .ok sums ∧ sums.fragment.verify f.payload = true := by
  obtain ⟨sums, hs⟩ := (h.genuine hf).sound
  exact ⟨sums, hs, (Reassembler.verify_own_iff hs).2 (h.genuine hf).own_eq⟩

end Batch.Cut

/-- **What is cut with valid settings is accepted.** Every record is read again from its bytes and
is sound, and each fragment names the operation that the header names, with the same keys. -/
theorem Settings.valid_records_accepted {s : Settings} (hvalid : s.validate = .ok ())
    (nonce : UInt64) {payload : Octets}
    (hcount : Batch.slotCount s.chunkSize.toNat payload.length ≤ maxCardinality) :
    ∃ (cutter : Splitter) (b : Batch) (i : Identity),
      s.splitter = .ok cutter ∧ cutter.chunk = s.chunkSize.toNat ∧
      Batch.ofPayload cutter.chunk nonce payload = .ok b ∧
      Wire.decode Header (Wire.encode b.header) = .ok b.header ∧
      b.header.validate = .ok i.checksum ∧ b.header.identity = .ok i ∧
      (∀ x < b.header.cardinality, ∃ f ∈ b.fragments, f.index = x) ∧
      ∀ f ∈ b.fragments,
        Wire.decode Fragment (Wire.encode f) = .ok f ∧
        (∃ sums, f.validate = .ok sums ∧ sums.fragment.verify f.payload = true) ∧
        ∃ j, f.identity = .ok j ∧ j.operation = i ∧ s.keys.countKey j = s.keys.countKey i ∧
          ∀ x, s.keys.persistenceKey j x = s.keys.persistenceKey i x := by
  have hsettings := valid_of_validate hvalid
  obtain ⟨cutter, hcutter, hchunk⟩ := hsettings.splitter_ok
  obtain ⟨b, hb, hcut, -⟩ := Batch.ofPayload_cut hsettings.chunk_pos hsettings.chunk_le nonce hcount
  refine ⟨cutter, b, b.identityOf payload, hcutter, hchunk, hchunk ▸ hb, hcut.decode_encode_header,
    hcut.validate_header, hcut.identity_ok, fun x hx => (hcut.mem_iff x).2 hx, fun f hf => ?_⟩
  exact ⟨hcut.decode_encode hf, hcut.exists_checksums hf, _, (hcut.belongsTo hf).identity_eq, rfl,
    rfl, fun _ => rfl⟩

theorem Settings.narrow_records_accepted :
    ∃ (cutter : Splitter) (b : Batch), ({ chunkSize := 2 } : Settings).splitter = .ok cutter ∧
      Batch.ofPayload cutter.chunk 5 [1, 2, 3] = .ok b ∧
      Wire.decode Header (Wire.encode b.header) = .ok b.header ∧
      ∀ f ∈ b.fragments, Wire.decode Fragment (Wire.encode f) = .ok f := by
  have hvalid : ({ chunkSize := 2 } : Settings).validate = .ok () := by decide
  have hcount : Batch.slotCount 2 ([1, 2, 3] : Octets).length ≤ maxCardinality := by decide
  obtain ⟨cutter, b, i, hcutter, -, hb, hheader, -, -, -, hfragments⟩ :=
    valid_records_accepted hvalid 5 hcount
  exact ⟨cutter, b, hcutter, hb, hheader, fun f hf => (hfragments f hf).1⟩

end FragmentRelay
