import FragmentRelay.Proofs.Ingest.Effect
import FragmentRelay.Proofs.Reassembly.Soundness
import FragmentRelay.Proofs.Wire.RoundTrip
import FragmentRelay.Settings.Basic

/-!
# Cut: what the fragments of a cut payload satisfy

A payload is cut with a chunk size that leaves room for the other fields of a record, and into no
more fragments than an index can count. Then every fragment fits its slot, can be written and read
again, and the slots together are the payload. All later results about batches use these facts
(`Cut`) and not the way in which they are cut.

* `ofPayload_cut`: a payload can be cut, and what comes out satisfies `Cut`.
* `Cut.mem_iff`: the fragments of a batch and the indices below its cardinality correspond.
-/

namespace FragmentRelay

namespace Batch

/-! ### Slots -/

theorem length_le_slotCount {chunk : Nat} (h : 0 < chunk) (length : Nat) :
    length ≤ slotCount chunk length * chunk := by
  have hd := Nat.div_add_mod (length + chunk - 1) chunk
  have hm := Nat.mod_lt (length + chunk - 1) h
  have hle : (length + chunk - 1) / chunk * chunk ≤ slotCount chunk length * chunk :=
    Nat.mul_le_mul_right chunk (Nat.le_max_right _ _)
  rw [Nat.mul_comm] at hd
  omega

theorem length_le_of_mem_chunks {chunk count : Nat} {bs bytes : Octets}
    (h : bytes ∈ chunks chunk count bs) : bytes.length ≤ chunk := by
  induction count generalizing bs with
  | zero => cases h
  | succ count ih =>
    rcases List.mem_cons.1 h with rfl | h
    · exact List.length_take_le _ _
    · exact ih h

theorem length_flatten_le {n : Nat} {bss : List Octets} (h : ∀ bytes ∈ bss, bytes.length ≤ n) :
    bss.flatten.length ≤ bss.length * n := by
  induction bss with
  | nil => exact Nat.zero_le _
  | cons bytes bss ih =>
    have hhead := h bytes List.mem_cons_self
    have htail := ih fun bs hbs => h bs (List.mem_cons_of_mem _ hbs)
    rw [List.flatten_cons, List.length_append, List.length_cons, Nat.succ_mul]
    omega

/-- The name of the operation that a payload is sent under. -/
def identityOf (b : Batch) (payload : Octets) : Identity :=
  { nonce := b.header.nonce, checksum := Checksum.compute payload }

/-! ### Batches -/

/-- What a batch that was cut from a payload satisfies. -/
structure Cut (b : Batch) (payload : Octets) : Prop where
  positive : 0 < b.fragments.length
  cardinality_eq : b.header.cardinality.toNat = b.fragments.length
  checksum_eq : b.header.checksum = (Checksum.compute payload).octets
  size_eq : b.header.size.toNat = payload.length
  joined_eq : Reassembler.joined b.fragments = payload
  fits : ∀ n f, b.fragments[n]? = some f → Reassembler.Fits b.header (UInt32.ofNat n) f
  claimed_le : ∀ f ∈ b.fragments, f.claimed ≤ Wire.maxRecordLength

/-- Slots that leave room for the other fields of a record hold a payload whose length a header can
tell. -/
theorem length_lt_of_slots {chunk count : Nat} {payload : Octets} (hcount : count ≤ maxCardinality)
    (hlen : payload.length ≤ count * chunk)
    (hcell : ∀ bytes ∈ chunks chunk count payload, 80 + bytes.length ≤ Wire.maxRecordLength) :
    payload.length < UInt64.size := by
  have hroom : Wire.maxRecordLength = 67108864 := rfl
  have hcard : maxCardinality = 4294967295 := rfl
  have hsum : (chunks chunk count payload).flatten.length ≤
      (chunks chunk count payload).length * 67108864 := by
    refine length_flatten_le fun bytes hb => ?_
    have := hcell bytes hb
    omega
  rw [flatten_chunks hlen, length_chunks] at hsum
  have hmul := Nat.mul_le_mul_right 67108864 hcount
  have hsize : UInt64.size = 18446744073709551616 := rfl
  omega

/-- A payload is cut into fitting fragments if no index is too large and every slot leaves room in
its record. -/
theorem cut_of_slots {chunk : Nat} (hpos : 0 < chunk) (nonce : UInt64) {payload : Octets}
    (hcount : slotCount chunk payload.length ≤ maxCardinality)
    (hcell : ∀ bytes ∈ chunks chunk (slotCount chunk payload.length) payload,
      80 + bytes.length ≤ Wire.maxRecordLength) :
    ∃ b, ofPayload chunk nonce payload = .ok b ∧ b.Cut payload ∧ b.header.nonce = nonce := by
  have hroom : Wire.maxRecordLength = 67108864 := rfl
  have hcard : maxCardinality = 4294967295 := rfl
  have hlen := length_le_slotCount hpos payload.length
  have hsmall := length_lt_of_slots hcount hlen hcell
  simp only [UInt64.size] at hsmall
  have hone : 1 ≤ slotCount chunk payload.length := Nat.le_max_left _ _
  simp only [ofPayload, Nat.not_lt.2 hcount, if_false]
  generalize slotCount chunk payload.length = count at hcount hlen hone hcell
  refine ⟨_, rfl, ⟨?_, ?_, rfl, ?_, ?_, ?_, ?_⟩, rfl⟩
  · simp only [List.length_map, List.length_zipIdx, length_chunks]
    exact hone
  · simp only [header, headerOf, List.length_map, List.length_zipIdx, length_chunks,
      UInt32.toNat_ofNat']
    omega
  · simp only [header, headerOf, UInt64.toNat_ofNat']
    omega
  · simp only [Reassembler.joined, List.map_map]
    have : ((fun f : Fragment => f.payload) ∘ fun p : Octets × Nat =>
      slot (headerOf nonce count payload) p.1 p.2) =
        Prod.fst := rfl
    rw [this, List.zipIdx_map_fst, flatten_chunks hlen]
  · intro n f hf
    simp only [List.getElem?_map, List.getElem?_zipIdx, Option.map_eq_some_iff] at hf
    obtain ⟨⟨bytes, n'⟩, ⟨bytes', hb, he⟩, rfl⟩ := hf
    cases he
    rw [Nat.zero_add]
    have hn : n < count := by
      have := (List.getElem?_eq_some_iff.1 hb).1
      rwa [length_chunks] at this
    have hl := hcell bytes (List.mem_of_getElem? hb)
    refine ⟨⟨⟨Checksum.compute bytes, Checksum.compute payload⟩,
      Fragment.validate_ok_iff.2 ⟨rfl, rfl, ?_, ?_⟩⟩, rfl, rfl, rfl, rfl, rfl⟩
    · simp only [slot, headerOf, UInt32.lt_iff_toNat_lt, UInt32.toNat_ofNat']
      omega
    · simp only [slot, UInt64.toNat_ofNat']
      omega
  · intro f hf
    simp only [List.mem_map] at hf
    obtain ⟨⟨bytes, n⟩, hb, rfl⟩ := hf
    have hl := hcell bytes (List.fst_mem_of_mem_zipIdx hb)
    have h₁ := (Checksum.compute payload).length_eq
    have h₂ := (Checksum.compute bytes).length_eq
    simp only [Checksum.size] at h₁ h₂
    simp only [Fragment.claimed, slot, headerOf, h₁, h₂]
    omega

/-- **A payload that needs no more fragments than an index can count is cut into fitting
fragments.** -/
theorem ofPayload_cut {chunk : Nat} (hpos : 0 < chunk) (hmax : chunk ≤ maxChunkSize)
    (nonce : UInt64) {payload : Octets} (hcount : slotCount chunk payload.length ≤ maxCardinality) :
    ∃ b, ofPayload chunk nonce payload = .ok b ∧ b.Cut payload ∧ b.header.nonce = nonce := by
  have hroom : maxChunkSize = 67108608 := rfl
  refine cut_of_slots hpos nonce hcount fun bytes hb => ?_
  have hl := length_le_of_mem_chunks hb
  simp only [Wire.maxRecordLength]
  omega

theorem slotCount_le_of_ofPayload {chunk : Nat} {nonce : UInt64} {payload : Octets} {b : Batch}
    (h : ofPayload chunk nonce payload = .ok b) :
    slotCount chunk payload.length ≤ maxCardinality := by
  by_contra hlt
  simp only [ofPayload, if_pos (Nat.lt_of_not_le hlt)] at h
  cases h

theorem cut_of_ofPayload {chunk : Nat} (hpos : 0 < chunk) (hmax : chunk ≤ maxChunkSize)
    {nonce : UInt64} {payload : Octets} {b : Batch} (h : ofPayload chunk nonce payload = .ok b) :
    b.Cut payload ∧ b.header.nonce = nonce := by
  have hcount := slotCount_le_of_ofPayload h
  obtain ⟨b', hb', hcut⟩ := ofPayload_cut hpos hmax nonce hcount
  rw [h] at hb'
  cases hb'
  exact hcut

/-- A payload whose fragments can all be read again is cut into fitting fragments, whatever the
chunk size. -/
theorem cut_of_claimed {chunk : Nat} (hpos : 0 < chunk) {nonce : UInt64}
    {payload : Octets} {b : Batch} (h : ofPayload chunk nonce payload = .ok b)
    (hwire : ∀ f ∈ b.fragments, f.claimed ≤ Wire.maxRecordLength) :
    b.Cut payload ∧ b.header.nonce = nonce := by
  have hcount := slotCount_le_of_ofPayload h
  have hslots :
      b.fragments = (chunks chunk (slotCount chunk payload.length) payload).zipIdx.map fun p =>
      slot (headerOf nonce (slotCount chunk payload.length) payload) p.1 p.2 := by
    simp only [ofPayload, Nat.not_lt.2 hcount, if_false, Except.ok.injEq] at h
    rw [← h]
  have hcell : ∀ bytes ∈ chunks chunk (slotCount chunk payload.length) payload,
      80 + bytes.length ≤ Wire.maxRecordLength := by
    intro bytes hbytes
    obtain ⟨n, hn⟩ := List.mem_iff_getElem?.1 hbytes
    have hmem : (bytes, n) ∈ (chunks chunk (slotCount chunk payload.length) payload).zipIdx := by
      rw [List.mem_zipIdx_iff_getElem?]
      exact hn
    have hclaimed := hwire _ (by rw [hslots]; exact List.mem_map.2 ⟨(bytes, n), hmem, rfl⟩)
    have h₁ := (Checksum.compute payload).length_eq
    have h₂ := (Checksum.compute bytes).length_eq
    simp only [Checksum.size] at h₁ h₂
    simp only [Fragment.claimed, slot, headerOf, h₁, h₂] at hclaimed
    omega
  obtain ⟨b', hb', hcut⟩ := cut_of_slots hpos nonce hcount hcell
  rw [h] at hb'
  cases hb'
  exact hcut

namespace Cut

variable {b : Batch} {payload : Octets} {f g : Fragment}

theorem length_le (h : b.Cut payload) : b.fragments.length < UInt32.size :=
  h.cardinality_eq ▸ b.header.cardinality.toNat_lt

theorem identity_ok (h : b.Cut payload) : b.header.identity = .ok (b.identityOf payload) := by
  refine Header.identity_ok_iff.2
    ⟨Header.validate_ok_iff.2 ⟨h.checksum_eq.symm, fun h₀ => ?_⟩, rfl, rfl⟩
  have := h.positive
  rw [← h.cardinality_eq, h₀] at this
  exact absurd this (by decide)

theorem fits_of_mem (h : b.Cut payload) (hf : f ∈ b.fragments) :
    Reassembler.Fits b.header f.index f := by
  obtain ⟨n, hn⟩ := List.mem_iff_getElem?.1 hf
  have hfit := h.fits n f hn
  rwa [← hfit.index_eq] at hfit

theorem genuine (h : b.Cut payload) (hf : f ∈ b.fragments) : f.Genuine :=
  ⟨(h.fits_of_mem hf).sound, (h.fits_of_mem hf).own_eq⟩

theorem belongsTo (h : b.Cut payload) (hf : f ∈ b.fragments) : f.BelongsTo (b.identityOf payload) :=
  ⟨(h.fits_of_mem hf).nonce_eq, (h.fits_of_mem hf).whole_eq.trans h.checksum_eq⟩

theorem getElem?_index (h : b.Cut payload) (hf : f ∈ b.fragments) :
    b.fragments[f.index.toNat]? = some f := by
  obtain ⟨n, hn⟩ := List.mem_iff_getElem?.1 hf
  have hlt := (List.getElem?_eq_some_iff.1 hn).1
  have := h.length_le
  simp only [UInt32.size] at this
  rw [(h.fits n f hn).index_eq, UInt32.toNat_ofNat', Nat.mod_eq_of_lt (by omega), hn]

theorem eq_of_index (h : b.Cut payload) (hf : f ∈ b.fragments) (hg : g ∈ b.fragments)
    (he : f.index = g.index) : f = g := by
  have h₁ := h.getElem?_index hf
  rw [he, h.getElem?_index hg] at h₁
  exact (Option.some.inj h₁).symm

/-- **There is a fragment of the batch with an index exactly if the index lies below the
cardinality.** -/
theorem mem_iff (h : b.Cut payload) (x : UInt32) :
    (∃ f ∈ b.fragments, f.index = x) ↔ x < b.header.cardinality := by
  rw [UInt32.lt_iff_toNat_lt, h.cardinality_eq]
  constructor
  · rintro ⟨f, hf, rfl⟩
    exact (List.getElem?_eq_some_iff.1 (h.getElem?_index hf)).1
  · intro hx
    have hn := List.getElem?_eq_getElem hx
    exact ⟨_, List.mem_of_getElem? hn, by rw [(h.fits _ _ hn).index_eq, UInt32.ofNat_toNat]⟩

/-- The fragments of a batch make up its payload wherever they are stored. -/
theorem assembled {m : Reassembler} {now : Instant} {s : Store} (h : b.Cut payload)
    (hs : ∀ f ∈ b.fragments, m.Stored now s b.header (b.identityOf payload) f.index f) :
    m.Assembled now s b.header payload := by
  refine ⟨⟨_, b.fragments, h.identity_ok, h.cardinality_eq.symm, fun x f hx => ?_,
    h.joined_eq.symm⟩, h.size_eq.symm, h.checksum_eq.symm⟩
  rw [Nat.zero_add, ← (h.fits x f hx).index_eq]
  exact hs f (List.mem_of_getElem? hx)

theorem decode_encode (h : b.Cut payload) (hf : f ∈ b.fragments) :
    Wire.decode Fragment (Wire.encode f) = .ok f :=
  Wire.decode_encode_fragment (h.claimed_le f hf)

theorem decode_encode_header (h : b.Cut payload) :
    Wire.decode Header (Wire.encode b.header) = .ok b.header :=
  Wire.decode_encode_of_identity h.identity_ok

end Cut

/-- The batch of a payload of three bytes in two slots. -/
def smallBatch : Batch where
  operation := { header := Batch.headerOf 5 2 [1, 2, 3], payload := some [1, 2, 3] }
  fragments := [Batch.slot (Batch.headerOf 5 2 [1, 2, 3]) [1, 2] 0,
    Batch.slot (Batch.headerOf 5 2 [1, 2, 3]) [3] 1]

theorem smallBatch_cut : smallBatch.Cut [1, 2, 3] := by
  obtain ⟨b, hb, hcut, -⟩ := ofPayload_cut (by decide : 0 < 2) (by decide) 5
    (by decide : slotCount 2 ([1, 2, 3] : Octets).length ≤ maxCardinality)
  obtain rfl : smallBatch = b := Except.ok.inj hb
  exact hcut

/-- The first fragment of the small batch. -/
def smallFirst : Fragment := Batch.slot (Batch.headerOf 5 2 [1, 2, 3]) [1, 2] 0

/-- The second fragment of the small batch. -/
def smallSecond : Fragment := Batch.slot (Batch.headerOf 5 2 [1, 2, 3]) [3] 1

theorem smallFirst_mem : smallFirst ∈ smallBatch.fragments := List.mem_cons_self

theorem smallSecond_mem : smallSecond ∈ smallBatch.fragments :=
  List.mem_cons_of_mem _ List.mem_cons_self

theorem lt_smallBatch_cardinality {y : UInt32} (hy : y < smallBatch.header.cardinality) :
    y = 0 ∨ y = 1 := by
  have hcard : smallBatch.header.cardinality.toNat = 2 := rfl
  rw [UInt32.lt_iff_toNat_lt, hcard] at hy
  rw [← UInt32.toNat_inj, ← UInt32.toNat_inj]
  have h₀ : (0 : UInt32).toNat = 0 := rfl
  have h₁ : (1 : UInt32).toNat = 1 := rfl
  omega

/-- The texts under the keys of the small batch. -/
def smallTexts (k : Keyspace) : List (List Char) :=
  [k.encoded 5 (Checksum.compute [1, 2, 3]) none, k.encoded 5 (Checksum.compute [1, 2, 3]) (some 0),
    k.encoded 5 (Checksum.compute [1, 2, 3]) (some 1)]

theorem mem_smallTexts {k : Keyspace} {f : Fragment} (hf : f ∈ smallBatch.fragments) {t : List Char}
    (ht : t ∈ k.texts f) : t ∈ smallTexts k := by
  have ht' := (Keyspace.mem_texts (smallBatch_cut.belongsTo hf)).1 ht
  simp only [smallBatch, List.mem_cons, List.not_mem_nil, or_false] at hf
  rcases hf with rfl | rfl <;> rcases ht' with rfl | rfl <;>
    simp [smallTexts, identityOf, smallBatch, header, headerOf, slot]

theorem collisionless_of_small {fs : Set Fragment} (h : ∀ f ∈ fs, f ∈ smallBatch.fragments) :
    Keyspace.Collisionless ⟨"relay"⟩ fs := by
  have hnodup : ((smallTexts ⟨"relay"⟩).map Keyspace.digest).Nodup := by decide +kernel
  exact .of_nodup (fun f hf t ht => mem_smallTexts (h f hf) ht) hnodup

end Batch

end FragmentRelay
