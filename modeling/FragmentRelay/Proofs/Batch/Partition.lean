import FragmentRelay.Proofs.Batch.Cut
import Mathlib.Algebra.Order.Floor.Div

/-!
# Partition: a payload cut without remainder

The number of slots is the least positive number of slots that the payload fits into, and all that a
batch promises about lengths follows from that: a slot that is not the last ends before the payload
does, so it is full, and the last one starts before the payload ends, so it is not empty unless the
payload is. The slots are found by position: a position times the chunk size is the start of a slot,
and what is left from there bounds its end. `cutFrom?` computes these numbers in words and gives up
where one does not fit, where a difference would be negative or where a bound lies outside of the
payload; it never gives up.

* `slotCount_le_iff`: the least number of slots.
* `getElem?_chunks`: the slot at a position.
* `cutFrom?_eq_some`: the loop over the positions from any of them on.
* `ofPayload_partition`: everything that a batch promises about its fragments.
-/

namespace FragmentRelay

namespace Batch

variable {chunk : Nat} {payload : Octets} {b : Batch} {f : Fragment}

/-! ### How many slots there are -/

theorem slotCount_eq_ceilDiv (chunk length : Nat) :
    slotCount chunk length = max 1 (length ⌈/⌉ chunk) := rfl

/-- **The number of slots is the least positive one that the payload fits into.** -/
theorem slotCount_le_iff (hpos : 0 < chunk) {length n : Nat} :
    slotCount chunk length ≤ n ↔ 1 ≤ n ∧ length ≤ n * chunk := by
  rw [slotCount_eq_ceilDiv, max_le_iff, ceilDiv_le_iff_le_mul hpos, Nat.mul_comm]

theorem start_le (hpos : 0 < chunk) {length n : Nat} (hn : n < slotCount chunk length) :
    n * chunk ≤ length := by
  rcases Nat.eq_zero_or_pos n with rfl | hn₀
  · rw [Nat.zero_mul]
    exact Nat.zero_le _
  · have hfew := mt (slotCount_le_iff hpos).2 (Nat.not_le.2 hn)
    rw [not_and] at hfew
    exact Nat.le_of_lt (Nat.not_le.1 (hfew hn₀))

theorem stop_lt (hpos : 0 < chunk) {length n : Nat} (hn : n + 1 < slotCount chunk length) :
    (n + 1) * chunk < length := by
  have hfew := mt (slotCount_le_iff hpos).2 (Nat.not_le.2 hn)
  rw [not_and] at hfew
  exact Nat.not_le.1 (hfew (Nat.le_add_left 1 n))

theorem start_lt_of_last (hpos : 0 < chunk) {length n : Nat} (hn : n + 1 = slotCount chunk length)
    (hlength : 0 < length) : n * chunk < length := by
  rcases Nat.eq_zero_or_pos n with rfl | hn₀
  · rwa [Nat.zero_mul]
  · obtain ⟨m, rfl⟩ := Nat.exists_eq_succ_of_ne_zero (Nat.pos_iff_ne_zero.1 hn₀)
    exact stop_lt hpos (by omega)

/-! ### The slot at a position -/

/-- The bytes of the slot at a position. -/
def slotBytes (chunk : Nat) (payload : Octets) (position : Nat) : Octets :=
  (payload.drop (position * chunk)).take chunk

theorem length_slotBytes (chunk : Nat) (payload : Octets) (n : Nat) :
    (slotBytes chunk payload n).length = min chunk (payload.length - n * chunk) := by
  rw [slotBytes, List.length_take, List.length_drop]

theorem slotBytes_drop (chunk : Nat) (payload : Octets) (n : Nat) :
    slotBytes chunk (payload.drop chunk) n = slotBytes chunk payload (n + 1) := by
  rw [slotBytes, slotBytes, List.drop_drop, Nat.succ_mul, Nat.add_comm chunk]

/-- **The slot at a position holds the bytes from there on**, as many as a slot takes. -/
theorem getElem?_chunks (chunk count : Nat) (payload : Octets) (n : Nat) :
    (chunks chunk count payload)[n]? = if n < count
      then some (slotBytes chunk payload n) else none := by
  induction count generalizing payload n with
  | zero => rfl
  | succ count ih =>
    cases n with
    | zero => simp [chunks, slotBytes]
    | succ n =>
      rw [chunks, List.getElem?_cons_succ, ih, slotBytes_drop]
      simp only [Nat.succ_lt_succ_iff]

/-- The bytes that the fragments declare to carry. -/
def declaredLength : List Fragment → Nat
  | [] => 0
  | f :: fs => f.payloadSize.toNat + declaredLength fs

theorem declaredLength_eq {fs : List Fragment}
    (h : ∀ f ∈ fs, f.payloadSize.toNat = f.payload.length) :
    declaredLength fs = (Reassembler.joined fs).length := by
  induction fs with
  | nil => rfl
  | cons f fs ih =>
    have htail := ih fun f hf => h f (List.mem_cons_of_mem _ hf)
    rw [declaredLength, h f List.mem_cons_self, htail, ← List.length_append]
    rfl

/-! ### The loop over the positions -/

/-- A number, if a word of 64 bits holds it. -/
def word? (n : Nat) : Option Nat := if n < UInt64.size then some n else none

/-- The difference of two words, if it is not negative. -/
def minus? (m n : Nat) : Option Nat := if n ≤ m then some (m - n) else none

/-- The bytes between two bounds, if these are in order and do not lie beyond the end. -/
def slice? (bytes : Octets) (start stop : Nat) : Option Octets :=
  if start ≤ stop ∧ stop ≤ bytes.length then some ((bytes.take stop).drop start) else none

theorem word?_of_lt {n : Nat} (h : n < UInt64.size) : word? n = some n := if_pos h

theorem minus?_of_le {m n : Nat} (h : n ≤ m) : minus? m n = some (m - n) := if_pos h

theorem slice?_of_le {bytes : Octets} {start stop : Nat} (h₁ : start ≤ stop)
    (h₂ : stop ≤ bytes.length) :
    slice? bytes start stop = some ((bytes.take stop).drop start) := if_pos ⟨h₁, h₂⟩

/-- The fragment at a position. What is left of the payload is measured from the start of the
slot. -/
def slotAt? (chunk : Nat) (h : Header) (payload : Octets) (position : Nat) : Option Fragment := do
  let start ← word? (position * chunk)
  let remaining ← minus? payload.length start
  let stop ← word? (start + min remaining chunk)
  let bytes ← slice? payload start stop
  return slot h bytes position

/-- The fragments at as many positions as are left, from one on. -/
def cutFrom? (chunk : Nat) (h : Header) (payload : Octets) (position : Nat) :
    Nat → Option (List Fragment)
  | 0 => some []
  | left + 1 => do
    let f ← slotAt? chunk h payload position
    let fs ← cutFrom? chunk h payload (position + 1) left
    return f :: fs

/-- The bytes up to the end of a slot, which is at most a chunk away, and from its start on. -/
theorem drop_take_eq_slotBytes (chunk : Nat) (payload : Octets) (n : Nat) :
    (payload.take (n * chunk + min (payload.length - n * chunk) chunk)).drop (n * chunk) =
      slotBytes chunk payload n := by
  have hlength : (payload.drop (n * chunk)).length = payload.length - n * chunk := List.length_drop
  rw [slotBytes, List.drop_take, Nat.add_sub_cancel_left, ← hlength, Nat.min_comm,
    ← List.take_eq_take_min]

/-- **One pass of the loop succeeds** where the slot starts within a payload whose length is a
word. -/
theorem slotAt?_eq_some (h : Header) {n : Nat} (hword : payload.length < UInt64.size)
    (hstart : n * chunk ≤ payload.length) :
    slotAt? chunk h payload n = some (slot h (slotBytes chunk payload n) n) := by
  have hstop : n * chunk + min (payload.length - n * chunk) chunk ≤ payload.length := by omega
  have hw₁ := word?_of_lt (Nat.lt_of_le_of_lt hstart hword)
  have hw₂ := word?_of_lt (Nat.lt_of_le_of_lt hstop hword)
  have hs := slice?_of_le (Nat.le_add_right (n * chunk) _) hstop
  rw [drop_take_eq_slotBytes] at hs
  simp only [slotAt?, hw₁, minus?_of_le hstart, hw₂, hs, Option.bind_eq_bind, Option.bind_some,
    Option.pure_def]

/-- **The loop cuts the slots of what is left**, if each of them starts within the payload. -/
theorem cutFrom?_eq_some (h : Header) (hword : payload.length < UInt64.size) {position left : Nat}
    (hstart : ∀ n < position + left, n * chunk ≤ payload.length) :
    cutFrom? chunk h payload position left =
      some ((List.range' position left).map fun n => slot h (slotBytes chunk payload n) n) := by
  induction left generalizing position with
  | zero => rfl
  | succ left ih =>
    have hhead := slotAt?_eq_some h hword (hstart position (by omega))
    have hrest : ∀ n < position + 1 + left, n * chunk ≤ payload.length :=
      fun n hn => hstart n (by omega)
    simp only [cutFrom?, hhead, ih hrest, Option.bind_eq_bind, Option.bind_some, Option.pure_def,
      List.range'_succ, List.map_cons]

theorem zipIdx_chunks (chunk count : Nat) (h : Header) (payload : Octets) :
    ((chunks chunk count payload).zipIdx.map fun p => slot h p.1 p.2) =
      (List.range' 0 count).map fun n => slot h (slotBytes chunk payload n) n := by
  refine List.ext_getElem? fun n => ?_
  rw [List.getElem?_map, List.getElem?_zipIdx, getElem?_chunks, List.getElem?_map]
  by_cases hn : n < count
  · simp [hn]
  · rw [List.getElem?_eq_none_iff.2 (by simpa using hn)]
    simp [hn]

/-! ### Batches slot by slot -/

/-- A batch has the header of a payload and the fragments of its slots, and no more of them than an
index can count. -/
structure Sliced (b : Batch) (chunk : Nat) (nonce : UInt64) (payload : Octets) : Prop where
  operation_eq : b.operation =
    { header := headerOf nonce (slotCount chunk payload.length) payload, payload := some payload }
  fragments_eq : b.fragments = (List.range' 0 (slotCount chunk payload.length)).map fun n =>
    slot b.header (slotBytes chunk payload n) n
  count_le : slotCount chunk payload.length ≤ maxCardinality

theorem exists_sliced (nonce : UInt64) (h : slotCount chunk payload.length ≤ maxCardinality) :
    ∃ b, ofPayload chunk nonce payload = .ok b ∧ b.Sliced chunk nonce payload := by
  simp only [ofPayload, Nat.not_lt.2 h, if_false]
  exact ⟨_, rfl, ⟨rfl, zipIdx_chunks chunk _ _ payload, h⟩⟩

theorem ofPayload_of_lt {nonce : UInt64} (h : maxCardinality < slotCount chunk payload.length) :
    ofPayload chunk nonce payload = .error ⟨slotCount chunk payload.length⟩ := by
  simp only [ofPayload, h, if_true]

namespace Sliced

variable {nonce : UInt64} {n : Nat}

theorem header_eq (h : b.Sliced chunk nonce payload) :
    b.header = headerOf nonce (slotCount chunk payload.length) payload :=
  congrArg Operation.header h.operation_eq

theorem count_lt (h : b.Sliced chunk nonce payload) :
    slotCount chunk payload.length < UInt32.size :=
  Nat.lt_of_le_of_lt h.count_le (by decide)

theorem length_eq (h : b.Sliced chunk nonce payload) :
    b.fragments.length = slotCount chunk payload.length := by
  rw [h.fragments_eq, List.length_map, List.length_range']

theorem cardinality_eq (h : b.Sliced chunk nonce payload) :
    b.header.cardinality.toNat = slotCount chunk payload.length := by
  rw [h.header_eq]
  exact UInt32.toNat_ofNat_of_lt' h.count_lt

theorem size_eq (h : b.Sliced chunk nonce payload) (hword : payload.length < UInt64.size) :
    b.header.size.toNat = payload.length := by
  rw [h.header_eq]
  exact UInt64.toNat_ofNat_of_lt' hword

theorem of_getElem? (h : b.Sliced chunk nonce payload) (hf : b.fragments[n]? = some f) :
    n < slotCount chunk payload.length ∧ f = slot b.header (slotBytes chunk payload n) n := by
  have hn : n < slotCount chunk payload.length := h.length_eq ▸ (List.getElem?_eq_some_iff.1 hf).1
  rw [h.fragments_eq, List.getElem?_map] at hf
  simp only [hn, List.getElem?_range', Option.map_some, Option.some.injEq, Nat.zero_add,
    Nat.one_mul] at hf
  exact ⟨hn, hf.symm⟩

theorem of_mem (h : b.Sliced chunk nonce payload) (hf : f ∈ b.fragments) :
    ∃ n < slotCount chunk payload.length, f = slot b.header (slotBytes chunk payload n) n := by
  obtain ⟨n, hn⟩ := List.mem_iff_getElem?.1 hf
  exact ⟨n, h.of_getElem? hn⟩

theorem index_eq (h : b.Sliced chunk nonce payload) (hf : b.fragments[n]? = some f) :
    f.index.toNat = n := by
  obtain ⟨hn, rfl⟩ := h.of_getElem? hf
  exact UInt32.toNat_ofNat_of_lt' (Nat.lt_trans hn h.count_lt)

theorem joined_eq (h : b.Sliced chunk nonce payload) (hpos : 0 < chunk) :
    Reassembler.joined b.fragments = payload := by
  have hfst : (Fragment.payload ∘ fun p : Octets × Nat => slot b.header p.1 p.2) = Prod.fst := rfl
  rw [h.fragments_eq, ← zipIdx_chunks, Reassembler.joined, List.map_map, hfst, List.zipIdx_map_fst,
    flatten_chunks (length_le_slotCount hpos _)]

theorem full (h : b.Sliced chunk nonce payload) (hpos : 0 < chunk) (hf : b.fragments[n]? = some f)
    (hlt : n + 1 < b.fragments.length) : f.payload.length = chunk := by
  obtain ⟨-, rfl⟩ := h.of_getElem? hf
  have hstop := stop_lt hpos (h.length_eq ▸ hlt)
  rw [Nat.succ_mul] at hstop
  rw [slot, length_slotBytes]
  omega

theorem last (h : b.Sliced chunk nonce payload) (hpos : 0 < chunk) (hf : b.fragments[n]? = some f)
    (hn : n + 1 = b.fragments.length) :
    f.payload.length ≤ chunk ∧ (f.payload.length = 0 ↔ payload = []) := by
  obtain ⟨-, rfl⟩ := h.of_getElem? hf
  have hstart := start_lt_of_last hpos (hn.trans h.length_eq)
  rw [slot, length_slotBytes, ← List.length_eq_zero_iff]
  omega

theorem declared_eq (h : b.Sliced chunk nonce payload) (hword : payload.length < UInt64.size)
    (hf : f ∈ b.fragments) : f.payloadSize.toNat = f.payload.length := by
  obtain ⟨n, -, rfl⟩ := h.of_mem hf
  refine UInt64.toNat_ofNat_of_lt' (Nat.lt_of_le_of_lt ?_ hword)
  rw [length_slotBytes]
  omega

theorem verified (h : b.Sliced chunk nonce payload) (hword : payload.length < UInt64.size)
    (hf : f ∈ b.fragments) :
    ∃ sums, f.validate = .ok sums ∧ sums.fragment.verify f.payload = true := by
  have hdeclared := h.declared_eq hword hf
  obtain ⟨n, hn, rfl⟩ := h.of_mem hf
  have hindex : (UInt32.ofNat n).toNat = n := UInt32.toNat_ofNat_of_lt' (Nat.lt_trans hn h.count_lt)
  refine ⟨⟨Checksum.compute (slotBytes chunk payload n), Checksum.compute payload⟩,
    Fragment.validate_ok_iff.2 ⟨rfl, ?_, ?_, hdeclared.symm⟩, (Checksum.verify_iff _ _).2 rfl⟩
  · rw [slot, h.header_eq]
    rfl
  · rw [slot, UInt32.lt_iff_toNat_lt, hindex, h.cardinality_eq]
    exact hn

theorem loop_eq (h : b.Sliced chunk nonce payload) (hpos : 0 < chunk)
    (hword : payload.length < UInt64.size) :
    cutFrom? chunk b.header payload 0 b.fragments.length = some b.fragments := by
  have hstart : ∀ n < 0 + slotCount chunk payload.length, n * chunk ≤ payload.length := fun n hn =>
    start_le hpos (by rwa [Nat.zero_add] at hn)
  rw [h.length_eq, cutFrom?_eq_some b.header hword hstart, ← h.fragments_eq]

end Sliced

/-! ### What a batch promises -/

/-- What the batch of a payload satisfies that was cut with a chunk size under a nonce. -/
structure Partition (b : Batch) (chunk : Nat) (nonce : UInt64) (payload : Octets) : Prop where
  length_eq : b.fragments.length = max 1 (payload.length ⌈/⌉ chunk)
  index_eq : ∀ (n : Nat) (f : Fragment), b.fragments[n]? = some f → f.index.toNat = n
  joined_eq : Reassembler.joined b.fragments = payload
  full : ∀ (n : Nat) (f : Fragment), b.fragments[n]? = some f → n + 1 < b.fragments.length →
    f.payload.length = chunk
  last : ∀ (n : Nat) (f : Fragment), b.fragments[n]? = some f → n + 1 = b.fragments.length →
    f.payload.length ≤ chunk ∧ (f.payload.length = 0 ↔ payload = [])
  declared_eq : ∀ f ∈ b.fragments, f.payloadSize.toNat = f.payload.length
  total_eq : declaredLength b.fragments = b.header.size.toNat
  size_eq : b.header.size.toNat = payload.length
  cardinality_eq : b.header.cardinality.toNat = b.fragments.length
  nonce_eq : b.header.nonce = nonce
  checksum_eq : b.header.checksum = (Checksum.compute payload).octets
  repeated : ∀ f ∈ b.fragments, f.cardinality = b.header.cardinality ∧ f.nonce = b.header.nonce ∧
    f.reassembledChecksum = b.header.checksum
  verified : ∀ f ∈ b.fragments, ∃ sums, f.validate = .ok sums ∧
    sums.fragment.verify f.payload = true
  kept : b.operation.payload = some payload
  loop_eq : cutFrom? chunk b.header payload 0 b.fragments.length = some b.fragments

/-- **A batch that is sliced is a partition of its payload.** -/
theorem Sliced.partition {nonce : UInt64} (h : b.Sliced chunk nonce payload) (hpos : 0 < chunk)
    (hword : payload.length < UInt64.size) : b.Partition chunk nonce payload where
  length_eq := h.length_eq
  index_eq _ _ := h.index_eq
  joined_eq := h.joined_eq hpos
  full _ _ := h.full hpos
  last _ _ := h.last hpos
  declared_eq _ := h.declared_eq hword
  total_eq := by
    rw [declaredLength_eq fun f => h.declared_eq hword, h.joined_eq hpos, h.size_eq hword]
  size_eq := h.size_eq hword
  cardinality_eq := h.cardinality_eq.trans h.length_eq.symm
  nonce_eq := congrArg Header.nonce h.header_eq
  checksum_eq := congrArg Header.checksum h.header_eq
  repeated f hf := by
    obtain ⟨n, -, rfl⟩ := h.of_mem hf
    exact ⟨rfl, rfl, rfl⟩
  verified _ := h.verified hword
  kept := congrArg Operation.payload h.operation_eq
  loop_eq := h.loop_eq hpos hword

/-- **A payload is cut into an exact partition.** It is refused exactly if an index cannot count
its slots, and the loop that finds these by their positions in words gives the same fragments. -/
theorem ofPayload_partition {chunk : Nat} (hpos : 0 < chunk) (nonce : UInt64) {payload : Octets}
    (hword : payload.length < UInt64.size) :
    (maxCardinality < max 1 (payload.length ⌈/⌉ chunk) →
      ofPayload chunk nonce payload = .error ⟨max 1 (payload.length ⌈/⌉ chunk)⟩) ∧
    (max 1 (payload.length ⌈/⌉ chunk) ≤ maxCardinality →
      ∃ b, ofPayload chunk nonce payload = .ok b ∧ b.Partition chunk nonce payload) := by
  rw [← slotCount_eq_ceilDiv]
  refine ⟨ofPayload_of_lt, fun hle => ?_⟩
  obtain ⟨b, hb, hsliced⟩ := exists_sliced nonce hle
  exact ⟨b, hb, hsliced.partition hpos hword⟩

theorem smallBatch_partition : smallBatch.Partition 2 5 [1, 2, 3] := by
  obtain ⟨b, hb, hpartition⟩ := (ofPayload_partition (by decide : 0 < 2) 5
    (by decide : ([1, 2, 3] : Octets).length < UInt64.size)).2 (by decide)
  obtain rfl : smallBatch = b := Except.ok.inj hb
  exact hpartition

end Batch

end FragmentRelay
