import FragmentRelay.Fragment
import FragmentRelay.Nonce

/-!
# Batches: a payload cut into fragments

A payload is cut into slots of the chunk size, the last one shorter; an empty payload has one empty
slot. Every fragment repeats the cardinality, the nonce and the checksum of the whole.

* `flatten_chunks`: the slots, put together, are the payload.
-/

namespace FragmentRelay

/-- The chunk size that is used when none is given. -/
def defaultChunkSize : Nat := 4500

/-- The most fragments one payload may have. -/
def maxCardinality : Nat := UInt32.size - 1

/-- A payload that needs more fragments than an index can count. -/
structure TooManyFragments where
  fragments : Nat
deriving DecidableEq, Repr

/-- The text of the error. -/
def TooManyFragments.message (e : TooManyFragments) : String :=
  s!"payload requires {e.fragments} fragments, exceeding u32::MAX"

/-- An operation with its payload and all its fragments in index order. -/
structure Batch where
  operation : Operation
  fragments : List Fragment
deriving DecidableEq

namespace Batch

/-- The announcement of the batch. -/
def header (b : Batch) : Header := b.operation.header

/-- The number of slots of a payload: at least one. -/
def slotCount (chunk length : Nat) : Nat := max 1 ((length + chunk - 1) / chunk)

/-- The given number of slots of the chunk size; the last ones may be shorter. -/
def chunks (chunk : Nat) : Nat → Octets → List Octets
  | 0, _ => []
  | count + 1, bs => bs.take chunk :: chunks chunk count (bs.drop chunk)

/-- The fragment that carries a slot. -/
def slot (h : Header) (bytes : Octets) (index : Nat) : Fragment where
  index := UInt32.ofNat index
  cardinality := h.cardinality
  nonce := h.nonce
  reassembledChecksum := h.checksum
  checksum := (Checksum.compute bytes).octets
  payloadSize := UInt64.ofNat bytes.length
  payload := bytes

/-- The header of a payload with the given number of slots. -/
def headerOf (nonce : UInt64) (count : Nat) (payload : Octets) : Header where
  cardinality := UInt32.ofNat count
  checksum := (Checksum.compute payload).octets
  nonce := nonce
  size := UInt64.ofNat payload.length

/-- Cuts a payload into fragments of at most the chunk size. -/
def ofPayload (chunk : Nat) (nonce : UInt64) (payload : Octets) : Except TooManyFragments Batch :=
  let count := slotCount chunk payload.length
  if maxCardinality < count then .error ⟨count⟩
  else
    let header := headerOf nonce count payload
    .ok {
      operation := { header, payload := some payload }
      fragments := (chunks chunk count payload).zipIdx.map fun (bytes, index) =>
        slot header bytes index
    }

@[simp] theorem length_chunks (chunk count : Nat) (bs : Octets) :
    (chunks chunk count bs).length = count := by
  induction count generalizing bs with
  | zero => rfl
  | succ count ih => simp [chunks, ih]

/-- **The slots, put together, are the payload.** -/
theorem flatten_chunks {chunk count : Nat} {bs : Octets} (h : bs.length ≤ count * chunk) :
    (chunks chunk count bs).flatten = bs := by
  induction count generalizing bs with
  | zero =>
    have : bs = [] := List.length_eq_zero_iff.1 (by omega)
    simp [chunks, this]
  | succ count ih =>
    have hd : (bs.drop chunk).length ≤ count * chunk := by
      simp only [List.length_drop]
      rw [Nat.add_mul] at h
      omega
    simp [chunks, ih hd]

end Batch

/-- A cutter of payloads: its chunk size and its source of nonces. -/
structure Splitter where
  chunk : Nat
  chunk_pos : 0 < chunk
  nonces : NonceSource := {}

namespace Splitter

/-- Cuts a payload under the next nonce at a clock reading. -/
def split (s : Splitter) (clock : UInt64) (payload : Octets) :
    Except TooManyFragments Batch × Splitter :=
  let (nonce, nonces) := s.nonces.next clock
  (Batch.ofPayload s.chunk nonce payload, { s with nonces })

end Splitter

end FragmentRelay
