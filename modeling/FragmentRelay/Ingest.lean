import FragmentRelay.Store.Access
import FragmentRelay.Wire.Record

/-!
# Ingestion: fragments persisted and counted

Ingesting a fragment checks it, writes its record and counts it in its operation. With
deduplication, the deliveries of each fragment are counted under a marker, and only the delivery
that moves the marker from zero to one counts the fragment; a later one reports the counter as it
stands, or counts the fragment after all if the counter is gone. When counting fails the marker is
put back to zero, so that the redelivery counts.
-/

namespace FragmentRelay

/-- A record that cannot be written, with the writer's reason. -/
structure EncodeError where
  reason : String
deriving DecidableEq

/-- The text of an encode error. -/
def EncodeError.message (e : EncodeError) : String := Wire.Fault.other e.reason

/-- Why a fragment was not ingested. -/
inductive IngestError where
  | malformed (defect : Defect)
  | checksumMismatch (nonce : UInt64) (index : UInt32)
  | encode (error : EncodeError)
  | store (error : StoreError)
deriving DecidableEq

namespace IngestError

/-- The text of an ingest error. -/
def message : IngestError → String
  | malformed d => s!"malformed fragment: {d.message}"
  | checksumMismatch nonce index =>
    s!"fragment {index.toNat} of operation {nonce.toNat} failed verification"
  | encode e => s!"failed to encode fragment: {e.message}"
  | store e => e.message

/-- Whether delivering the fragment again may help. -/
def retryable : IngestError → Bool
  | malformed _ => false
  | checksumMismatch _ _ => true
  | encode _ => false
  | store _ => true

/-- The label under which rejections are tallied. -/
def reason : IngestError → String
  | malformed _ => "malformed"
  | checksumMismatch _ _ => "checksum"
  | encode _ => "encode"
  | store _ => "store"

end IngestError

/-- What became of an ingested fragment: the fragments of its operation counted so far, and whether
this one had been counted before. -/
structure Ingested where
  index : UInt32
  ingested : Int
  cardinality : UInt32
  duplicate : Bool
deriving DecidableEq

/-- Whether this fragment was the last one that its operation lacked. -/
def Ingested.completes (i : Ingested) : Bool :=
  !i.duplicate && i.ingested == (i.cardinality.toNat : Int)

/-- How fragments are ingested: where, for how long, and whether deliveries are deduplicated. -/
structure Ingestor where
  keys : Keyspace
  ttl : Option Span := none
  dedupe : Bool := true
deriving DecidableEq

namespace Ingestor

/-- Counts a fragment and, if that fails, puts its marker back to zero. -/
def countFirst (marker counter : Key) : Access (Except StoreError (Int × Bool)) := do
  match ← Access.count counter with
  | .ok v => return .ok (v, false)
  | .error e =>
    let _ ← Access.write marker (Counter.encode 0) none
    return .error e

/-- Counts a fragment unless its marker says that it has been counted: the counter and whether it
had. -/
def countOnce (marker counter : Key) : Access (Except StoreError (Int × Bool)) := do
  match ← Access.count marker with
  | .error e => return .error e
  | .ok deliveries =>
    if 1 < deliveries then
      match ← Access.read counter with
      | .error e => return .error e
      | .ok raw =>
        match raw.bind Counter.decode with
        | some v => return .ok (v, true)
        | none => countFirst marker counter
    else countFirst marker counter

/-- Counts every delivery. -/
def countAlways (counter : Key) : Access (Except StoreError (Int × Bool)) := do
  match ← Access.count counter with
  | .ok v => return .ok (v, false)
  | .error e => return .error e

/-- Writes the record of a checked fragment and counts it. -/
def persist (g : Ingestor) (f : Fragment) (i : Identity) :
    Access (Except IngestError Ingested) := do
  match ← Access.write (g.keys.persistenceKey i f.index) (Wire.encode f) g.ttl with
  | .error e => return .error (.store e)
  | .ok () =>
    let counter := g.keys.countKey i
    let counted ←
      if g.dedupe then countOnce (g.keys.markerKey i f.index) counter else countAlways counter
    match counted with
    | .error e => return .error (.store e)
    | .ok (ingested, duplicate) =>
      return .ok { index := f.index, ingested, cardinality := f.cardinality, duplicate }

/-- Ingests a fragment: checks it on its own and against its checksum, then persists and counts
it. -/
def ingest (g : Ingestor) (f : Fragment) : Access (Except IngestError Ingested) :=
  match f.validate with
  | .error d => return .error (.malformed d)
  | .ok sums =>
    if sums.fragment.verify f.payload = false then return .error (.checksumMismatch f.nonce f.index)
    else g.persist f { nonce := f.nonce, checksum := sums.reassembled, index := some f.index }

end Ingestor

end FragmentRelay
