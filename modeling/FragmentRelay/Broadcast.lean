import FragmentRelay.Batch
import FragmentRelay.Bus.Subscription
import FragmentRelay.Ingest

/-!
# Broadcasting: a batch published on a transport

The header goes out first, on the reassembly subject, then every fragment in index order on the
ingest subject. The first refusal ends the broadcast; what was published stays published.

The transport and the pace are given as functions on a state, so that a broadcast can run on any
transport and can let time pass between fragments.
-/

namespace FragmentRelay

/-- Why a broadcast ended early. -/
inductive BroadcastError where
  | fragmentation (error : TooManyFragments)
  | encode (error : EncodeError)
  | header (error : TransportError)
  | fragment (index : UInt32) (published : Nat) (error : TransportError)
deriving DecidableEq

namespace BroadcastError

/-- The text of a broadcast error. -/
def message : BroadcastError → String
  | fragmentation e => e.message
  | encode e => s!"failed to encode record: {e.message}"
  | header e => s!"failed to publish reassembly header: {e.message}"
  | fragment index published e =>
    s!"failed to publish fragment {index.toNat} after {published} fragments: {e.message}"

/-- The fragments that were published before the failure. -/
def published : BroadcastError → Nat
  | fragment _ n _ => n
  | _ => 0

end BroadcastError

/-- A transport as a broadcast sees it: how a message is published, and what happens before each
fragment. -/
structure Publisher (σ : Type) where
  publish : String → Octets → σ → Except TransportError Unit × σ
  pace : σ → σ

namespace Publisher

variable {σ : Type}

/-- Publishes fragments one after another up to the first refusal: how it went, and how many were
accepted. -/
def sendFragments (p : Publisher σ) (subject : String) :
    List Fragment → Nat → σ → Except BroadcastError Unit × Nat × σ
  | [], published, s => (.ok (), published, s)
  | f :: rest, published, s =>
    match p.publish subject (Wire.encode f) (p.pace s) with
    | (.error e, s) => (.error (.fragment f.index published e), published, s)
    | (.ok (), s) => p.sendFragments subject rest (published + 1) s

/-- Publishes a batch: how it went, and how many fragments were accepted. -/
def broadcast (p : Publisher σ) (subjects : Subjects) (b : Batch) (s : σ) :
    Except BroadcastError Unit × Nat × σ :=
  match p.publish subjects.reassembly (Wire.encode b.header) s with
  | (.error e, s) => (.error (.header e), 0, s)
  | (.ok (), s) => p.sendFragments subjects.fragmentIngest b.fragments 0 s

end Publisher

/-! ### The rate of publishing -/

/-- A bucket of tokens, one for each publication: it starts full and gets `rate` more every second,
but never holds more than `rate`. -/
structure TokenBucket where
  rate : Nat
  tokens : Nat
  refill : Instant
deriving DecidableEq, Repr

namespace TokenBucket

/-- Tokens are added at this interval. -/
def interval : Nat := 1000000000

/-- A full bucket. -/
def full (rate : Nat) (now : Instant) : TokenBucket := ⟨rate, rate, now + interval⟩

/-- The bucket with the tokens of every refill that is due. -/
def refilled (b : TokenBucket) (now : Instant) : TokenBucket :=
  if b.refill ≤ now then
    let times := (now - b.refill) / interval + 1
    { b with
      tokens := min b.rate (b.tokens + times * b.rate)
      refill := b.refill + times * interval }
  else b

/-- Takes one token: the instant at which there is one, and the bucket after that. -/
def acquire (b : TokenBucket) (now : Instant) : Instant × TokenBucket :=
  let b := b.refilled now
  if 0 < b.tokens then (now, { b with tokens := b.tokens - 1 })
  else (b.refill, { b with tokens := b.rate - 1, refill := b.refill + interval })

end TokenBucket

end FragmentRelay
