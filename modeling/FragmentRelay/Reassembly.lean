import FragmentRelay.Ingest
import FragmentRelay.Backoff

/-!
# Reassembly: a payload put together from the store

Reassembling an operation waits for its counter to reach the cardinality, loads the fragments in
index order, checks each one against its slot and the whole against the header. An operation gets
its payload only if everything fits; otherwise it stays as it was.
-/

namespace FragmentRelay

/-- Why an operation was not reassembled. -/
inductive ReassemblyError where
  | malformed (defect : Defect)
  | counterMissing (nonce : UInt64) (checksum : Checksum)
  | counterUnreadable (key : Key)
  | incomplete (ingested : Int) (cardinality : UInt32)
  | fragmentMissing (index : UInt32)
  | decode (index : UInt32) (fault : Wire.Fault)
  | fragmentCorrupt (index : UInt32) (reason : String)
  | sizeMismatch (expected actual : Nat)
  | checksumMismatch (expected actual : Checksum)
  | encode (error : EncodeError)
  | store (error : StoreError)
deriving DecidableEq

namespace ReassemblyError

/-- The text of a reassembly error. -/
def message : ReassemblyError → String
  | malformed d => s!"malformed header: {d.message}"
  | counterMissing nonce checksum =>
    s!"no ingest counter for operation {nonce.toNat}/{checksum.hex}"
  | counterUnreadable key => s!"ingest counter at {key.text} is unreadable"
  | incomplete ingested cardinality =>
    let missing : Int := cardinality.toNat - ingested
    s!"{ingested} of {cardinality.toNat} fragments ingested; {missing} still missing"
  | fragmentMissing index => s!"fragment {index.toNat} is not in the store"
  | decode index fault => s!"stored fragment {index.toNat} could not be decoded: {fault.message}"
  | fragmentCorrupt index reason => s!"stored fragment {index.toNat} is corrupt: {reason}"
  | sizeMismatch expected actual => s!"fragments hold {actual} bytes, header declares {expected}"
  | checksumMismatch expected actual =>
    s!"reassembled payload checksum {actual.hex} does not match {expected.hex}"
  | encode e => s!"failed to encode header: {e.message}"
  | store e => e.message

/-- Whether fragments are still to be ingested. -/
def notReady : ReassemblyError → Bool
  | incomplete _ _ => true
  | counterMissing _ _ => true
  | _ => false

/-- Whether trying again may help. -/
def retryable : ReassemblyError → Bool
  | store _ => true
  | fragmentMissing _ => true
  | e => e.notReady

/-- The label under which failed attempts are tallied. -/
def outcome : ReassemblyError → String
  | checksumMismatch _ _ => "checksum"
  | e => if e.notReady then "incomplete" else "failed"

end ReassemblyError

/-- How operations are reassembled: where, and how long headers are cached. -/
structure Reassembler where
  keys : Keyspace
  ttl : Option Span := none
deriving DecidableEq

namespace Reassembler

/-! ### The counter -/

/-- The number of fragments counted for an operation. -/
def ingestedCount (m : Reassembler) (i : Identity) : Access (Except ReassemblyError Int) := do
  match ← Access.read (m.keys.countKey i) with
  | .error e => return .error (.store e)
  | .ok none => return .error (.counterMissing i.nonce i.checksum)
  | .ok (some raw) =>
    match Counter.decode raw with
    | none => return .error (.counterUnreadable (m.keys.countKey i))
    | some v => return .ok v

/-! ### Fragments -/

/-- Why a sound fragment does not belong where it was found. -/
def foreignReason (f : Fragment) (reassembled : Checksum) : String :=
  s!"record belongs to fragment {f.index.toNat} of operation {f.nonce.toNat}/{reassembled.hex}"

/-- Whether a sound fragment is the one that an operation has at an index. -/
def belongs (i : Identity) (h : Header) (index : UInt32) (f : Fragment)
    (reassembled : Checksum) : Bool :=
  f.index == index && f.nonce == i.nonce && f.cardinality == h.cardinality &&
    reassembled == i.checksum

/-- The fragment that a stored record holds, if it is the one that an operation has at an index. -/
def openRecord (i : Identity) (h : Header) (index : UInt32) (raw : Octets) :
    Except ReassemblyError Fragment :=
  match Wire.decode Fragment raw with
  | .error fault => .error (.decode index fault)
  | .ok f =>
    match f.validate with
    | .error d => .error (.fragmentCorrupt index d.message)
    | .ok sums =>
      if belongs i h index f sums.reassembled = false then
        .error (.fragmentCorrupt index (foreignReason f sums.reassembled))
      else if sums.fragment.verify f.payload = false then
        .error (.fragmentCorrupt index "payload does not match its checksum")
      else .ok f

/-- Loads the fragment that an operation has at an index. -/
def loadFragment (m : Reassembler) (i : Identity) (h : Header) (index : UInt32) :
    Access (Except ReassemblyError Fragment) := do
  match ← Access.read (m.keys.persistenceKey i index) with
  | .error e => return .error (.store e)
  | .ok none => return .error (.fragmentMissing index)
  | .ok (some raw) => return openRecord i h index raw

/-- Loads a number of fragments from an index on and puts their payloads behind the bytes held so
far, as long as they fit the declared size. The parts are held in reverse order. -/
def collectFrom (m : Reassembler) (i : Identity) (h : Header) :
    (remaining index held : Nat) → List Octets → Access (Except ReassemblyError Octets)
  | 0, _, held, parts =>
    if held = h.size.toNat then return .ok parts.reverse.flatten
    else return .error (.sizeMismatch h.size.toNat held)
  | remaining + 1, index, held, parts => do
    match ← m.loadFragment i h (UInt32.ofNat index) with
    | .error e => return .error e
    | .ok f =>
      let total := held + f.payload.length
      if h.size.toNat < total then return .error (.sizeMismatch h.size.toNat total)
      else m.collectFrom i h remaining (index + 1) total (f.payload :: parts)

/-- The payloads of all fragments of an operation, put together. -/
def collect (m : Reassembler) (i : Identity) (h : Header) :
    Access (Except ReassemblyError Octets) :=
  m.collectFrom i h h.cardinality.toNat 0 0 []

/-! ### Whole operations -/

/-- The text of the crash when a difference does not fit its word. -/
def overflowText : String := "the number of missing fragments does not fit its word"

/-- The payload of an operation, once all its fragments have been counted. The number of fragments
that are still missing is a signed 64-bit number. -/
def payloadOf (m : Reassembler) (h : Header) : Access (Except ReassemblyError Octets) := do
  match h.identity with
  | .error d => return .error (.malformed d)
  | .ok i =>
    match ← m.ingestedCount i with
    | .error e => return .error e
    | .ok ingested =>
      if Counter.highest < h.cardinality.toNat - ingested then .crash overflowText
      else if ingested < h.cardinality.toNat then return .error (.incomplete ingested h.cardinality)
      else
        match ← m.collect i h with
        | .error e => return .error e
        | .ok payload =>
          let actual := Checksum.compute payload
          if actual ≠ i.checksum then return .error (.checksumMismatch i.checksum actual)
          else return .ok payload

/-- Tries to reassemble an operation: how it went, and the operation with its payload if it went
well. -/
def reassemble (m : Reassembler) (o : Operation) :
    Access (Except ReassemblyError Unit × Operation) := do
  match ← m.payloadOf o.header with
  | .error e => return (.error e, o)
  | .ok payload => return (.ok (), { o with payload := some payload })

/-! ### Cached headers -/

/-- Keeps a sound header under its operation. -/
def cacheHeader (m : Reassembler) (h : Header) : Access (Except ReassemblyError Unit) := do
  match h.identity with
  | .error d => return .error (.malformed d)
  | .ok i =>
    match ← Access.write (m.keys.headerKey i) (Wire.encode h) m.ttl with
    | .error e => return .error (.store e)
    | .ok () => return .ok ()

/-- The header kept for an operation. -/
def cachedHeader (m : Reassembler) (i : Identity) :
    Access (Except ReassemblyError (Option Header)) := do
  match ← Access.read (m.keys.headerKey i) with
  | .error e => return .error (.store e)
  | .ok none => return .ok none
  | .ok (some raw) =>
    match Wire.decode Header raw with
    | .error fault => return .error (.decode 0 fault)
    | .ok h => return .ok (some h)

end Reassembler

end FragmentRelay
