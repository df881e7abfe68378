import FragmentRelay.Operation
import FragmentRelay.Decimal

/-!
# Keys: where an operation's values live in the store

A key is the digest of a namespace and an identity, followed by what the value is for. Values of a
whole operation ignore the index of the identity; values of a fragment include it.
-/

namespace FragmentRelay

/-- A key of the store. -/
structure Key where
  text : String
deriving DecidableEq

/-- What a stored value is for. -/
inductive Purpose where
  | header
  | ingestCount
  | persistence
  | ingestMarker
deriving DecidableEq, Repr

namespace Purpose

/-- The end of the keys for a purpose. -/
def suffix : Purpose → String
  | header => "header"
  | ingestCount => "fragments.ingest-count"
  | persistence => "fragments.persistence"
  | ingestMarker => "fragments.ingest-marker"

/-- Whether there is one value for each fragment and not one for the operation. -/
def perFragment : Purpose → Bool
  | header => false
  | ingestCount => false
  | persistence => true
  | ingestMarker => true

/-- All purposes. -/
def all : List Purpose := [header, ingestCount, persistence, ingestMarker]

end Purpose

/-- The part of the store that one deployment uses, named by its namespace. -/
structure Keyspace where
  name : String
deriving DecidableEq

namespace Keyspace

/-- The text under the digest: namespace, nonce, checksum and, if there is one, index, with slashes
between. -/
def encoded (k : Keyspace) (nonce : UInt64) (checksum : Checksum)
    (index : Option UInt32) : List Char :=
  k.name.toList ++ '/' :: Decimal.ofNat nonce.toNat ++ '/' :: checksum.octets.hexDigits ++
    match index with
    | none => []
    | some i => '/' :: Decimal.ofNat i.toNat

/-- The index that counts for a purpose. -/
def scopedIndex (i : Identity) (p : Purpose) : Option UInt32 :=
  if p.perFragment then i.index else none

/-- The text under the digest of the key for an identity and a purpose. -/
def subject (k : Keyspace) (i : Identity) (p : Purpose) : List Char :=
  k.encoded i.nonce i.checksum (scopedIndex i p)

/-- The key for an identity and a purpose. -/
def derive (k : Keyspace) (i : Identity) (p : Purpose) : Key :=
  ⟨(Blake3.hash (Octets.ofText (String.ofList (k.subject i p)))).hex ++ "." ++ p.suffix⟩

/-- Where an operation's header is cached. -/
def headerKey (k : Keyspace) (i : Identity) : Key := k.derive i .header

/-- Where an operation's fragments are counted. -/
def countKey (k : Keyspace) (i : Identity) : Key := k.derive i .ingestCount

/-- Where the fragment of an index is kept. -/
def persistenceKey (k : Keyspace) (i : Identity) (index : UInt32) : Key :=
  k.derive (i.withIndex index) .persistence

/-- Where the deliveries of the fragment of an index are counted. -/
def markerKey (k : Keyspace) (i : Identity) (index : UInt32) : Key :=
  k.derive (i.withIndex index) .ingestMarker

end Keyspace

end FragmentRelay
