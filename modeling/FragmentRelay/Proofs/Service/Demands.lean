import FragmentRelay.Proofs.Ingest.Effect
import FragmentRelay.Reassembly

/-!
# Demands: what is asked about an operation, and which keys that takes

Fragments are ingested, headers cached and read, counters read and operations reassembled, all by
one service over one store. Each of these demands names an operation, by its nonce and the bytes of
its checksum, and makes requests for keys of that operation alone, however it ends. Two operations
have no key in common, unless two different texts under the digests of their keys collide.

* `Service.touchesOnly_perform`: a demand touches only keys of the operation that it names.
* `Keyspace.IsKeyOf.not_other`: different operations have different keys.
-/

namespace FragmentRelay

/-! ### Keys of an operation -/

namespace Keyspace

/-- The texts under the digests of an operation's keys: its own, and those of some indices. -/
def textsOf (k : Keyspace) (i : Identity) (X : Set UInt32) : Set (List Char) :=
  {t | t = k.encoded i.nonce i.checksum none ∨ ∃ x ∈ X, t = k.encoded i.nonce i.checksum (some x)}

/-- The keys of an operation: those of its header and its counter, and those of the records and
markers of some indices. -/
def IsKeyOf (k : Keyspace) (i : Identity) (X : Set UInt32) (key : Key) : Prop :=
  key = k.headerKey i ∨ key = k.countKey i ∨ ∃ x ∈ X, key = k.persistenceKey i x ∨
  key = k.markerKey i x

variable {k : Keyspace} {i j : Identity} {X Y : Set UInt32} {key : Key}

theorem IsKeyOf.mono (h : k.IsKeyOf i X key) (hXY : X ⊆ Y) : k.IsKeyOf i Y key := by
  rcases h with h | h | ⟨x, hx, h⟩
  · exact .inl h
  · exact .inr (.inl h)
  · exact .inr (.inr ⟨x, hXY hx, h⟩)

/-- The index of an identity does not matter for the keys of its operation. -/
theorem IsKeyOf.congr (h : k.IsKeyOf i X key) (hn : i.nonce = j.nonce)
    (hc : i.checksum = j.checksum) : k.IsKeyOf j X key := by
  obtain ⟨n, c, x⟩ := i
  obtain ⟨n', c', x'⟩ := j
  obtain rfl : n = n' := hn
  obtain rfl : c = c' := hc
  exact h

theorem IsKeyOf.exists_text (h : k.IsKeyOf i X key) :
    ∃ (j : Identity) (p : Purpose), key = k.derive j p ∧ k.subject j p ∈ k.textsOf i X := by
  rcases h with rfl | rfl | ⟨x, hx, rfl | rfl⟩
  · exact ⟨i, .header, rfl, .inl rfl⟩
  · exact ⟨i, .ingestCount, rfl, .inl rfl⟩
  · exact ⟨i.withIndex x, .persistence, rfl, .inr ⟨x, hx, rfl⟩⟩
  · exact ⟨i.withIndex x, .ingestMarker, rfl, .inr ⟨x, hx, rfl⟩⟩

theorem eq_of_mem_textsOf {t : List Char} (hi : t ∈ k.textsOf i X) (hj : t ∈ k.textsOf j Y) :
    i.nonce = j.nonce ∧ i.checksum = j.checksum := by
  have heq : ∀ {o o' : Option UInt32}, t = k.encoded i.nonce i.checksum o →
    t = k.encoded j.nonce j.checksum o' →
      i.nonce = j.nonce ∧ i.checksum = j.checksum := by
    intro o o' h h'
    obtain ⟨-, hn, hc, -⟩ := encoded_injective (h.symm.trans h')
    exact ⟨hn, hc⟩
  rcases hi with hi | ⟨x, -, hi⟩ <;> rcases hj with hj | ⟨y, -, hj⟩ <;> exact heq hi hj

/-- **Different operations have different keys.** -/
theorem IsKeyOf.not_other (h : k.IsKeyOf i X key)
    (hk : Set.InjOn digest (k.textsOf i X ∪ k.textsOf j Y))
    (hne : ¬ (i.nonce = j.nonce ∧ i.checksum = j.checksum)) : ¬ k.IsKeyOf j Y key := by
  intro h'
  obtain ⟨a, p, rfl, ha⟩ := h.exists_text
  obtain ⟨b, q, hkey, hb⟩ := h'.exists_text
  obtain ⟨-, hdigest⟩ := derive_inj.1 hkey
  rw [hk (.inl ha) (.inr hb) hdigest] at ha
  exact hne (eq_of_mem_textsOf ha hb)

end Keyspace

/-! ### Demands -/

/-- What a service can be asked to do. -/
inductive Demand where
  | ingest (f : Fragment)
  | cacheHeader (h : Header)
  | reassemble (o : Operation)
  | ingestedCount (i : Identity)
  | cachedHeader (i : Identity)
deriving DecidableEq

/-- The result of a demand. -/
inductive Reply where
  | ingested (r : Except IngestError Ingested)
  | cached (r : Except ReassemblyError Unit)
  | reassembled (r : Except ReassemblyError Unit × Operation)
  | counted (r : Except ReassemblyError Int)
  | header (r : Except ReassemblyError (Option Header))

namespace Demand

/-- The nonce and the bytes of the checksum that a demand names. -/
def names : Demand → UInt64 × Octets
  | ingest f => (f.nonce, f.reassembledChecksum)
  | cacheHeader h => (h.nonce, h.checksum)
  | reassemble o => (o.header.nonce, o.header.checksum)
  | ingestedCount i => (i.nonce, i.checksum.octets)
  | cachedHeader i => (i.nonce, i.checksum.octets)

/-- Whether a demand names an operation. -/
def isFor (i : Identity) (d : Demand) : Bool := d.names = (i.nonce, i.checksum.octets)

/-- The indices whose records or markers a demand can touch. -/
def indices : Demand → Set UInt32
  | ingest f => {f.index}
  | reassemble o => {x | x < o.header.cardinality}
  | _ => ∅

/-- The indices that some demands for an operation can touch. -/
def indicesFor (i : Identity) (ds : List Demand) : Set UInt32 :=
  {x | ∃ d ∈ ds, d.isFor i = true ∧ x ∈ d.indices}

theorem indices_subset {i : Identity} {ds : List Demand} {d : Demand} (hd : d ∈ ds)
    (hi : d.isFor i = true) :
    d.indices ⊆ indicesFor i ds := fun _ hx => ⟨d, hd, hi, hx⟩

end Demand

/-- An ingestor and a reassembler with one keyspace. -/
structure Service where
  keys : Keyspace
  recordTtl : Option Span := none
  headerTtl : Option Span := none
  dedupe : Bool := true

namespace Service

/-- The ingestor of a service. -/
def ingestor (v : Service) : Ingestor := { keys := v.keys, ttl := v.recordTtl, dedupe := v.dedupe }

/-- The reassembler of a service. -/
def reassembler (v : Service) : Reassembler := { keys := v.keys, ttl := v.headerTtl }

/-- Does what is asked. -/
def perform (v : Service) : Demand → Access Reply
  | .ingest f => .ingested <$> v.ingestor.ingest f
  | .cacheHeader h => .cached <$> v.reassembler.cacheHeader h
  | .reassemble o => .reassembled <$> v.reassembler.reassemble o
  | .ingestedCount i => .counted <$> v.reassembler.ingestedCount i
  | .cachedHeader i => .header <$> v.reassembler.cachedHeader i

end Service

/-! ### Keys that are touched -/

namespace Reassembler

open Access

variable {m : Reassembler} {i : Identity} {h : Header}

theorem ingestedCount_touchesOnly (m : Reassembler) (i : Identity) :
    (m.ingestedCount i).TouchesOnly fun key => key = m.keys.countKey i := by
  refine ⟨rfl, fun r => ?_⟩
  rcases r with _ | _ | raw
  · trivial
  · trivial
  · simp only [done_bind]
    split <;> trivial

theorem loadFragment_touchesOnly (m : Reassembler) (i : Identity) (h : Header) (index : UInt32) :
    (m.loadFragment i h index).TouchesOnly fun key => key = m.keys.persistenceKey i index := by
  refine ⟨rfl, fun r => ?_⟩
  rcases r with _ | _ | raw <;> trivial

theorem collectFrom_touchesOnly (m : Reassembler) (i : Identity) (h : Header) (remaining : Nat) :
    ∀ index held parts, index + remaining ≤ h.cardinality.toNat →
      (m.collectFrom i h remaining index held parts).TouchesOnly fun key =>
        ∃ x < h.cardinality, key = m.keys.persistenceKey i x := by
  induction remaining with
  | zero =>
    intro index held parts _
    simp only [collectFrom]
    split <;> trivial
  | succ remaining ih =>
    intro index held parts hle
    have hindex : UInt32.ofNat index < h.cardinality := by
      have hcard := h.cardinality.toNat_lt
      rw [UInt32.lt_iff_toNat_lt, UInt32.toNat_ofNat']
      omega
    refine TouchesOnly.bind ((loadFragment_touchesOnly m i h _).mono fun key hk =>
      ⟨_, hindex, hk⟩) fun r => ?_
    cases r with
    | error e => trivial
    | ok f =>
      simp only
      split
      · trivial
      · exact ih _ _ _ (by omega)

theorem payloadOf_touchesOnly (m : Reassembler) (hi : h.identity = .ok i) :
    (m.payloadOf h).TouchesOnly fun key =>
      key = m.keys.countKey i ∨ ∃ x < h.cardinality, key = m.keys.persistenceKey i x := by
  simp only [payloadOf, hi]
  refine TouchesOnly.bind ((ingestedCount_touchesOnly m i).mono fun key hk => .inl hk) fun r => ?_
  cases r with
  | error e => trivial
  | ok v =>
    simp only
    split
    · trivial
    split
    · trivial
    have hcollect := collectFrom_touchesOnly m i h h.cardinality.toNat 0 0 [] (by omega)
    refine TouchesOnly.bind (hcollect.mono fun key hk => .inr hk) fun r => ?_
    cases r with
    | error e => trivial
    | ok payload =>
      simp only
      split <;> trivial

theorem cacheHeader_touchesOnly (m : Reassembler) (hi : h.identity = .ok i) :
    (m.cacheHeader h).TouchesOnly fun key => key = m.keys.headerKey i := by
  simp only [cacheHeader, hi]
  refine ⟨rfl, fun r => ?_⟩
  cases r <;> trivial

theorem cachedHeader_touchesOnly (m : Reassembler) (i : Identity) :
    (m.cachedHeader i).TouchesOnly fun key => key = m.keys.headerKey i := by
  refine ⟨rfl, fun r => ?_⟩
  rcases r with _ | _ | raw
  · trivial
  · trivial
  · simp only [done_bind]
    split <;> trivial

end Reassembler

theorem Header.identity_eq {h : Header} {i j : Identity} (hi : h.identity = .ok i)
    (hj : (h.nonce, h.checksum) = (j.nonce, j.checksum.octets)) :
    i.nonce = j.nonce ∧ i.checksum = j.checksum := by
  obtain ⟨hv, hn, -⟩ := Header.identity_ok_iff.1 hi
  obtain ⟨hn', hc'⟩ := Prod.mk.inj hj
  exact ⟨hn.trans hn', Checksum.ext_octets ((Header.validate_ok_iff.1 hv).1.trans hc')⟩

/-- **A demand touches only keys of the operation that it names.** -/
theorem Service.touchesOnly_perform (v : Service) {i : Identity} {d : Demand}
    (hd : d.isFor i = true) : (v.perform d).TouchesOnly (v.keys.IsKeyOf i d.indices) := by
  have hnames := of_decide_eq_true hd
  cases d with
  | ingest f =>
    refine Access.TouchesOnly.bind ((Ingestor.ingest_touchesOnly v.ingestor f).mono fun key hk =>
      ?_) fun r => trivial
    obtain ⟨-, j, hj, hk⟩ := hk
    have hf : f.BelongsTo i := ⟨congrArg Prod.fst hnames, congrArg Prod.snd hnames⟩
    obtain ⟨hn, hc⟩ := hj.unique hf
    refine Keyspace.IsKeyOf.congr (i := j) ?_ hn hc
    rcases hk with hk | hk | hk
    · exact .inr (.inl hk)
    · exact .inr (.inr ⟨f.index, rfl, .inl hk⟩)
    · exact .inr (.inr ⟨f.index, rfl, .inr hk⟩)
  | cacheHeader h =>
    refine Access.TouchesOnly.bind ?_ fun r => trivial
    cases hj : h.identity with
    | error e =>
      rw [Reassembler.cacheHeader, hj]
      trivial
    | ok j =>
      obtain ⟨hn, hc⟩ := Header.identity_eq hj hnames
      exact (Reassembler.cacheHeader_touchesOnly v.reassembler hj).mono fun key hk =>
        Keyspace.IsKeyOf.congr (i := j) (.inl hk) hn hc
  | reassemble o =>
    refine Access.TouchesOnly.bind (Access.TouchesOnly.bind ?_ fun r => ?_) fun r => trivial
    · cases hj : o.header.identity with
      | error e =>
        rw [Reassembler.payloadOf, hj]
        trivial
      | ok j =>
        obtain ⟨hn, hc⟩ := Header.identity_eq hj hnames
        refine (Reassembler.payloadOf_touchesOnly v.reassembler hj).mono fun key hk => ?_
        refine Keyspace.IsKeyOf.congr (i := j) ?_ hn hc
        rcases hk with hk | ⟨x, hx, hk⟩
        · exact .inr (.inl hk)
        · exact .inr (.inr ⟨x, hx, .inl hk⟩)
    · cases r <;> trivial
  | ingestedCount j =>
    have hj := Prod.mk.inj hnames
    exact Access.TouchesOnly.bind
        ((Reassembler.ingestedCount_touchesOnly v.reassembler j).mono fun key hk =>
      Keyspace.IsKeyOf.congr (i := j) (.inr (.inl hk)) hj.1 (Checksum.ext_octets hj.2)) fun r =>
    trivial
  | cachedHeader j =>
    have hj := Prod.mk.inj hnames
    exact Access.TouchesOnly.bind
        ((Reassembler.cachedHeader_touchesOnly v.reassembler j).mono fun key hk =>
      Keyspace.IsKeyOf.congr (i := j) (.inl hk) hj.1 (Checksum.ext_octets hj.2)) fun r => trivial

end FragmentRelay
