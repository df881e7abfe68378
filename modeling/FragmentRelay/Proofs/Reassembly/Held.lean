import FragmentRelay.Proofs.Ingest.Progress
import FragmentRelay.Proofs.Reassembly.Gate
import Mathlib.Tactic.Common

/-!
# Held: what reassembly makes of a batch that is there in part

A store holds a batch in part if its counter is the number of the indices that were counted and each
of these has the record of the batch's own fragment. There may be other records, of fragments that
were not counted yet. Reassembly looks at the counter first, so it finds no counter, says how many
fragments lack, or reads the records of all indices and gives the payload; it never comes to a
record that is absent or wrong.

* `Batch.Cut.stored`, `Batch.Cut.reassemble_of_countsTo_zero`,
  `Batch.Cut.reassemble_of_countsTo_lt`, `Batch.Cut.counted`: what a single record and the counter
  say.
* `Held.reassemble_none`, `Held.reassemble_some`, `Held.reassemble_all`: what reassembly answers.
* `Held.exists_reassemble`: that it answers nothing else.
-/

namespace FragmentRelay

open Reassembler

/-! ### A counter and a record -/

theorem Counter.toNat_le_highest (n : UInt32) : (n.toNat : Int) ≤ highest := by
  have hhigh : highest = 9223372036854775807 := rfl
  have hword := n.toNat_lt
  omega

namespace Batch.Cut

variable {b : Batch} {payload : Octets} {s : Store} {now : Instant} {m : Reassembler}
  {o : Operation} {n : Nat} {f : Fragment}

/-- The record of a batch's own fragment fits its slot. -/
theorem stored (hcut : b.Cut payload) (hf : f ∈ b.fragments)
    (hg : s.get now (m.keys.persistenceKey (b.identityOf payload) f.index) = some (Wire.encode f)) :
    m.Stored now s b.header (b.identityOf payload) f.index f :=
  ⟨⟨_, hg, hcut.decode_encode hf⟩, hcut.fits_of_mem hf⟩

theorem reassemble_of_countsTo_zero (hcut : b.Cut payload) (ho : o.header = b.header)
    (hc : s.CountsTo (m.keys.countKey (b.identityOf payload)) 0) (now : Instant) :
    (m.reassemble o).alone now s =
      (.value (.error (.counterMissing b.header.nonce (Checksum.compute payload)), o), s) :=
  reassemble_of_uncounted (ho ▸ hcut.identity_ok) hc.get_zero

theorem reassemble_of_countsTo_lt (hcut : b.Cut payload) (ho : o.header = b.header)
    (hc : s.CountsTo (m.keys.countKey (b.identityOf payload)) n) (h₀ : 0 < n)
    (hlt : n < b.header.cardinality.toNat) (now : Instant) :
    (m.reassemble o).alone now s =
      (.value (.error (.incomplete n b.header.cardinality), o), s) := by
  have hfew := Counter.toNat_le_highest b.header.cardinality
  rw [← ho]
  exact reassemble_of_few (ho ▸ hcut.identity_ok) (hc.get_pos h₀)
    (Counter.decode_encode_natCast (by omega)) (by omega) (ho ▸ Int.ofNat_lt.2 hlt)

theorem counted (hcut : b.Cut payload) (hc : s.CountsTo (m.keys.countKey (b.identityOf payload)) n)
    (hfew : (n : Int) ≤ Counter.highest) (hle : b.header.cardinality.toNat ≤ n) (now : Instant) :
    m.Counted now s b.header := by
  have hpos := hcut.positive
  rw [← hcut.cardinality_eq] at hpos
  exact ⟨_, _, _, hcut.identity_ok, hc.get_pos (hpos.trans_le hle),
    Counter.decode_encode_natCast hfew, Int.ofNat_le.2 hle⟩

end Batch.Cut

/-! ### Batches in part -/

/-- What a store holds of a batch of which the fragments with some indices were counted. -/
structure Held (k : Keyspace) (b : Batch) (i : Identity) (D : Finset UInt32)
    (s : Store) : Prop where
  subset : D ⊆ b.indices
  counter : s.CountsTo (k.countKey i) D.card
  record : ∀ f ∈ b.fragments, f.index ∈ D →
    s.find? (k.persistenceKey i f.index) = some ⟨Wire.encode f, none⟩

namespace Held

variable {k : Keyspace} {b : Batch} {payload : Octets} {D : Finset UInt32} {s : Store}
  {m : Reassembler} {o : Operation}

theorem reassemble_none (h : Held k b (b.identityOf payload) D s) (hcut : b.Cut payload)
    (hm : m.keys = k) (ho : o.header = b.header) (hD : D = ∅) (now : Instant) :
    (m.reassemble o).alone now s =
      (.value (.error (.counterMissing b.header.nonce (Checksum.compute payload)), o), s) := by
  subst hm hD
  exact hcut.reassemble_of_countsTo_zero ho h.counter now

theorem reassemble_some (h : Held k b (b.identityOf payload) D s) (hcut : b.Cut payload)
    (hm : m.keys = k) (ho : o.header = b.header) (h₀ : 0 < D.card)
    (hlt : D.card < b.header.cardinality.toNat) (now : Instant) :
    (m.reassemble o).alone now s =
      (.value (.error (.incomplete D.card b.header.cardinality), o), s) := by
  subst hm
  exact hcut.reassemble_of_countsTo_lt ho h.counter h₀ hlt now

theorem eq_indices_of_card (h : Held k b (b.identityOf payload) D s) (hcut : b.Cut payload)
    (hle : b.header.cardinality.toNat ≤ D.card) : D = b.indices :=
  Finset.eq_of_subset_of_card_le h.subset (hcut.card_indices ▸ hle)

theorem assembled (h : Held k b (b.identityOf payload) D s) (hcut : b.Cut payload) (hm : m.keys = k)
    (hD : D = b.indices) (now : Instant) : m.Assembled now s b.header payload := by
  subst hm hD
  exact hcut.assembled fun f hf =>
    hcut.stored hf (Store.get_of_find?_some (h.record f hf (Batch.index_mem_indices hf)))

theorem reassemble_all (h : Held k b (b.identityOf payload) D s) (hcut : b.Cut payload)
    (hm : m.keys = k) (ho : o.header = b.header) (hle : b.header.cardinality.toNat ≤ D.card)
    (now : Instant) :
    (m.reassemble o).alone now s = (.value (.ok (), { o with payload := some payload }), s) := by
  have hassembled := h.assembled hcut hm (h.eq_indices_of_card hcut hle) now
  have hfew := Counter.card_lt_highest D
  subst hm
  exact reassemble_of_assembled (ho ▸ hassembled) (ho ▸ hcut.counted h.counter (by omega) hle now)

/-- **Reassembly finds no counter, lacks fragments, or gives exactly the payload.** -/
theorem exists_reassemble (h : Held k b (b.identityOf payload) D s) (hcut : b.Cut payload)
    (hm : m.keys = k) (ho : o.header = b.header) (now : Instant) :
    ∃ r, (m.reassemble o).alone now s = (.value r, s) ∧
      (r = (.error (.counterMissing b.header.nonce (Checksum.compute payload)), o) ∨
        (∃ n : Nat, 0 < n ∧ n < b.header.cardinality.toNat ∧
          r = (.error (.incomplete n b.header.cardinality), o)) ∨
        r = (.ok (), { o with payload := some payload })) := by
  rcases Nat.eq_zero_or_pos D.card with hzero | hpos
  · exact ⟨_, h.reassemble_none hcut hm ho (Finset.card_eq_zero.1 hzero) now, .inl rfl⟩
  · rcases Nat.lt_or_ge D.card b.header.cardinality.toNat with hlt | hle
    · exact ⟨_, h.reassemble_some hcut hm ho hpos hlt now, .inr (.inl ⟨_, hpos, hlt, rfl⟩)⟩
    · exact ⟨_, h.reassemble_all hcut hm ho hle now, .inr (.inr rfl)⟩

end Held

end FragmentRelay
