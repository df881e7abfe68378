import FragmentRelay.Proofs.Ingest.Points
import FragmentRelay.Proofs.Reassembly.AnyOrder
import FragmentRelay.Proofs.Reassembly.FirstFault

/-!
# Repetition: every delivery counts

Without deduplication no marker is kept, and the counter of an operation counts deliveries and not
indices. It can reach the cardinality, or go past it, while indices are missing, so a reassembly may
get past the counter too early. It then comes to the first record that is missing, and nothing worse
happens: the invariant `Repeated` says that the records are those of the indices that were
delivered, however often the counter went up.

* `Repeated.ingest`, `repeated_after`: one delivery, and any number of them.
* `Repeated.exists_missing`: past the counter, the first index that was not delivered is reported.
* `every_delivery_counts`: what deliveries and reassemblies answer without deduplication.
-/

namespace FragmentRelay

namespace Batch

variable {b : Batch} {payload : Octets} {calls : List Call}

theorem card_delivered_le (b : Batch) (calls : List Call) :
    (b.delivered calls).card ≤ calls.length :=
  (List.toFinset_card_le _).trans ((List.length_map _).le.trans (List.length_filter_le _ _))

theorem Cut.cardinality_le_of_delivered (hcut : b.Cut payload)
    (hall : b.delivered calls = b.indices) : b.header.cardinality.toNat ≤ calls.length :=
  hcut.card_indices ▸ hall ▸ b.card_delivered_le calls

theorem Cut.exists_first_undelivered (hcut : b.Cut payload)
    (hmissing : b.delivered calls ≠ b.indices) :
    ∃ f ∈ b.fragments, f.index ∉ b.delivered calls ∧ ∀ y < f.index, y ∈ b.delivered calls := by
  have hex : ∃ n : Nat, ∃ f ∈ b.fragments, f.index.toNat = n ∧ f.index ∉ b.delivered calls := by
    by_contra hnone
    push Not at hnone
    refine hmissing (Finset.Subset.antisymm delivered_subset fun x hx => ?_)
    obtain ⟨f, hf, rfl⟩ := mem_indices.1 hx
    exact hnone _ f hf rfl
  obtain ⟨f, hf, hfirst, hout⟩ := Nat.find_spec hex
  refine ⟨f, hf, hout, fun y hy => ?_⟩
  by_contra hy'
  obtain ⟨g, hg, rfl⟩ := (hcut.mem_iff y).2 (UInt32.lt_trans hy ((hcut.mem_iff _).1 ⟨f, hf, rfl⟩))
  exact Nat.find_min hex (hfirst ▸ UInt32.lt_iff_toNat_lt.1 hy) ⟨g, hg, rfl, hy'⟩

end Batch

/-! ### Ingestion without markers -/

namespace Ingestor

variable {g : Ingestor} {f : Fragment} {i : Identity} {s : Store} {n : Nat}

theorem ingest_avoids_markers (hdedupe : g.dedupe = false) (f : Fragment) :
    (g.ingest f).TouchesOnly fun key => ∀ j x, key ≠ g.keys.markerKey j x := by
  by_cases hf : f.Genuine
  · obtain ⟨i, hi⟩ := hf.exists_belongsTo
    rw [ingest_eq_write hf hi]
    refine ⟨fun j x => g.keys.persistenceKey_ne_markerKey i j f.index x, fun r => ?_⟩
    rcases r with e | u
    · trivial
    · simp only [hdedupe, if_false, Bool.false_eq_true]
      refine ⟨fun j x => g.keys.countKey_ne_markerKey i j x, fun r => ?_⟩
      cases r <;> trivial
  · obtain ⟨e, he⟩ := ingest_of_not_genuine g hf
    rw [he]
    trivial

theorem ingest_alone_tallied (hf : f.Genuine) (hi : f.BelongsTo i) (httl : g.ttl = none)
    (hdedupe : g.dedupe = false) (hc : s.CountsTo (g.keys.countKey i) n)
    (hn : (n : Int) < Counter.highest) (now : Instant) :
    ∃ s', (g.ingest f).alone now s =
      (.value (.ok ⟨f.index, (n + 1 : Nat), f.cardinality, false⟩), s') ∧
      s'.CountsTo (g.keys.countKey i) (n + 1) ∧
      s'.find? (g.keys.persistenceKey i f.index) = some ⟨Wire.encode f, none⟩ ∧
      ∀ key, key ≠ g.keys.persistenceKey i f.index → key ≠ g.keys.countKey i →
        s'.find? key = s.find? key := by
  have hapart := g.keys.countKey_ne_persistenceKey i i f.index
  have hc' := hc.insert_of_ne (e := ⟨Wire.encode f, none⟩) hapart
  have hrun :
    (g.ingest f).alone now s = (.value (.ok ⟨f.index, (n + 1 : Nat), f.cardinality, false⟩),
      (s.insert (g.keys.persistenceKey i f.index) ⟨Wire.encode f, none⟩).insert (g.keys.countKey i)
        ⟨Counter.encode (n + 1 : Nat), none⟩) := by
    rw [ingest_eq_write hf hi, httl, Access.alone_set]
    simp only [hdedupe, if_false, Bool.false_eq_true, toTally]
    rw [Access.alone_increment_ok (hc'.increment hn)]
    rfl
  refine ⟨_, hrun, Store.countsTo_insert_self n, ?_, fun key h₁ h₂ => ?_⟩
  · rw [Store.find?_insert_of_ne hapart.symm, Store.find?_insert_self]
  · rw [Store.find?_insert_of_ne h₂, Store.find?_insert_of_ne h₁]

end Ingestor

/-! ### The invariant -/

/-- What a store knows of a batch whose deliveries were all counted: how many they were, and the
records of the indices among them. -/
structure Repeated (k : Keyspace) (b : Batch) (i : Identity) (calls : List Call)
    (s : Store) : Prop where
  counter : s.CountsTo (k.countKey i) calls.length
  record : ∀ f ∈ b.fragments, s.find? (k.persistenceKey i f.index) =
    if f.index ∈ b.delivered calls then some ⟨Wire.encode f, none⟩ else none
  unmarked : ∀ j x, s.find? (k.markerKey j x) = none

namespace Repeated

open Reassembler

variable {k : Keyspace} {b : Batch} {payload : Octets} {i : Identity} {calls : List Call}
  {s : Store} {fs : Set Fragment} {c : Call} {f : Fragment} {m : Reassembler} {o : Operation}
  {now : Instant}

theorem empty (k : Keyspace) (b : Batch) (i : Identity) : Repeated k b i [] {} where
  counter := Store.countsTo_empty _
  record _ _ := rfl
  unmarked _ _ := rfl

/-- **A delivery counts one further**, and its index is among those that have a record. -/
theorem ingest (h : Repeated k b (b.identityOf payload) calls s) (hcut : b.Cut payload)
    (hk : k.Collisionless fs) (hfs : ∀ f ∈ b.fragments, f ∈ fs) (hc : c.2 ∈ b.fragments)
    (hfew : (calls.length : Int) < Counter.highest) :
    ∃ s', (Ingestor.ingest { keys := k, dedupe := false } c.2).alone c.1 s =
        (.value (.ok ⟨c.2.index, (calls.length + 1 : Nat), b.header.cardinality, false⟩), s') ∧
      Repeated k b (b.identityOf payload) (calls ++ [c]) s' := by
  have hi := hcut.belongsTo hc
  obtain ⟨s', hs', hcount, hrecord, hrest⟩ :=
    Ingestor.ingest_alone_tallied (g := { keys := k, dedupe := false })
    (hcut.genuine hc) hi rfl rfl h.counter hfew c.1
  rw [(hcut.fits_of_mem hc).cardinality_eq] at hs'
  refine ⟨s', hs', ?_, fun f hf => ?_, fun j x => ?_⟩
  · rw [List.length_append, List.length_singleton]
    exact hcount
  · rw [Batch.delivered_append_of_mem hc]
    by_cases hfc : f = c.2
    · subst hfc
      rw [hrecord, if_pos (Finset.mem_insert_self _ _)]
    · have hindex : f.index ≠ c.2.index := fun he => hfc (hcut.eq_of_index hf hc he)
      have hkey : k.persistenceKey (b.identityOf payload) f.index ≠
          k.persistenceKey (b.identityOf payload) c.2.index :=
        hk.perFragment_ne (hfs f hf) (hfs _ hc) (hcut.belongsTo hf) hi hindex rfl
      rw [hrest _ hkey (k.countKey_ne_persistenceKey _ _ _).symm, h.record f hf]
      simp only [Finset.mem_insert, hindex, false_or]
  · rw [hrest _ (k.persistenceKey_ne_markerKey _ _ _ _).symm (k.countKey_ne_markerKey _ _ _).symm]
    exact h.unmarked j x

/-! ### Reassembly under the invariant -/

/-- **Past the counter, the first index that was not delivered is reported.** -/
theorem exists_missing (h : Repeated k b (b.identityOf payload) calls s) (hcut : b.Cut payload)
    (hm : m.keys = k) (ho : o.header = b.header) (hfew : (calls.length : Int) ≤ Counter.highest)
    (hle : b.header.cardinality.toNat ≤ calls.length) (hmissing : b.delivered calls ≠ b.indices)
    (now : Instant) :
    ∃ x < b.header.cardinality, x ∉ b.delivered calls ∧ (∀ y < x, y ∈ b.delivered calls) ∧
      (m.reassemble o).alone now s = (.value (.error (.fragmentMissing x), o), s) := by
  obtain ⟨f, hf, hout, hfirst⟩ := hcut.exists_first_undelivered hmissing
  refine ⟨f.index, (hcut.mem_iff _).1 ⟨f, hf, rfl⟩, hout, hfirst, ?_⟩
  subst hm
  have hr := h.record f hf
  rw [if_neg hout] at hr
  refine reassemble_of_error (ho ▸ hcut.identity_ok) (ho ▸ hcut.counted h.counter hfew hle now) ?_
  rw [ho]
  refine hcut.collect_missing hf (fun e he hlt => hcut.stored he (Store.get_of_find?_some ?_))
    (Store.get_of_find?_none hr)
  rw [h.record e he, if_pos (hfirst _ hlt)]

theorem reassemble_all (h : Repeated k b (b.identityOf payload) calls s) (hcut : b.Cut payload)
    (hm : m.keys = k) (ho : o.header = b.header) (hfew : (calls.length : Int) ≤ Counter.highest)
    (hall : b.delivered calls = b.indices) (now : Instant) :
    (m.reassemble o).alone now s = (.value (.ok (), { o with payload := some payload }), s) := by
  subst hm
  have hassembled : m.Assembled now s b.header payload := by
    refine hcut.assembled fun f hf => hcut.stored hf (Store.get_of_find?_some ?_)
    rw [h.record f hf, hall, if_pos (Batch.index_mem_indices hf)]
  have hcounted := hcut.counted h.counter hfew (hcut.cardinality_le_of_delivered hall) now
  exact reassemble_of_assembled (ho ▸ hassembled) (ho ▸ hcounted)

end Repeated

/-- **After any deliveries of a batch** the counter has counted them all and the records are those
of their indices. -/
theorem repeated_after {k : Keyspace} {b : Batch} {payload : Octets} {fs : Set Fragment}
    {calls : List Call} (hcut : b.Cut payload) (hk : k.Collisionless fs)
    (hfs : ∀ f ∈ b.fragments, f ∈ fs) (hmember : ∀ c ∈ calls, c.2 ∈ b.fragments)
    (hfew : (calls.length : Int) ≤ Counter.highest) :
    Repeated k b (b.identityOf payload) calls
      (Ingestor.after { keys := k, dedupe := false } calls {}) := by
  induction calls using List.reverseRecOn with
  | nil => exact Repeated.empty k b _
  | append_singleton calls c ih =>
    rw [List.length_append, List.length_singleton] at hfew
    have hp := ih (fun d hd => hmember d (List.mem_append_left _ hd)) (by omega)
    obtain ⟨s', hs', hp'⟩ := hp.ingest hcut hk hfs (hmember c (by simp)) (by omega)
    rw [Ingestor.after, List.foldl_append, List.foldl_cons, List.foldl_nil]
    rw [Ingestor.after] at hs'
    rw [hs']
    exact hp'

/-- **Without deduplication every delivery counts, and only the counter is fooled by it.**
Reassembly gives the payload only if all indices were delivered, and each of its errors may be
retried. -/
theorem every_delivery_counts {k : Keyspace} {chunk : Nat} (hpos : 0 < chunk) {nonce : UInt64}
    {payload : Octets} {b : Batch} (hb : Batch.ofPayload chunk nonce payload = .ok b)
    (hwire : ∀ f ∈ b.fragments, f.claimed ≤ Wire.maxRecordLength)
    (hk : k.Collisionless {f | f ∈ b.fragments}) {calls : List Call}
    (hmember : ∀ c ∈ calls, c.2 ∈ b.fragments) (hfew : (calls.length : Int) ≤ Counter.highest) :
    let g : Ingestor := { keys := k, dedupe := false }
    let s := g.after calls {}
    let D := b.delivered calls
    (∀ n c, calls[n]? = some c → ((g.ingest c.2).alone c.1 (g.after (calls.take n) {})).1 =
      .value (.ok ⟨c.2.index, (n + 1 : Nat), b.header.cardinality, false⟩)) ∧
    (∀ c ∈ calls, (g.ingest c.2).TouchesOnly fun key => ∀ j x, key ≠ k.markerKey j x) ∧
    (∀ j x, s.find? (k.markerKey j x) = none) ∧
    ∀ (m : Reassembler) (o : Operation) (now : Instant), m.keys = k → o.header = b.header →
      (calls.length = 0 → (m.reassemble o).alone now s =
        (.value (.error (.counterMissing nonce (Checksum.compute payload)), o), s)) ∧
      (0 < calls.length → calls.length < b.header.cardinality.toNat → (m.reassemble o).alone now s =
        (.value (.error (.incomplete calls.length b.header.cardinality), o), s)) ∧
      (b.header.cardinality.toNat ≤ calls.length → D ≠ b.indices →
        ∃ x < b.header.cardinality, x ∉ D ∧ (∀ y < x, y ∈ D) ∧
          (m.reassemble o).alone now s = (.value (.error (.fragmentMissing x), o), s)) ∧
      (D = b.indices → (m.reassemble o).alone now s =
        (.value (.ok (), { o with payload := some payload }), s)) ∧
      (∀ e, ((m.reassemble o).alone now s).1 = .value (.error e, o) → e.retryable = true) := by
  intro g s D
  obtain ⟨hcut, hnonce⟩ := Batch.cut_of_claimed hpos hb hwire
  have hs : Repeated k b (b.identityOf payload) calls s :=
    repeated_after hcut hk (fun _ hf => hf) hmember hfew
  refine ⟨fun n c hn => ?_, fun c _ => Ingestor.ingest_avoids_markers (g := g) rfl c.2, hs.unmarked,
    fun m o now hm ho => ?_⟩
  · obtain ⟨hlt, hc⟩ := List.getElem?_eq_some_iff.1 hn
    have hlen : (calls.take n).length = n := List.length_take_of_le hlt.le
    have hbefore : Repeated k b (b.identityOf payload) (calls.take n) (g.after (calls.take n) {}) :=
      repeated_after hcut hk (fun _ hf => hf)
        (fun d hd => hmember d (List.mem_of_mem_take hd)) (by omega)
    obtain ⟨s', hs', -⟩ :=
      hbefore.ingest hcut hk (fun _ hf => hf) (hmember c (List.mem_of_getElem? hn)) (by omega)
    rw [hs', hlen]
  · have hcounter :
      s.CountsTo (m.keys.countKey (b.identityOf payload)) calls.length := hm ▸ hs.counter
    have hnone : calls.length = 0 → _ := fun h₀ =>
      hnonce ▸ hcut.reassemble_of_countsTo_zero ho (h₀ ▸ hcounter) now
    have hsome := fun h₀ hlt => hcut.reassemble_of_countsTo_lt ho hcounter h₀ hlt now
    have hmissing := fun hle hD => hs.exists_missing hcut hm ho hfew hle hD now
    have hall := fun hD => hs.reassemble_all hcut hm ho hfew hD now
    refine ⟨hnone, hsome, hmissing, hall, fun e he => ?_⟩
    rcases Nat.eq_zero_or_pos calls.length with h₀ | h₀
    · rw [hnone h₀] at he
      cases he
      rfl
    rcases Nat.lt_or_ge calls.length b.header.cardinality.toNat with hlt | hle
    · rw [hsome h₀ hlt] at he
      cases he
      rfl
    by_cases hD : D = b.indices
    · rw [hall hD] at he
      cases he
    · obtain ⟨x, -, -, -, hx⟩ := hmissing hle hD
      rw [hx] at he
      cases he
      rfl

/-- The first fragment comes three times, so that the counter goes past the two fragments without
the second one. -/
theorem smallFirst_thrice_missing :
    let g : Ingestor := { keys := ⟨"relay"⟩, dedupe := false }
    let m : Reassembler := { keys := ⟨"relay"⟩ }
    let o : Operation := { header := Batch.smallBatch.header }
    let calls : List Call := [(0, Batch.smallFirst), (4, Batch.smallFirst), (5, Batch.smallFirst)]
    (m.reassemble o).alone 6 (g.after calls {}) =
      (.value (.error (.fragmentMissing 1), o), g.after calls {}) := by
  intro g m o calls
  have hb : Batch.ofPayload 2 5 [1, 2, 3] = .ok Batch.smallBatch := rfl
  have hmember : ∀ c ∈ calls, c.2 ∈ Batch.smallBatch.fragments := by
    simp [calls, Batch.smallFirst_mem]
  have hD : Batch.smallBatch.delivered calls = {0} := by decide +kernel
  obtain ⟨-, -, -, hreassemble⟩ :=
    every_delivery_counts (by decide : 0 < 2) hb Batch.smallBatch_cut.claimed_le
    (Batch.collisionless_of_small fun _ hf => hf) hmember (by decide)
  obtain ⟨x, hx, hout, -, hrun⟩ := (hreassemble m o 6 rfl rfl).2.2.1 (by decide) (by decide +kernel)
  rcases Batch.lt_smallBatch_cardinality hx with rfl | rfl
  · exact absurd (Finset.mem_singleton_self _) (hD ▸ hout)
  · exact hrun

end FragmentRelay
