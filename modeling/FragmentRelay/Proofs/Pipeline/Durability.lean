import FragmentRelay.Proofs.Ingest.Account
import FragmentRelay.Proofs.Pipeline.Run
import FragmentRelay.Proofs.Reassembly.FirstFault

/-!
# Durability: what is acknowledged can be loaded again

An ingest worker that acknowledges a delivery will not see it again, so everything that a reassembly
needs of it has to be in the store by then. The record is written before anything else, in its
shortest form whatever form was delivered, and no later request of the same delivery comes near its
key; it then passes the checks of the loading side, which are those it has passed already. Any
failure in between refuses the delivery.

* `Ingestor.find?_of_ingest_ok`: the record of an ingestion that succeeds, whatever fails besides.
* `Reassembler.loadFragment_of_record`: the record is loaded as the fragment that it was.
* `FragmentHandling.exists_ingested_of_ack`: what is acknowledged was ingested;
  `Deployment.handle_ingest` says that a worker settles a delivery so.
* `acknowledged_fragment_reloads`: all of it, for one delivery.
-/

namespace FragmentRelay

/-! ### The record of an ingestion -/

namespace Ingestor

variable {σ : Type} {g : Ingestor} {i : Identity} {f : Fragment} {faults : Faults σ} {now : Instant}
  {w w' : σ} {s s' : Store}

theorem rest_touchesOnly (g : Ingestor) (i : Identity) (f : Fragment) :
    (if g.dedupe then g.toMark i f else g.toTally i f).TouchesOnly fun key =>
      key = g.keys.markerKey i f.index ∨ key = g.keys.countKey i := by
  split
  · exact (countOnce_touchesOnly _ _).bind fun _ => trivial
  · exact ⟨.inr rfl, fun r => by cases r <;> trivial⟩

/-- **An ingestion that succeeds has left its record**, with the deadline that was asked for. -/
theorem find?_of_ingest_ok (hf : f.Genuine) (hi : f.BelongsTo i) {a : Ingested}
    (h : (g.ingest f).run faults now w s = (.value (.ok a), w', s')) :
    s'.find? (g.keys.persistenceKey i f.index) =
      some ⟨Wire.encode f, g.ttl.map fun span => now + span.nanos⟩ := by
  have hapart : ¬ (g.keys.persistenceKey i f.index = g.keys.markerKey i f.index ∨
      g.keys.persistenceKey i f.index = g.keys.countKey i) :=
    not_or.2 ⟨g.keys.persistenceKey_ne_markerKey _ _ _ _,
      (g.keys.countKey_ne_persistenceKey _ _ _).symm⟩
  rw [ingest_eq_write hf hi] at h
  simp only [Access.run] at h
  split at h
  · rename_i w₁ _
    split at h
    · rename_i s₁ hset
      have hkept := Access.find?_run (rest_touchesOnly g i f).writesOnly hapart faults now w₁ s₁
      rw [h] at hkept
      exact hkept.trans (Store.find?_self_of_set hset)
    · cases h
  · cases h
  · cases h

end Ingestor

/-! ### The record on the loading side -/

/-- **The record of a genuine fragment is loaded as that fragment**, for every header that names its
operation and has its cardinality. -/
theorem Reassembler.loadFragment_of_record {m : Reassembler} {f : Fragment} {i : Identity}
    {h : Header} {t : Store} {later : Instant} (hf : f.Genuine) (hi : f.BelongsTo i)
    (hread : Wire.decode Fragment (Wire.encode f) = .ok f)
    (hget : t.get later (m.keys.persistenceKey i f.index) = some (Wire.encode f))
    (hnonce : h.nonce = f.nonce) (hsum : h.checksum = f.reassembledChecksum)
    (hcard : h.cardinality = f.cardinality) :
    h.identity = .ok i.operation ∧
    (m.loadFragment i.operation h f.index).alone later t = (.value (.ok f), t) := by
  obtain ⟨sums, hs⟩ := hf.sound
  have hpos : h.cardinality ≠ 0 := fun h₀ => by
    have hlt := (Fragment.validate_ok_iff.1 hs).index_lt
    rw [← hcard, h₀] at hlt
    exact absurd hlt (by simp [UInt32.lt_iff_toNat_lt])
  have hid : h.identity = .ok i.operation := Header.identity_ok_iff.2
    ⟨Header.validate_ok_iff.2 ⟨hi.checksum_eq.symm.trans hsum.symm, hpos⟩,
      hi.nonce_eq.symm.trans hnonce.symm, rfl⟩
  exact ⟨hid, loadFragment_alone hid
    { record := ⟨_, hget, hread⟩
      fits := ⟨⟨sums, hs⟩, rfl, hnonce.symm, hcard.symm, hsum.symm, hf.own_eq⟩ }⟩

/-! ### How a worker settles -/

namespace FragmentHandling

variable {σ : Type} {g : Ingestor} {body : Octets} {f : Fragment} {faults : Faults σ}
  {now : Instant} {w : σ} {s : Store}

theorem exists_ingested_of_ack (hd : Wire.decode Fragment body = .ok f)
    (hf : f.Genuine) {after : Span}
    (hack : settledAs after ((ofBody g body).run faults now w s).1 = .ack) :
    ∃ a w' s', (g.ingest f).run faults now w s = (.value (.ok a), w', s') ∧
      ((ofBody g body).run faults now w s).2.2 = s' := by
  obtain ⟨i, hi⟩ := hf.exists_belongsTo
  rw [run_of_decode hd] at hack ⊢
  rcases hrun : (g.ingest f).run faults now w s with ⟨r | text, w', s'⟩
  · rw [hrun] at hack
    obtain ⟨e | c, rfl⟩ := Ingestor.exists_answer hf hi hrun
    · cases hack
    · exact ⟨_, w', s', rfl, rfl⟩
  · rw [hrun] at hack
    cases hack

theorem settledAs_of_record_failed (hd : Wire.decode Fragment body = .ok f)
    (hf : f.Genuine) {i : Identity} (hi : f.BelongsTo i) (after : Span)
    (hfail : (faults w (.set (g.keys.persistenceKey i f.index))).1 ≠ .pass ∨
      s.set now (g.keys.persistenceKey i f.index) (Wire.encode f) g.ttl = none) :
    settledAs after ((ofBody g body).run faults now w s).1 = .nack after ∧
      ((ofBody g body).run faults now w s).2.2 = s := by
  obtain ⟨hend, hstore⟩ := Ingestor.run_of_record_failed hf hi hfail
  rw [run_of_decode hd]
  rcases hrun : (g.ingest f).run faults now w s with ⟨r | text, w', s'⟩
  · rw [hrun] at hend hstore
    obtain ⟨e, he⟩ := hend.resolve_right fun ⟨text, h⟩ => by cases h
    cases he
    exact ⟨rfl, hstore⟩
  · rw [hrun] at hstore
    exact ⟨rfl, hstore⟩

theorem settledAs_of_unsound
    (hbad : ∀ f sums, Wire.decode Fragment body = .ok f → f.validate ≠ .ok sums) (after : Span) :
    settledAs after ((ofBody g body).run faults now w s).1 = .ack ∧
      ((ofBody g body).run faults now w s).2 = (w, s) := by
  cases hd : Wire.decode Fragment body with
  | error e =>
    rw [run_of_undecodable hd]
    exact ⟨rfl, rfl⟩
  | ok f =>
    cases hv : f.validate with
    | error d =>
      have hingest : g.ingest f = .done (.error (.malformed d)) := by
        rw [Ingestor.ingest, hv]
        rfl
      rw [run_of_decode hd, hingest]
      exact ⟨rfl, rfl⟩
    | ok sums => exact absurd hv (hbad f sums hd)

end FragmentHandling

/-- **An acknowledged fragment can be loaded again.** If its record could not be written the
delivery is refused, and if its bytes spell no sound fragment it is acknowledged; either way the
store is as before. -/
theorem acknowledged_fragment_reloads (g : Ingestor) (after : Span) (body : Octets) {σ : Type}
    (faults : Faults σ) (now : Instant) (w : σ) (s : Store) :
    let ended := (FragmentHandling.ofBody g body).run faults now w s
    (∀ f, Wire.decode Fragment body = .ok f → f.Genuine → ∃ i, f.identity = .ok i ∧
      (FragmentHandling.settledAs after ended.1 = .ack →
        ended.2.2.find? (g.keys.persistenceKey i f.index) =
        some ⟨Wire.encode f, g.ttl.map fun span => now + span.nanos⟩) ∧
      (∀ (t : Store) (later : Instant), t.get later (g.keys.persistenceKey i f.index) =
        some (Wire.encode f) →
        ∀ (m : Reassembler) (h : Header), m.keys = g.keys → h.nonce = f.nonce →
          h.checksum = f.reassembledChecksum → h.cardinality = f.cardinality →
          ∃ j, h.identity = .ok j ∧ (m.loadFragment j h f.index).alone later t =
            (.value (.ok f), t)) ∧
      ((faults w (.set (g.keys.persistenceKey i f.index))).1 ≠ .pass ∨
        s.set now (g.keys.persistenceKey i f.index) (Wire.encode f) g.ttl = none →
          FragmentHandling.settledAs after ended.1 = .nack after ∧ ended.2.2 = s)) ∧
    ((∀ f sums, Wire.decode Fragment body = .ok f → f.validate ≠ .ok sums) →
      FragmentHandling.settledAs after ended.1 = .ack ∧ ended.2.2 = s) := by
  intro ended
  refine ⟨fun f hd hf => ?_, fun hbad => ?_⟩
  · obtain ⟨i, hi⟩ := hf.exists_belongsTo
    have hown : f.BelongsTo (i.withIndex f.index) := hi.congr rfl rfl
    have hread : Wire.decode Fragment (Wire.encode f) = .ok f := by
      refine Wire.decode_encode_fragment ?_
      rw [← Wire.claimedBy_fragment]
      exact (Wire.exists_forms_of_decode hd).2
    refine ⟨_, hi.identity_eq, fun hack => ?_, fun t later hget m h hm hnonce hsum hcard => ?_,
      fun hfail => ?_⟩
    · obtain ⟨a, w', s', hrun, hend⟩ := FragmentHandling.exists_ingested_of_ack hd hf hack
      rw [hend]
      exact Ingestor.find?_of_ingest_ok hf hown hrun
    · rw [← hm] at hget
      exact ⟨_, Reassembler.loadFragment_of_record hf hown hread hget hnonce hsum hcard⟩
    · exact FragmentHandling.settledAs_of_record_failed hd hf hown after hfail
  · obtain ⟨hack, hstore⟩ := FragmentHandling.settledAs_of_unsound hbad after
    exact ⟨hack, congrArg (·.2) hstore⟩

/-- The first fragment of the small batch, with its numbers longer than they need to be. -/
def overlongFirst : Octets :=
  Wire.tag Fragment ++ [251, 0, 0] ++ [252, 2, 0, 0, 0] ++ [253, 5, 0, 0, 0, 0, 0, 0, 0] ++
    251 :: 16 :: 0 :: (Checksum.compute [1, 2, 3]).octets ++ Wire.writeOctets
      (Checksum.compute [1, 2]).octets ++
    [252, 2, 0, 0, 0] ++ Wire.writeOctets [1, 2]

theorem overlongFirst_stored_short :
    let g : Ingestor := { keys := ⟨"relay"⟩ }
    let i : Identity := { nonce := 5, checksum := Checksum.compute [1, 2, 3], index := some 0 }
    let ended := (FragmentHandling.ofBody g overlongFirst).run Faults.none 0 () {}
    Wire.decode Fragment overlongFirst = .ok Batch.smallFirst ∧
    overlongFirst ≠ Wire.encode Batch.smallFirst ∧
      ended.2.2.find? (g.keys.persistenceKey i Batch.smallFirst.index) =
        some ⟨Wire.encode Batch.smallFirst, none⟩ := by
  intro g i ended
  have hd : Wire.decode Fragment overlongFirst = .ok Batch.smallFirst := by decide +kernel
  obtain ⟨j, hj, hack, -⟩ :=
    (acknowledged_fragment_reloads g (.ofMillis 5) overlongFirst Faults.none 0 () {}).1 _ hd
    (Batch.smallBatch_cut.genuine Batch.smallFirst_mem)
  have hid : Batch.smallFirst.identity = .ok i := by decide +kernel
  obtain rfl : i = j := Except.ok.inj (hid.symm.trans hj)
  have hlength : overlongFirst.length ≠ (Wire.encode Batch.smallFirst).length := by decide +kernel
  have hsettled : FragmentHandling.settledAs (.ofMillis 5)
      ((FragmentHandling.ofBody { keys := ⟨"relay"⟩ } overlongFirst).run Faults.none 0 () {}).1 =
        .ack := by
    decide +kernel
  have hrecord := hack hsettled
  exact ⟨hd, fun he => hlength (congrArg List.length he), by rw [hrecord]; rfl⟩

end FragmentRelay
