import FragmentRelay.Proofs.Ingest.Session
import FragmentRelay.Store.Outage

/-!
# Interrupted: counting while requests fail and calls are cut off

Any request of an ingestion may fail, and any ingestion may be cut off before any of its requests.
No index is then counted twice, and the counter never runs ahead of the records, so reassembly finds
a batch in part or as a whole and never in disorder. What may go wrong is the contrary: a marker is
left raised without a count, if an ingestion ends between the two or the release of its marker
fails. Once another index has been counted, all deliveries of this one are accepted as duplicates,
the counter never reaches the cardinality, and no later delivery mends it.

* `counted_at_most_once`: the counter is the number of the indices that were counted, each of them
  once.
* `accepted_restorable`: when a batch of which every index was accepted can be reassembled.
* `stranded_fragment_accepted`: a batch that cannot.
-/

namespace FragmentRelay

/-- The fragments that ingestion calls may write. -/
def sentBy (calls : List Call) : Set Fragment := {f | f.Genuine ∧ ∃ c ∈ calls, c.2 = f}

namespace Session

variable {σ : Type} {k : Keyspace} {b : Batch} {payload : Octets} {x : Session σ}
  {fs sent : Set Fragment} {i : Identity} {calls more : List Call} {faults : Faults σ} {w : σ}

theorem Kept.length_le_persisted (h : x.Kept k fs (sentBy calls) i) :
    (x.counted i).length ≤ (persisted k i (calls.map (·.2)) x.store).card := by
  rw [← List.toFinset_card_of_nodup h.nodup]
  refine Finset.card_le_card fun y hy => mem_persisted.2 ⟨?_, h.tallied.recorded y hy⟩
  obtain ⟨f, ⟨-, c, hc, rfl⟩, -, rfl⟩ := h.tallied.covered y hy
  exact ⟨c.2, List.mem_map_of_mem hc, rfl⟩

/-- The store holds the indices of a batch that were counted. -/
theorem Kept.held (h : x.Kept k fs sent (b.identityOf payload)) (hcut : b.Cut payload)
    (hsent : ∀ f ∈ sent, f.BelongsTo (b.identityOf payload) → f ∈ b.fragments)
    (hfs : ∀ f ∈ b.fragments, f ∈ fs) :
    Held k b (b.identityOf payload) (x.counted (b.identityOf payload)).toFinset x.store where
  subset y hy := by
    obtain ⟨f, hf, hfi, rfl⟩ := h.tallied.covered y hy
    exact Batch.index_mem_indices (hsent f hf hfi)
  counter := h.tallied.counter
  record f hf hin := by
    have hsome := h.tallied.recorded f.index hin
    obtain ⟨e, he⟩ := Option.isSome_iff_exists.1 hsome
    obtain ⟨f', hf', hfi', hindex, rfl⟩ := h.tallied.record f (hfs f hf) (hcut.belongsTo hf) e he
    obtain rfl := hcut.eq_of_index (hsent f' hf' hfi') hf hindex
    exact he

/-- What calls preserve, if no two texts under the keys of what they bring have one digest. -/
theorem Kept.run_sent (h : x.Kept k fs (sentBy calls) i) (hk : k.Collisionless fs)
    (hfs : ∀ c ∈ calls, c.2.Genuine → c.2 ∈ fs) (hsome : ∃ f ∈ fs, f.BelongsTo i)
    (faults : Faults σ) (hmore : more ⊆ calls) :
    Keeps k fs (sentBy calls) i faults x (Session.run { keys := k } faults more x) := by
  have hsent : sentBy calls ⊆ fs := by
    rintro f ⟨hgen, c, hc, rfl⟩
    exact hfs c hc hgen
  exact h.run (g := { keys := k }) hk hsent rfl rfl hsome faults fun c hc hgen =>
    ⟨hfs c (hmore hc) hgen, fun _ => ⟨hgen, c, hmore hc, rfl⟩⟩

theorem kept_after (hk : k.Collisionless fs) (hfs : ∀ c ∈ calls, c.2.Genuine → c.2 ∈ fs)
    (hsome : ∃ f ∈ fs, f.BelongsTo i) (faults : Faults σ) (w : σ) :
    Keeps k fs (sentBy calls) i faults { failures := w }
      (run { keys := k } faults calls { failures := w }) :=
  (Kept.start k fs (sentBy calls) i w).run_sent hk hfs hsome faults (List.Subset.refl calls)

end Session

namespace Batch

variable {b : Batch} {payload : Octets} {calls more : List Call} {f : Fragment}

theorem Admits.mem_of_sent (ha : b.Admits payload calls) (hf : f ∈ sentBy calls)
    (hi : f.BelongsTo (b.identityOf payload)) : f ∈ b.fragments := by
  obtain ⟨hgen, c, hc, rfl⟩ := hf
  rcases ha c hc with hmem | hnot | hother
  · exact hmem
  · exact absurd hgen hnot
  · exact absurd hi hother

/-- The counter has reached the cardinality, and reassembly gives the payload. -/
def Restorable (b : Batch) (payload : Octets) (k : Keyspace) (s : Store) : Prop :=
  s.CountsTo (k.countKey (b.identityOf payload)) b.header.cardinality.toNat ∧
    ∀ (m : Reassembler) (o : Operation) (now : Instant), m.keys = k → o.header = b.header →
      (m.reassemble o).alone now s = (.value (.ok (), { o with payload := some payload }), s)

theorem restorable_iff {k : Keyspace} {D : Finset UInt32} {s : Store} (hcut : b.Cut payload)
    (h : Held k b (b.identityOf payload) D s) :
    b.Restorable payload k s ↔ ∀ y < b.header.cardinality, y ∈ D := by
  have hall : (∀ y < b.header.cardinality, y ∈ D) ↔ D = b.indices := by
    have hindices : ∀ y, y ∈ b.indices ↔ y < b.header.cardinality :=
      fun y => mem_indices.trans (hcut.mem_iff y)
    constructor
    · intro hin
      exact Finset.Subset.antisymm h.subset fun y hy => hin y ((hindices y).1 hy)
    · rintro rfl y hy
      exact (hindices y).2 hy
  rw [hall]
  constructor
  · rintro ⟨hcount, -⟩
    have hsmall := Counter.card_lt_highest D
    have hcard := b.header.cardinality.toNat_lt
    have hhigh : Counter.highest = 9223372036854775807 := rfl
    have h₁ := hcount.countOf_eq (by omega)
    have h₂ := h.counter.countOf_eq (by omega)
    exact h.eq_indices_of_card hcut (by omega)
  · intro hD
    have hcard : D.card = b.header.cardinality.toNat := by rw [hD, hcut.card_indices]
    refine ⟨?_, fun m o now hm ho => h.reassemble_all hcut hm ho hcard.ge now⟩
    rw [← hcard]
    exact h.counter

end Batch

/-! ### At most once -/

/-- **No index is counted twice, whatever fails.** A call may also be cut off before any of its
requests, so all states in the middle of a call are covered. -/
theorem counted_at_most_once {σ : Type} {k : Keyspace} {calls : List Call} {fs : Set Fragment}
    (hk : k.Collisionless fs) (hfs : ∀ c ∈ calls, c.2.Genuine → c.2 ∈ fs)
    (faults : Faults σ) (w : σ) :
    let x := Session.run { keys := k } faults calls { failures := w }
    (∀ f ∈ fs, ∀ i, f.BelongsTo i →
      (x.counted i).Nodup ∧ x.store.CountsTo (k.countKey i) (x.counted i).length ∧
        (x.counted i).length ≤ (persisted k i (calls.map (·.2)) x.store).card) ∧
      ∀ (chunk : Nat) (nonce : UInt64) (payload : Octets) (b : Batch), 0 < chunk →
        Batch.ofPayload chunk nonce payload = .ok b →
        (∀ f ∈ b.fragments, f ∈ fs ∧ f.claimed ≤ Wire.maxRecordLength) → b.Admits payload calls →
        ∀ (m : Reassembler) (o : Operation) (now : Instant), m.keys = k → o.header = b.header →
          ∃ r, (m.reassemble o).alone now x.store = (.value r, x.store) ∧
            (r = (.error (.counterMissing nonce (Checksum.compute payload)), o) ∨
              (∃ n : Nat, 0 < n ∧ n < b.header.cardinality.toNat ∧
                r = (.error (.incomplete n b.header.cardinality), o)) ∨
              r = (.ok (), { o with payload := some payload })) := by
  intro x
  refine ⟨fun f hf i hi => ?_, fun chunk nonce payload b hpos hb hwire ha m o now hm ho => ?_⟩
  · have hkept := (Session.kept_after hk hfs ⟨f, hf, hi⟩ faults w).kept
    refine ⟨hkept.nodup, ?_, hkept.length_le_persisted⟩
    rw [← List.toFinset_card_of_nodup hkept.nodup]
    exact hkept.tallied.counter
  · obtain ⟨hcut, rfl⟩ := Batch.cut_of_claimed hpos hb fun f hf => (hwire f hf).2
    obtain ⟨f, hf⟩ := List.exists_mem_of_length_pos hcut.positive
    have hkept := (Session.kept_after hk hfs ⟨f, (hwire f hf).1, hcut.belongsTo hf⟩ faults w).kept
    have hheld := hkept.held hcut (fun e he hei => ha.mem_of_sent he hei) fun e he => (hwire e he).1
    exact hheld.exists_reassemble hcut hm ho now

/-- The first fragment, the second one, and the first one again. -/
def returningCalls : List Call :=
  [(0, Batch.smallFirst), (1, Batch.smallSecond), (2, Batch.smallFirst)]

theorem mem_of_returning {c : Call} (hc : c ∈ returningCalls) :
    c.2 ∈ Batch.smallBatch.fragments := by
  simp only [returningCalls, List.mem_cons, List.not_mem_nil, or_false] at hc
  rcases hc with rfl | rfl | rfl
  · exact Batch.smallFirst_mem
  · exact Batch.smallSecond_mem
  · exact Batch.smallFirst_mem

theorem returningCalls_collisionless :
    Keyspace.Collisionless ⟨"relay"⟩ (Batch.smallBatch.traffic returningCalls) := by
  refine Batch.collisionless_of_small fun f hf => ?_
  rcases hf with hf | ⟨-, c, hc, rfl⟩
  · exact hf
  · exact mem_of_returning hc

/-- The first count fails, and so does the second write, which is the release of the marker. -/
def strandingOutage : Outage where
  skipSets := 1
  failSets := 1
  failIncrements := 1
  scope := some "fragments.ingest-count"

theorem returningCalls_counted_at_most_once :
    let x :=
      Session.run { keys := ⟨"relay"⟩ } Outage.rule returningCalls { failures := strandingOutage }
    let i := Batch.smallBatch.identityOf [1, 2, 3]
    (x.counted i).Nodup ∧
      x.store.CountsTo ((⟨"relay"⟩ : Keyspace).countKey i) (x.counted i).length ∧
      (x.counted i).length ≤ (persisted ⟨"relay"⟩ i (returningCalls.map (·.2)) x.store).card ∧
      ∃ r, (Reassembler.reassemble { keys := ⟨"relay"⟩ }
        { header := Batch.smallBatch.header }).alone 3 x.store = (.value r, x.store) := by
  intro x i
  have hcut := Batch.smallBatch_cut
  obtain ⟨f, hf⟩ := List.exists_mem_of_length_pos hcut.positive
  obtain ⟨hcounts, hreassembles⟩ := counted_at_most_once returningCalls_collisionless
    (fun c hc _ => .inl (mem_of_returning hc)) Outage.rule strandingOutage
  obtain ⟨hnodup, hcount, hle⟩ := hcounts f (.inl hf) i (hcut.belongsTo hf)
  obtain ⟨r, hr, -⟩ := hreassembles 2 5 [1, 2, 3] Batch.smallBatch (by decide) rfl
    (fun e he => ⟨.inl he, hcut.claimed_le e he⟩)
    (fun c hc => .inl (mem_of_returning hc)) { keys := ⟨"relay"⟩ }
    { header := Batch.smallBatch.header } 3 rfl rfl
  exact ⟨hnodup, hcount, hle, r, hr⟩

/-! ### Accepted and not counted -/

namespace Session

variable {σ : Type} {k : Keyspace} {b : Batch} {payload : Octets} {calls more : List Call}
  {faults : Faults σ} {w : σ}

theorem held_after (hcut : b.Cut payload) (ha : b.Admits payload calls)
    (hk : k.Collisionless (b.traffic calls)) (faults : Faults σ) (w : σ) :
    let x := run { keys := k } faults calls { failures := w }
    Keeps k (b.traffic calls) (sentBy calls) (b.identityOf payload) faults { failures := w } x ∧
      Held k b (b.identityOf payload) (x.counted (b.identityOf payload)).toFinset x.store := by
  intro x
  obtain ⟨f, hf⟩ := List.exists_mem_of_length_pos hcut.positive
  have hkeeps :
      Keeps k (b.traffic calls) (sentBy calls) (b.identityOf payload) faults { failures := w } x :=
    kept_after hk (fun c hc hgen => .inr ⟨hgen, c, hc, rfl⟩)
      ⟨f, .inl hf, hcut.belongsTo hf⟩ faults w
  exact ⟨hkeeps, hkeeps.kept.held hcut (fun e he hei => ha.mem_of_sent he hei) fun e he => .inl he⟩

theorem not_mem_counted_append {y : UInt32} (hcut : b.Cut payload)
    (hk : k.Collisionless (b.traffic (calls ++ more))) (faults : Faults σ) (w : σ)
    (hy : ∃ r ∈ (run { keys := k } faults calls { failures := w }).accepted (b.identityOf payload),
      r.index = y)
    (hnot : y ∉ (run { keys := k } faults calls { failures := w }).counted (b.identityOf payload)) :
    y ∉ (run { keys := k } faults (calls ++ more) { failures := w }).counted
      (b.identityOf payload) := by
  obtain ⟨f, hf⟩ := List.exists_mem_of_length_pos hcut.positive
  have hsome : ∃ f ∈ b.traffic (calls ++ more), f.BelongsTo (b.identityOf payload) :=
    ⟨f, .inl hf, hcut.belongsTo hf⟩
  have hbrought : ∀ c ∈ calls ++ more, c.2.Genuine → c.2 ∈ b.traffic (calls ++ more) :=
      fun c hc hgen =>
    .inr ⟨hgen, c, hc, rfl⟩
  have hbefore := (Kept.start k _ (sentBy (calls ++ more)) _ w).run_sent hk hbrought hsome faults
    (List.subset_append_left calls more)
  have hafter :=
    hbefore.kept.run_sent hk hbrought hsome faults (List.subset_append_right calls more)
  obtain ⟨r, hr, rfl⟩ := hy
  have hstranded := (hbefore.kept.placed r hr).resolve_left hnot
  have huncounted := (hafter.stranded _ hstranded).uncounted
  rw [run_append]
  exact fun hin => huncounted (List.mem_toFinset.2 hin)

end Session

/-- **When a batch of which every index was accepted can be reassembled**: exactly if each was
accepted once other than as a duplicate. An index that was not, since its marker stayed raised, is
lost to all later calls. -/
theorem accepted_restorable {σ : Type} {k : Keyspace} {chunk : Nat} (hpos : 0 < chunk)
    {nonce : UInt64} {payload : Octets} {b : Batch}
    (hb : Batch.ofPayload chunk nonce payload = .ok b) (hwire : ∀ f ∈ b.fragments,
      f.claimed ≤ Wire.maxRecordLength) {calls : List Call} (ha : b.Admits payload calls)
    (hk : k.Collisionless (b.traffic calls)) (faults : Faults σ) (w : σ)
    (hall : ∀ y < b.header.cardinality, ∃ r ∈ (Session.run { keys := k } faults calls
      { failures := w }).accepted (b.identityOf payload), r.index = y) :
    let x := Session.run { keys := k } faults calls { failures := w }
    (b.Restorable payload k x.store ↔
      ∀ y < b.header.cardinality, y ∈ x.counted (b.identityOf payload)) ∧
      (faults.Sparing k (b.identityOf payload) ∨ b.header.cardinality = 1 →
        b.Restorable payload k x.store) ∧
      (¬ b.Restorable payload k x.store → ∀ more : List Call, b.Admits payload (calls ++ more) →
        k.Collisionless (b.traffic (calls ++ more)) →
        ¬ b.Restorable payload k
          (Session.run { keys := k } faults (calls ++ more) { failures := w }).store) := by
  intro x
  obtain ⟨hcut, -⟩ := Batch.cut_of_claimed hpos hb hwire
  obtain ⟨hkeeps, hheld⟩ := Session.held_after hcut ha hk faults w
  have hiff : b.Restorable payload k x.store ↔
      ∀ y < b.header.cardinality, y ∈ x.counted (b.identityOf payload) := by
    rw [Batch.restorable_iff hcut hheld]
    simp only [List.mem_toFinset, x]
  refine ⟨hiff, fun hgood => hiff.2 fun y hy => ?_, fun hbad more ha' hk' hgood => ?_⟩
  · obtain ⟨r, hr, rfl⟩ := hall y hy
    rcases hgood with hspare | hone
    · have hsteady := hkeeps.steady hspare (.empty k _ _)
      exact hkeeps.kept.index_mem (fun f ⟨hgen, c, hc, he⟩ => .inr ⟨hgen, c, hc, he⟩) hsteady hr
    · -- Something was counted, and there is nothing else.
      obtain ⟨z, hz⟩ := List.exists_mem_of_ne_nil _ (hkeeps.kept.counted_ne_nil hr)
      have hzlt := (hcut.mem_iff z).1 (Batch.mem_indices.1 (hheld.subset (List.mem_toFinset.2 hz)))
      have hsame : r.index = z := by
        rw [hone, UInt32.lt_iff_toNat_lt] at hy hzlt
        rw [← UInt32.toNat_inj]
        have : (1 : UInt32).toNat = 1 := rfl
        omega
      rwa [hsame]
  · rw [hiff] at hbad
    push Not at hbad
    obtain ⟨y, hy, hnot⟩ := hbad
    obtain ⟨-, hheld'⟩ := Session.held_after hcut ha' hk' faults w
    have hin := List.mem_toFinset.1 ((Batch.restorable_iff hcut hheld').1 hgood y hy)
    exact Session.not_mem_counted_append hcut hk' faults w (hall y hy) hnot hin

/-- The first increment of a counter fails, and nothing else does. -/
def firstCountFails (counter : Key) : Faults Bool
  | false, .increment key => if key = counter then (.fail Outage.error, true) else (.pass, false)
  | failed, _ => (.pass, failed)

theorem firstCountFails_sparing (counter : Key) (k : Keyspace) (i : Identity) :
    (firstCountFails counter).Sparing k i where
  count w text h := by
    cases w <;> simp only [firstCountFails] at h
    · split at h <;> cases h
    · cases h
  release w x := by cases w <;> rfl

theorem returningCalls_restorable :
    let k : Keyspace := ⟨"relay"⟩
    let counter := k.countKey (Batch.smallBatch.identityOf [1, 2, 3])
    Batch.smallBatch.Restorable [1, 2, 3] k
      (Session.run { keys := k } (firstCountFails counter) returningCalls
        { failures := false }).store := by
  intro k counter
  have haccepted : (Session.run { keys := k } (firstCountFails counter) returningCalls
      { failures := false }).accepted (Batch.smallBatch.identityOf [1, 2, 3]) =
      [⟨1, 1, 2, false⟩, ⟨0, 2, 2, false⟩] := by
    decide +kernel
  have hb : Batch.ofPayload 2 5 [1, 2, 3] = .ok Batch.smallBatch := rfl
  refine (accepted_restorable (by decide : 0 < 2) hb Batch.smallBatch_cut.claimed_le
    (fun c hc => .inl (mem_of_returning hc)) returningCalls_collisionless _ false
    fun y hy => ?_).2.1 (.inl (firstCountFails_sparing counter k _))
  rw [haccepted]
  rcases Batch.lt_smallBatch_cardinality hy with rfl | rfl <;> simp

/-- The first fragment is not counted, as its count and the release of its marker fail. When it
comes again it is accepted as a duplicate, so both fragments were accepted and the counter stands at
one. -/
theorem stranded_fragment_accepted :
    let k : Keyspace := ⟨"relay"⟩
    let i := Batch.smallBatch.identityOf [1, 2, 3]
    let x := Session.run { keys := k } Outage.rule returningCalls { failures := strandingOutage }
    (∀ y < Batch.smallBatch.header.cardinality, ∃ r ∈ x.accepted i, r.index = y) ∧
      x.store.countOf (k.countKey i) = 1 ∧ ¬ Batch.smallBatch.Restorable [1, 2, 3] k x.store := by
  intro k i x
  obtain ⟨haccepted, hcount⟩ : x.accepted i = [⟨1, 1, 2, false⟩, ⟨0, 1, 2, true⟩] ∧
      x.store.countOf (k.countKey i) = 1 := by
    decide +kernel
  refine ⟨fun y hy => ?_, hcount, fun hgood => ?_⟩
  · rw [haccepted]
    rcases Batch.lt_smallBatch_cardinality hy with rfl | rfl <;> simp
  · rw [hgood.1.countOf_eq (by decide)] at hcount
    exact absurd hcount (by decide)

end FragmentRelay
