import FragmentRelay.Proofs.Reassembly.AnyOrder
import FragmentRelay.Proofs.Store.Deadlines

/-!
# Permutation: the order of deliveries does not show

Fragments are delivered one after the other to a store that is empty at first, with deduplication
and without a deadline. What a single delivery does depends on those before it: the first one of a
fragment moves its marker and the counter, a later one moves the marker alone. But the store that is
left has a closed form in which the order does not occur. Under the keys of a fragment stand its
record and how often it was delivered, under the counter of an operation how many of its indices
were, and nothing else stands anywhere.

* `Replica`: the closed form, for all fragments of a family and not only for those that were
  delivered.
* `Replica.ingest`, `replica_after`: one delivery, and any number of them.
* `Residue.find?_eq`: stores of this form with the same deliveries agree.
* `Store.perm_entries`: stores that agree have the same entries.
* `store_after_deliveries`: the store after any calls, and after the same calls in another order.
-/

namespace FragmentRelay

/-! ### Stores that agree -/

namespace Store

variable {s t : Store} {key : Key} {e : Entry}

/-- **Stores in which the same is found under every key have the same entries**, if no key occurs
twice. -/
theorem perm_entries (hs : s.keys.Nodup) (ht : t.keys.Nodup)
    (h : ∀ key, s.find? key = t.find? key) : s.entries.Perm t.entries := by
  refine (List.perm_ext_iff_of_nodup (List.Nodup.of_map _ hs) (List.Nodup.of_map _ ht)).2 ?_
  rintro ⟨key, e⟩
  rw [mem_entries_iff hs, mem_entries_iff ht, h key]

end Store

theorem Ingestor.nodup_keys_after (g : Ingestor) (calls : List Call) {s : Store}
    (h : s.keys.Nodup) : (g.after calls s).keys.Nodup := by
  induction calls generalizing s with
  | nil => exact h
  | cons c rest ih => exact ih (Access.nodup_keys_alone h _ _)

/-! ### Families of fragments -/

/-- In a family the name of a fragment determines it. -/
def Determined (fs : Set Fragment) : Prop := ∀ f ∈ fs, ∀ f' ∈ fs,
  f.nonce = f'.nonce → f.reassembledChecksum = f'.reassembledChecksum → f.index = f'.index → f = f'

/-- The indices of an operation that are among some fragments. -/
def indicesAmong (i : Identity) (sent : List Fragment) : Finset UInt32 :=
  ((sent.filter fun f => f.BelongsTo i).map (·.index)).toFinset

variable {k : Keyspace} {fs : Set Fragment} {sent sent' : List Fragment} {f f' : Fragment}
  {i j : Identity} {s s' t : Store} {x : UInt32}

theorem mem_indicesAmong : x ∈ indicesAmong i sent ↔ ∃ f ∈ sent, f.BelongsTo i ∧ f.index = x := by
  simp [indicesAmong, and_assoc]

theorem indicesAmong_append_own (hi : f.BelongsTo i) :
    indicesAmong i (sent ++ [f]) = insert f.index (indicesAmong i sent) := by
  ext x
  simp [indicesAmong, hi]

theorem indicesAmong_append_other (hi : ¬ f.BelongsTo i) :
    indicesAmong i (sent ++ [f]) = indicesAmong i sent := by
  simp [indicesAmong, hi]

theorem indicesAmong_perm (h : sent.Perm sent') : indicesAmong i sent = indicesAmong i sent' := by
  ext x
  simp only [mem_indicesAmong, h.mem_iff]

theorem indicesAmong_congr (hn : i.nonce = j.nonce) (hc : i.checksum = j.checksum) :
    indicesAmong i sent = indicesAmong j sent := by
  ext x
  simp only [mem_indicesAmong]
  constructor
  · rintro ⟨f, hf, hi, hx⟩
    exact ⟨f, hf, hi.congr hn hc, hx⟩
  · rintro ⟨f, hf, hj, hx⟩
    exact ⟨f, hf, hj.congr hn.symm hc.symm, hx⟩

/-- Fragments of one operation with one index are the same. -/
theorem Determined.eq (h : Determined fs) (hf : f ∈ fs) (hf' : f' ∈ fs) (hi : f.BelongsTo i)
    (hj : f'.BelongsTo j)
    (hsame : i.nonce = j.nonce ∧ i.checksum = j.checksum ∧ f.index = f'.index) : f = f' := by
  have hi' := hi.congr hsame.1 hsame.2.1
  exact h f hf f' hf' (hi'.nonce_eq.trans hj.nonce_eq.symm)
    (hi'.checksum_eq.trans hj.checksum_eq.symm) hsame.2.2

theorem Determined.count_eq_zero_iff (h : Determined fs) (hsent : ∀ f ∈ sent, f ∈ fs) (hf : f ∈ fs)
    (hi : f.BelongsTo i) : sent.count f = 0 ↔ f.index ∉ indicesAmong i sent := by
  rw [List.count_eq_zero, not_iff_not, mem_indicesAmong]
  constructor
  · exact fun hmem => ⟨f, hmem, hi, rfl⟩
  · rintro ⟨f', hmem, hi', hindex⟩
    rwa [← h.eq (hsent f' hmem) hf hi' hi ⟨rfl, rfl, hindex⟩]

theorem Determined.not_owns_of_ne (h : Determined fs) (hk : k.Collisionless fs)
    (hf : f ∈ fs) (hf' : f' ∈ fs) (hj : f'.BelongsTo j) (hne : f' ≠ f) {p : Purpose}
    (hp : p.perFragment = true) : ¬ k.Owns f (k.derive (j.withIndex f'.index) p) := by
  have hpurpose : ∀ {q : Purpose} {l : Identity} {x : UInt32}, q.perFragment = true →
    f.BelongsTo l → x = f.index →
      k.derive (j.withIndex f'.index) p ≠ k.derive (l.withIndex x) q := by
    rintro q l x hq hl rfl he
    obtain ⟨rfl, -⟩ := Keyspace.derive_inj.1 he
    exact hne (h.eq hf' hf hj hl (hk.eq_of_perFragment hf' hf hj hl hp he))
  rintro ⟨l, hl, he | he | he⟩
  · obtain ⟨rfl, -⟩ := Keyspace.derive_inj.1 he
    cases hp
  · exact hpurpose (q := .persistence) rfl hl rfl he
  · exact hpurpose (q := .ingestMarker) rfl hl rfl he

/-! ### The closed form -/

/-- What a store holds after some deliveries, seen from all fragments of a family. -/
structure Replica (k : Keyspace) (fs : Set Fragment) (sent : List Fragment) (s : Store) : Prop where
  record : ∀ f ∈ sent, ∀ i, f.BelongsTo i →
    s.find? (k.persistenceKey i f.index) = some ⟨Wire.encode f, none⟩
  marker : ∀ f ∈ fs, ∀ i, f.BelongsTo i → s.CountsTo (k.markerKey i f.index) (sent.count f)
  counter : ∀ f ∈ fs, ∀ i, f.BelongsTo i → s.CountsTo (k.countKey i) (indicesAmong i sent).card
  nothing : ∀ key, (∀ f ∈ sent, ¬ k.Owns f key) → s.find? key = none

namespace Replica

theorem empty (k : Keyspace) (fs : Set Fragment) : Replica k fs [] {} where
  record _ hf := absurd hf List.not_mem_nil
  marker _ _ _ _ := Store.countsTo_empty _
  counter _ _ _ _ := Store.countsTo_empty _
  nothing _ _ := rfl

/-- **One more delivery keeps the form**, if it leaves its record, moves its marker on, and the
counter knows all indices. -/
theorem arrive (h : Replica k fs sent s) (hk : k.Collisionless fs) (hdet : Determined fs)
    (hsent : ∀ f ∈ sent, f ∈ fs) (hf : f ∈ fs) (hi : f.BelongsTo i)
    (hrecord : s'.find? (k.persistenceKey i f.index) = some ⟨Wire.encode f, none⟩)
    (hmarker : s'.CountsTo (k.markerKey i f.index) (sent.count f + 1))
    (hcounter : s'.CountsTo (k.countKey i) (insert f.index (indicesAmong i sent)).card)
    (hrest : ∀ key, ¬ k.Owns f key → s'.find? key = s.find? key) :
    Replica k fs (sent ++ [f]) s' where
  record f' hf' j hj := by
    by_cases hsame : f' = f
    · subst hsame
      have hkey : k.persistenceKey j f'.index = k.persistenceKey i f'.index :=
        congrArg (k.derive · .persistence) (hj.withIndex_eq hi f'.index)
      rw [hkey]
      exact hrecord
    · have hold : f' ∈ sent := by simpa [hsame] using hf'
      have hout := hdet.not_owns_of_ne hk hf (hsent f' hold) hj hsame (p := .persistence) rfl
      exact (hrest _ hout).trans (h.record f' hold j hj)
  marker f' hf' j hj := by
    by_cases hsame : f' = f
    · subst hsame
      have hkey : k.markerKey j f'.index = k.markerKey i f'.index :=
        congrArg (k.derive · .ingestMarker) (hj.withIndex_eq hi f'.index)
      rw [hkey, List.count_append, List.count_singleton_self]
      exact hmarker
    · have hout := hdet.not_owns_of_ne hk hf hf' hj hsame (p := .ingestMarker) rfl
      rw [List.count_append, List.count_singleton,
        if_neg (by simpa using Ne.symm hsame), Nat.add_zero]
      exact (h.marker f' hf' j hj).of_find?_eq (hrest _ hout)
  counter f' hf' j hj := by
    by_cases hown : f.BelongsTo j
    · obtain ⟨hn, hc⟩ := hown.unique hi
      rw [indicesAmong_append_own hown, indicesAmong_congr hn hc, hown.countKey_eq hi k]
      exact hcounter
    · have hout := hk.not_owns hf' hf hj hown ⟨j, hj, .inl rfl⟩
      rw [indicesAmong_append_other hown]
      exact (h.counter f' hf' j hj).of_find?_eq (hrest _ hout)
  nothing key hkey := by
    have hout : ¬ k.Owns f key := hkey f (by simp)
    rw [hrest key hout]
    exact h.nothing key fun f' hf' => hkey f' (List.mem_append_left _ hf')

/-- **The step for one delivery.** Whether it is the first of its fragment or not, the form is
kept. -/
theorem ingest (h : Replica k fs sent s) (hk : k.Collisionless fs) (hdet : Determined fs)
    (hsent : ∀ f ∈ sent, f ∈ fs) (hf : f ∈ fs) (hgen : f.Genuine)
    (hfew : (sent.length : Int) < Counter.highest) (now : Instant) :
    Replica k fs (sent ++ [f]) ((Ingestor.ingest { keys := k } f).alone now s).2 := by
  obtain ⟨i, hi⟩ := hgen.exists_belongsTo
  have hpm := k.persistenceKey_ne_markerKey i i f.index f.index
  have hpc := (k.countKey_ne_persistenceKey i i f.index).symm
  have hcm := k.countKey_ne_markerKey i i f.index
  have hzero := hdet.count_eq_zero_iff hsent hf hi
  -- The record is written first, and neither the marker nor the counter moves.
  have hmark := (h.marker f hf i hi).insert_of_ne (e := ⟨Wire.encode f, none⟩) hpm.symm
  have hcount := (h.counter f hf i hi).insert_of_ne (e := ⟨Wire.encode f, none⟩) hpc.symm
  have hlow : ((sent.count f : Nat) : Int) < Counter.highest := by
    have := List.count_le_length (a := f) (l := sent)
    omega
  have hcard := Counter.card_lt_highest (indicesAmong i sent)
  have hpos : sent.count f ≠ 0 → 0 < (indicesAmong i sent).card := fun hne =>
    Finset.card_pos.2 ⟨_, not_not.1 (mt hzero.2 hne)⟩
  obtain ⟨s', hrun, hmark', hcount', hrest⟩ :=
    Ingestor.countOnce_alone now hmark hlow hcount (by omega) hpos hcm
  rw [Batch.card_insert_of_marker hzero] at hcount'
  rw [Ingestor.ingest_alone (g := { keys := k }) hgen hi rfl rfl hrun]
  refine h.arrive hk hdet hsent hf hi ?_ hmark' hcount' fun key hkey => ?_
  · rw [hrest _ hpm hpc, Store.find?_insert_self]
  · rw [hrest key (fun he => hkey ⟨i, hi, .inr (.inr he)⟩) (fun he => hkey ⟨i, hi, .inl he⟩),
      Store.find?_insert_of_ne fun he => hkey ⟨i, hi, .inr (.inl he)⟩]

end Replica

/-- **After any calls the store has the closed form.** -/
theorem replica_after (hk : k.Collisionless fs) (hdet : Determined fs) {calls : List Call}
    (hcalls : ∀ c ∈ calls, c.2 ∈ fs ∧ c.2.Genuine) (hfew : (calls.length : Int) ≤ Counter.highest) :
    Replica k fs (calls.map (·.2)) (Ingestor.after { keys := k } calls {}) := by
  induction calls using List.reverseRecOn with
  | nil => exact Replica.empty k fs
  | append_singleton calls c ih =>
    rw [List.length_append, List.length_singleton] at hfew
    have hbefore := ih (fun c hc => hcalls c (List.mem_append_left _ hc)) (by omega)
    obtain ⟨hf, hgen⟩ := hcalls c (by simp)
    have hsent : ∀ f ∈ calls.map (·.2), f ∈ fs := by
      intro f hf
      obtain ⟨c', hc', rfl⟩ := List.mem_map.1 hf
      exact (hcalls c' (List.mem_append_left _ hc')).1
    rw [Ingestor.after, List.foldl_append, List.map_append]
    exact hbefore.ingest hk hdet hsent hf hgen (by rw [List.length_map]; omega) c.1

/-! ### What is left -/

/-- What a store holds after some deliveries: the record of each fragment and the number of its
deliveries, for each operation the number of its indices that were delivered, and nothing else. -/
structure Residue (k : Keyspace) (sent : List Fragment) (s : Store) : Prop where
  record : ∀ f ∈ sent, ∀ i, f.BelongsTo i →
    s.find? (k.persistenceKey i f.index) = some ⟨Wire.encode f, none⟩
  marker : ∀ f ∈ sent, ∀ i, f.BelongsTo i →
    s.find? (k.markerKey i f.index) = some ⟨Counter.encode (sent.count f), none⟩
  counter : ∀ f ∈ sent, ∀ i, f.BelongsTo i →
    s.find? (k.countKey i) = some ⟨Counter.encode (indicesAmong i sent).card, none⟩
  nothing : ∀ key, (∀ f ∈ sent, ¬ k.Owns f key) → s.find? key = none

theorem Replica.residue (h : Replica k fs sent s) (hsent : ∀ f ∈ sent, f ∈ fs) :
    Residue k sent s where
  record := h.record
  marker f hf i hi := by
    have hmarker := h.marker f (hsent f hf) i hi
    rwa [Store.CountsTo, if_neg (List.count_pos_iff.2 hf).ne'] at hmarker
  counter f hf i hi := by
    have hcounter := h.counter f (hsent f hf) i hi
    have hmem : f.index ∈ indicesAmong i sent := mem_indicesAmong.2 ⟨f, hf, hi, rfl⟩
    rwa [Store.CountsTo, if_neg (Finset.card_ne_zero_of_mem hmem)] at hcounter
  nothing := h.nothing

/-- **Stores that are left by the same deliveries agree under every key**, in whatever order these
came. -/
theorem Residue.find?_eq (hs : Residue k sent s) (ht : Residue k sent' t)
    (h : sent.Perm sent') (key : Key) : s.find? key = t.find? key := by
  by_cases hkey : ∃ f ∈ sent, k.Owns f key
  · obtain ⟨f, hf, i, hi, rfl | rfl | rfl⟩ := hkey
    · rw [hs.counter f hf i hi, ht.counter f (h.mem_iff.1 hf) i hi, indicesAmong_perm h]
    · rw [hs.record f hf i hi, ht.record f (h.mem_iff.1 hf) i hi]
    · rw [hs.marker f hf i hi, ht.marker f (h.mem_iff.1 hf) i hi, h.count_eq]
  · have hout : ∀ f ∈ sent, ¬ k.Owns f key := fun f hf hown => hkey ⟨f, hf, hown⟩
    rw [hs.nothing key hout, ht.nothing key fun f hf => hout f (h.mem_iff.2 hf)]

theorem determined_of_batches {bs : Set (Batch × Octets)} (hcut : ∀ p ∈ bs, p.1.Cut p.2)
    (hname : ∀ p ∈ bs, ∀ q ∈ bs, p.1.identityOf p.2 = q.1.identityOf q.2 → p = q) :
    Determined {f | ∃ p ∈ bs, f ∈ p.1.fragments} := by
  rintro f ⟨p, hp, hf⟩ f' ⟨q, hq, hf'⟩ hnonce hsum hindex
  have hi := (hcut p hp).belongsTo hf
  have hj := (hcut q hq).belongsTo hf'
  have hsame : p.1.identityOf p.2 = q.1.identityOf q.2 := by
    have hn : (p.1.identityOf p.2).nonce = (q.1.identityOf q.2).nonce :=
      hi.nonce_eq.symm.trans (hnonce.trans hj.nonce_eq)
    have hc : (p.1.identityOf p.2).checksum = (q.1.identityOf q.2).checksum :=
      Checksum.ext_octets (hi.checksum_eq.symm.trans (hsum.trans hj.checksum_eq))
    rw [Batch.identityOf, Batch.identityOf, Identity.mk.injEq]
    exact ⟨hn, hc, rfl⟩
  obtain rfl := hname p hp q hq hsame
  exact (hcut p hp).eq_of_index hf hf' hindex

/-- **The store after ingestion depends only on which deliveries happened**: it holds a record and
a marker for each fragment, a counter for each operation and nothing else, in whatever order they
came. -/
theorem store_after_deliveries (k : Keyspace) {fs : Set Fragment} (hgen : ∀ f ∈ fs, f.Genuine)
    (hdet : Determined fs) (hk : k.Collisionless fs) {calls : List Call}
    (hcalls : ∀ c ∈ calls, c.2 ∈ fs) (hfew : (calls.length : Int) ≤ Counter.highest) :
    let g : Ingestor := { keys := k }
    Residue k (calls.map (·.2)) (g.after calls {}) ∧
    ∀ calls' : List Call, (calls'.map (·.2)).Perm (calls.map (·.2)) →
      (∀ key, (g.after calls' {}).find? key = (g.after calls {}).find? key) ∧
      (g.after calls' {}).entries.Perm (g.after calls {}).entries := by
  intro g
  have hresidue : ∀ calls' : List Call, (calls'.map (·.2)).Perm (calls.map (·.2)) →
      Residue k (calls'.map (·.2)) (g.after calls' {}) := by
    intro calls' hperm
    have hmem : ∀ c ∈ calls', c.2 ∈ fs := by
      intro c hc
      obtain ⟨c', hc', he⟩ := List.mem_map.1 (hperm.mem_iff.1 (List.mem_map_of_mem hc))
      exact he ▸ hcalls c' hc'
    have hlength : calls'.length = calls.length := by simpa using hperm.length_eq
    refine (replica_after hk hdet (fun c hc => ⟨hmem c hc, hgen _ (hmem c hc)⟩)
      (by omega)).residue fun f hf => ?_
    obtain ⟨c, hc, rfl⟩ := List.mem_map.1 hf
    exact hmem c hc
  have hleft := hresidue calls (List.Perm.refl _)
  refine ⟨hleft, fun calls' hperm => ?_⟩
  have hfind := (hresidue calls' hperm).find?_eq hleft hperm
  have hkeys : ∀ calls : List Call, (g.after calls {}).keys.Nodup := fun calls =>
    g.nodup_keys_after calls List.nodup_nil
  exact ⟨hfind, Store.perm_entries (hkeys calls') (hkeys calls) hfind⟩

/-- The batch of a single byte. -/
def strangeBatch : Batch where
  operation := { header := Batch.headerOf 6 1 [4], payload := some [4] }
  fragments := [strangeFragment]

theorem strangeBatch_cut : strangeBatch.Cut [4] := by
  obtain ⟨b, hb, hcut, -⟩ := Batch.ofPayload_cut (by decide : 0 < 2) (by decide) 6
    (by decide : Batch.slotCount 2 ([4] : Octets).length ≤ maxCardinality)
  obtain rfl : strangeBatch = b := Except.ok.inj hb
  exact hcut

/-- Two batches with their payloads. -/
def twoBatches : Set (Batch × Octets) := {(Batch.smallBatch, [1, 2, 3]), (strangeBatch, [4])}

theorem twoBatches_cut : ∀ p ∈ twoBatches, p.1.Cut p.2 := by
  rintro p (rfl | rfl)
  · exact Batch.smallBatch_cut
  · exact strangeBatch_cut

theorem twoBatches_determined : Determined {f | ∃ p ∈ twoBatches, f ∈ p.1.fragments} := by
  refine determined_of_batches twoBatches_cut fun p hp q hq he => ?_
  have hnonce := congrArg Identity.nonce he
  rcases hp with rfl | rfl <;> rcases hq with rfl | rfl
  · rfl
  · exact absurd hnonce (by decide)
  · exact absurd hnonce (by decide)
  · rfl

theorem twoBatches_collisionless :
    Keyspace.Collisionless ⟨"relay"⟩ {f | ∃ p ∈ twoBatches, f ∈ p.1.fragments} := by
  refine mixedCalls_collisionless.mono ?_
  rintro f ⟨p, rfl | rfl, hf⟩
  · exact .inl hf
  · obtain rfl := List.mem_singleton.1 hf
    exact .inr ⟨strangeBatch_cut.genuine hf, (1, strangeFragment), by simp [mixedCalls], rfl⟩

/-- Deliveries of two batches, one fragment twice. -/
def twoBatchCalls : List Call :=
  [(0, Batch.smallSecond), (1, strangeFragment), (1, Batch.smallSecond), (3, Batch.smallFirst)]

theorem twoBatchCalls_residue :
    let g : Ingestor := { keys := ⟨"relay"⟩ }
    Residue ⟨"relay"⟩ (twoBatchCalls.map (·.2)) (g.after twoBatchCalls {}) ∧
      (g.after twoBatchCalls.reverse {}).entries.Perm (g.after twoBatchCalls {}).entries := by
  intro g
  have hgen : ∀ f ∈ {f | ∃ p ∈ twoBatches, f ∈ p.1.fragments}, f.Genuine := by
    rintro f ⟨p, hp, hf⟩
    exact (twoBatches_cut p hp).genuine hf
  have hcalls : ∀ c ∈ twoBatchCalls, c.2 ∈ {f | ∃ p ∈ twoBatches, f ∈ p.1.fragments} := by
    intro c hc
    simp only [twoBatchCalls, List.mem_cons, List.not_mem_nil, or_false] at hc
    rcases hc with rfl | rfl | rfl | rfl
    · exact ⟨_, .inl rfl, Batch.smallSecond_mem⟩
    · exact ⟨_, .inr rfl, List.mem_singleton_self _⟩
    · exact ⟨_, .inl rfl, Batch.smallSecond_mem⟩
    · exact ⟨_, .inl rfl, Batch.smallFirst_mem⟩
  obtain ⟨hresidue, hperm⟩ :=
    store_after_deliveries ⟨"relay"⟩ hgen twoBatches_determined twoBatches_collisionless
    hcalls (by decide)
  exact ⟨hresidue, (hperm _ (List.map_reverse ▸ List.reverse_perm _)).2⟩

end FragmentRelay
