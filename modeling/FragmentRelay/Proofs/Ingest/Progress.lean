import FragmentRelay.Proofs.Batch.Cut
import FragmentRelay.Proofs.Ingest.Effect
import Mathlib.Data.Finset.Card

/-!
# Progress: what the store knows of a batch while its fragments arrive

While fragments of a batch arrive in some order, some of them again and others not at all, the store
holds exactly the records of the indices that have arrived, has marked exactly these, and has
counted how many they are. The invariant `Progress` says so. Every ingestion preserves it: one of a
fragment of the batch adds its index, and all others leave it alone.

* `Progress.ingest`: the step for a fragment of the batch, and what the ingestion answers.
* `Progress.ingest_other`: the step for all other fragments, whatever fails.
-/

namespace FragmentRelay

namespace Batch

/-- The indices of a batch. -/
def indices (b : Batch) : Finset UInt32 := (b.fragments.map (·.index)).toFinset

theorem mem_indices {b : Batch} {x : UInt32} : x ∈ b.indices ↔ ∃ f ∈ b.fragments, f.index = x := by
  simp [indices]

theorem index_mem_indices {b : Batch} {f : Fragment} (hf : f ∈ b.fragments) : f.index ∈ b.indices :=
  mem_indices.2 ⟨f, hf, rfl⟩

theorem Cut.card_indices {b : Batch} {payload : Octets} (h : b.Cut payload) :
    b.indices.card = b.header.cardinality.toNat := by
  have hnodup : (b.fragments.map (·.index)).Nodup := by
    refine List.pairwise_iff_getElem.2 fun m n hm hn hlt he => ?_
    simp only [List.length_map] at hm hn
    simp only [List.getElem_map] at he
    have h₁ := h.fits m _ (List.getElem?_eq_getElem hm)
    have h₂ := h.fits n _ (List.getElem?_eq_getElem hn)
    rw [h₁.index_eq, h₂.index_eq] at he
    have hlen := h.length_le
    have he' := congrArg UInt32.toNat he
    simp only [UInt32.size] at hlen
    simp only [UInt32.toNat_ofNat'] at he'
    omega
  rw [indices, List.toFinset_card_of_nodup hnodup, List.length_map, h.cardinality_eq]

theorem Cut.not_owns_of_ne {b : Batch} {payload : Octets} {k : Keyspace} {fs : Set Fragment}
    {f g : Fragment} (h : b.Cut payload) (hk : k.Collisionless fs) (hfs : ∀ f ∈ b.fragments, f ∈ fs)
    (hf : f ∈ b.fragments) (hg : g ∈ b.fragments) (hne : g ≠ f) {p : Purpose}
    (hp : p.perFragment = true) :
    ¬ k.Owns f (k.derive ((b.identityOf payload).withIndex g.index) p) := by
  rintro ⟨j, hj, hkey⟩
  have hsame : ∀ q, p = q → k.derive ((b.identityOf payload).withIndex g.index) p =
    k.derive (j.withIndex f.index) q →
      False := by
    rintro q rfl he
    obtain ⟨-, -, hx⟩ := hk.eq_of_perFragment (hfs g hg) (hfs f hf) (h.belongsTo hg) hj hp he
    exact hne (h.eq_of_index hg hf hx)
  rcases hkey with he | he | he
  · rw [(Keyspace.derive_inj.1 he).1] at hp
    cases hp
  · exact hsame _ (Keyspace.derive_inj.1 he).1 he
  · exact hsame _ (Keyspace.derive_inj.1 he).1 he

/-- The number of indices after one more arrives, by whether its marker has counted before. -/
theorem card_insert_of_marker {D : Finset UInt32} {x : UInt32} {m : Nat} (h : m = 0 ↔ x ∉ D) :
    (if m = 0 then D.card + 1 else D.card) = (insert x D).card := by
  split
  · rename_i h₀
    rw [Finset.card_insert_of_notMem (h.1 h₀)]
  · rename_i h₀
    rw [Finset.insert_eq_self.2 (not_not.1 (mt h.2 h₀))]

end Batch

/-- What a store knows of a batch of which the fragments with some indices have arrived in a number
of deliveries. -/
structure Progress (k : Keyspace) (b : Batch) (i : Identity) (arrived : Finset UInt32)
    (deliveries : Nat) (s : Store) : Prop where
  subset : arrived ⊆ b.indices
  counter : s.CountsTo (k.countKey i) arrived.card
  record : ∀ f ∈ b.fragments,
    s.find? (k.persistenceKey i f.index) = if f.index ∈ arrived
      then some ⟨Wire.encode f, none⟩ else none
  marker : ∀ f ∈ b.fragments, ∃ m, s.CountsTo (k.markerKey i f.index) m ∧
    (m = 0 ↔ f.index ∉ arrived) ∧
    m ≤ deliveries ∧ (m : Int) ≤ Counter.highest

namespace Progress

variable {k : Keyspace} {b : Batch} {payload : Octets} {i : Identity} {D : Finset UInt32} {n : Nat}
  {s s' : Store} {fs : Set Fragment} {f : Fragment}

theorem empty (k : Keyspace) (b : Batch) (i : Identity) : Progress k b i ∅ 0 {} where
  subset := Finset.empty_subset _
  counter := Store.countsTo_empty _
  record _ _ := rfl
  marker _ _ := ⟨0, Store.countsTo_empty _, by simp, Nat.le_refl _, by decide⟩

theorem card_le (h : Progress k b i D n s) (hcut : b.Cut payload) :
    D.card ≤ b.header.cardinality.toNat :=
  hcut.card_indices ▸ Finset.card_le_card h.subset

/-! ### What others leave alone -/

theorem of_find?_eq (h : Progress k b i D n s) (hb : ∀ f ∈ b.fragments, f.BelongsTo i)
    (hne : b.fragments ≠ []) (he : ∀ f ∈ b.fragments, ∀ key, k.Owns f key →
      s'.find? key = s.find? key) : Progress k b i D n s' where
  subset := h.subset
  counter := by
    obtain ⟨f, hf⟩ := List.exists_mem_of_ne_nil _ hne
    exact h.counter.of_find?_eq (he f hf _ ⟨i, hb f hf, .inl rfl⟩)
  record f hf := (he f hf _ ⟨i, hb f hf, .inr (.inl rfl)⟩).trans (h.record f hf)
  marker f hf := by
    obtain ⟨m, hm, hrest⟩ := h.marker f hf
    exact ⟨m, hm.of_find?_eq (he f hf _ ⟨i, hb f hf, .inr (.inr rfl)⟩), hrest⟩

theorem mono (h : Progress k b i D n s) {n' : Nat} (hn : n ≤ n') : Progress k b i D n' s where
  subset := h.subset
  counter := h.counter
  record := h.record
  marker f hf := by
    obtain ⟨m, hm, hzero, hle, hhigh⟩ := h.marker f hf
    exact ⟨m, hm, hzero, Nat.le_trans hle hn, hhigh⟩

/-- **A fragment that is not genuine or belongs to another operation changes nothing, whatever
fails.** -/
theorem ingest_other {σ : Type} (h : Progress k b (b.identityOf payload) D n s)
    (hcut : b.Cut payload) (hk : k.Collisionless fs) (hfs : ∀ f ∈ b.fragments, f ∈ fs)
    {g : Ingestor} (hg : g.keys = k) (hf : f.Genuine → f ∈ fs ∧
      ¬ f.BelongsTo (b.identityOf payload)) (faults : Faults σ) (now : Instant) (w : σ) :
    Progress k b (b.identityOf payload) D n ((g.ingest f).run faults now w s).2.2 := by
  subst hg
  refine h.of_find?_eq (fun f hf => hcut.belongsTo hf) (List.ne_nil_of_length_pos hcut.positive) ?_
  intro e he key hkey
  refine Ingestor.find?_ingest_of_not_owned (fun hgen => ?_) faults w
  obtain ⟨hmem, hother⟩ := hf hgen
  exact hk.not_owns (hfs e he) hmem (hcut.belongsTo he) hother hkey

/-! ### A fragment of the batch -/

/-- The index of a fragment is added once its record stands, its marker counts, and the counter
knows. -/
theorem arrive (h : Progress k b (b.identityOf payload) D n s) (hcut : b.Cut payload)
    (hk : k.Collisionless fs) (hfs : ∀ f ∈ b.fragments, f ∈ fs) (hf : f ∈ b.fragments)
    (hframe : ∀ key, ¬ k.Owns f key → s'.find? key = s.find? key)
    (hcount : s'.CountsTo (k.countKey (b.identityOf payload)) (insert f.index D).card)
    (hrecord : s'.find? (k.persistenceKey (b.identityOf payload) f.index) =
      some ⟨Wire.encode f, none⟩)
    (hmarker : ∃ m, s'.CountsTo (k.markerKey (b.identityOf payload) f.index) (m + 1) ∧
      m + 1 ≤ n + 1 ∧
      ((m + 1 : Nat) : Int) ≤ Counter.highest) :
    Progress k b (b.identityOf payload) (insert f.index D) (n + 1) s' := by
  refine ⟨Finset.insert_subset (Batch.index_mem_indices hf) h.subset, hcount, fun g hg =>
    ?_, fun g hg => ?_⟩
  · by_cases hgf : g = f
    · subst hgf
      simpa using hrecord
    · rw [Keyspace.persistenceKey, hframe _ (hcut.not_owns_of_ne hk hfs hf hg hgf rfl),
        ← Keyspace.persistenceKey, h.record g hg]
      have : g.index ≠ f.index := fun he => hgf (hcut.eq_of_index hg hf he)
      simp [this]
  · by_cases hgf : g = f
    · subst hgf
      obtain ⟨m, hm, hle, hhigh⟩ := hmarker
      exact ⟨m + 1, hm, by simp, hle, hhigh⟩
    · obtain ⟨m, hm, hzero, hle, hhigh⟩ := h.marker g hg
      have : g.index ≠ f.index := fun he => hgf (hcut.eq_of_index hg hf he)
      exact ⟨m, hm.of_find?_eq (hframe _ (hcut.not_owns_of_ne hk hfs hf hg hgf rfl)),
        by simp [hzero, this], Nat.le_succ_of_le hle, hhigh⟩

/-- **The step for a fragment of the batch.** Its index is among those that have arrived afterwards,
and the answer says how many these are and whether it was among them before; only if its marker
cannot count any further is the answer an error. -/
theorem ingest (h : Progress k b (b.identityOf payload) D n s) (hcut : b.Cut payload)
    (hk : k.Collisionless fs) (hfs : ∀ f ∈ b.fragments, f ∈ fs) {g : Ingestor} (hg : g.keys = k)
    (httl : g.ttl = none) (hdedupe : g.dedupe = true) (hf : f ∈ b.fragments) (now : Instant) :
    ∃ r s', (g.ingest f).alone now s = (.value r, s') ∧
      Progress k b (b.identityOf payload) (insert f.index D) (n + 1) s' ∧
      (r = .ok ⟨f.index, (insert f.index D).card, b.header.cardinality, decide (f.index ∈ D)⟩ ∨
        f.index ∈ D ∧ Counter.highest ≤ n ∧ ∃ e, r = .error (.store e)) := by
  subst hg
  have hi := hcut.belongsTo hf
  have hgen := hcut.genuine hf
  have hsmall := Counter.card_lt_highest D
  -- The record is written first; it stands under a key of its own.
  have hpc :=
    g.keys.countKey_ne_persistenceKey (b.identityOf payload) (b.identityOf payload) f.index
  have hpm :=
    g.keys.persistenceKey_ne_markerKey (b.identityOf payload) (b.identityOf payload) f.index f.index
  have hcm := g.keys.countKey_ne_markerKey (b.identityOf payload) (b.identityOf payload) f.index
  have hcount := h.counter.insert_of_ne (e := ⟨Wire.encode f, none⟩) hpc
  obtain ⟨m, hm, hzero, hle, hhigh⟩ := h.marker f hf
  have hmark := hm.insert_of_ne (e := ⟨Wire.encode f, none⟩) hpm.symm
  have hmem : m ≠ 0 ↔ f.index ∈ D := by rw [Ne, hzero, not_not]
  have hframe : ∀ key, ¬ g.keys.Owns f key →
      (s.insert (g.keys.persistenceKey (b.identityOf payload) f.index) ⟨Wire.encode f, none⟩).find?
        key = s.find? key :=
    fun key hkey => Store.find?_insert_of_ne fun he => hkey ⟨_, hi, .inr (.inl he)⟩
  rcases Int.lt_or_eq_of_le hhigh with hlow | htop
  · obtain ⟨s', hs', hmark', hcount', hrest⟩ :=
      Ingestor.countOnce_alone now hmark hlow hcount (by omega)
      (fun h₀ => Finset.card_pos.2 ⟨_, hmem.1 h₀⟩) hcm
    rw [Batch.card_insert_of_marker hzero] at hs' hcount'
    refine ⟨_, _, Ingestor.ingest_alone hgen hi httl hdedupe hs', ?_, .inl ?_⟩
    · refine h.arrive hcut hk hfs hf (fun key hkey => ?_) hcount' ?_ ⟨m, hmark', by omega, by omega⟩
      · rw [hrest key (fun he => hkey ⟨_, hi, .inr (.inr he)⟩) (fun he => hkey ⟨_, hi, .inl he⟩),
          hframe key hkey]
      · rw [hrest _ hpm hpc.symm, Store.find?_insert_self]
    · simp [Ingestor.answer, hmem, (hcut.fits_of_mem hf).cardinality_eq]
  · have hold : f.index ∈ D := hmem.1 fun h₀ => absurd htop (by rw [h₀]; decide)
    obtain ⟨l, rfl⟩ : ∃ l, m = l + 1 := Nat.exists_eq_succ_of_ne_zero (hmem.2 hold)
    refine ⟨_, _, Ingestor.ingest_alone hgen hi httl hdedupe
      (Ingestor.countOnce_highest hmark htop), ?_, .inr ⟨hold, by omega, _, rfl⟩⟩
    refine h.arrive hcut hk hfs hf hframe ?_ ?_ ⟨l, hmark, by omega, hhigh⟩
    · rw [Finset.insert_eq_self.2 hold]
      exact hcount
    · exact Store.find?_insert_self _ _ _

end Progress

end FragmentRelay
