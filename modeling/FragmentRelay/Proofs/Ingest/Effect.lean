import FragmentRelay.Proofs.Key.Separation
import FragmentRelay.Proofs.Store.Locality
import FragmentRelay.Ingest
import Mathlib.Data.Finset.Card

/-!
# Effect: what one ingestion does to the store

A fragment that is not genuine is turned away without a request. A genuine one touches only the
three keys of its own, so that fragments of other operations do not touch an operation whose keys do
not collide with theirs. Counting is described by the number that a key has counted (`CountsTo`),
where zero is an absent entry.

* `ingest_of_not_genuine`, `ingest_of_genuine`: the two ways in which an ingestion starts.
* `find?_ingest_of_not_owned`: what is not a fragment's own is left as it was, whatever fails.
* `HoldsCounter.of_increment`, `HoldsCounter.of_increment_error`: counting where the number may have
  been put back to zero.
* `countOnce_first`, `countOnce_again`, `countOnce_highest`: a first delivery, a later one, and one
  too many.
* `countOnce_alone`: what all deliveries but one too many do.
* `ingest_alone_of_set`: an ingestion that nothing fails, from the way its record is written and its
  fragment counted.
-/

namespace FragmentRelay

/-- A fragment that ingestion accepts: it is sound and its bytes have the checksum that it
carries. -/
structure Fragment.Genuine (f : Fragment) : Prop where
  sound : ∃ sums, f.validate = .ok sums
  own_eq : (Checksum.compute f.payload).octets = f.checksum

theorem Fragment.Genuine.exists_belongsTo {f : Fragment} (h : f.Genuine) :
    ∃ i : Identity, f.BelongsTo i := by
  obtain ⟨sums, hs⟩ := h.sound
  exact ⟨{ nonce := f.nonce, checksum := sums.reassembled }, rfl,
    (Fragment.validate_ok_iff.1 hs).whole_octets.symm⟩

namespace Keyspace

/-- The keys under which a fragment is recorded, marked and counted. -/
def Owns (k : Keyspace) (f : Fragment) (key : Key) : Prop :=
  ∃ i : Identity, f.BelongsTo i ∧
    (key = k.countKey i ∨ key = k.persistenceKey i f.index ∨ key = k.markerKey i f.index)

/-- **Fragments of different operations have no key in common.** -/
theorem Collisionless.not_owns {k : Keyspace} {fs : Set Fragment} {f g : Fragment}
    {i : Identity} {key : Key} (h : k.Collisionless fs) (hf : f ∈ fs) (hg : g ∈ fs)
    (hi : f.BelongsTo i) (hgi : ¬ g.BelongsTo i) (hkey : k.Owns f key) : ¬ k.Owns g key := by
  obtain ⟨j, hj, hkj⟩ := hkey
  rintro ⟨l, hl, hkl⟩
  obtain ⟨hn, hc⟩ := hi.unique hj
  have hother : ¬ (l.nonce = j.nonce ∧ l.checksum = j.checksum) := fun e =>
    hgi (hl.congr (e.1.trans hn.symm) (e.2.trans hc.symm))
  have hpurpose : ∀ {p q : Purpose} {a c : Identity}, k.derive a p = k.derive c q →
      p = q := fun he =>
    not_not.1 fun hne => derive_ne_of_purpose hne he
  rcases hkj with rfl | rfl | rfl <;> rcases hkl with he | he | he
  · obtain ⟨e₁, e₂⟩ := h.eq_of_count hf hg hj hl he
    exact hother ⟨e₁.symm, e₂.symm⟩
  · exact absurd (hpurpose he) (by decide)
  · exact absurd (hpurpose he) (by decide)
  · exact absurd (hpurpose he) (by decide)
  · obtain ⟨e₁, e₂, -⟩ := h.eq_of_perFragment hf hg hj hl (p := .persistence) rfl he
    exact hother ⟨e₁.symm, e₂.symm⟩
  · exact absurd (hpurpose he) (by decide)
  · exact absurd (hpurpose he) (by decide)
  · exact absurd (hpurpose he) (by decide)
  · obtain ⟨e₁, e₂, -⟩ := h.eq_of_perFragment hf hg hj hl (p := .ingestMarker) rfl he
    exact hother ⟨e₁.symm, e₂.symm⟩

end Keyspace

/-! ### Numbers counted under a key -/

namespace Store

variable {s : Store} {now : Instant} {key other : Key} {e : Entry} {n m : Nat}

/-- A key has counted to a number: there is no entry at zero, and else the number without a
deadline. -/
def CountsTo (s : Store) (key : Key) (n : Nat) : Prop :=
  s.find? key = if n = 0 then none else some ⟨Counter.encode n, none⟩

theorem CountsTo.of_find?_eq {t : Store} (h : s.CountsTo key n) (he : t.find? key = s.find? key) :
    t.CountsTo key n :=
  he.trans h

theorem countsTo_empty (key : Key) : ({} : Store).CountsTo key 0 := rfl

theorem countsTo_insert_self (n : Nat) :
    (s.insert key ⟨Counter.encode (n + 1 : Nat), none⟩).CountsTo key (n + 1) :=
  find?_insert_self _ _ _

theorem CountsTo.insert_of_ne (h : s.CountsTo key n) (hne : key ≠ other) :
    (s.insert other e).CountsTo key n :=
  h.of_find?_eq (find?_insert_of_ne hne)

theorem CountsTo.increment (h : s.CountsTo key n) (hn : (n : Int) < Counter.highest) :
    s.increment now key =
      .ok ((n + 1 : Nat), s.insert key ⟨Counter.encode (n + 1 : Nat), none⟩) := by
  unfold CountsTo at h
  split at h
  · rename_i h₀
    subst h₀
    exact increment_absent h
  · exact increment_counter h (by have : Counter.lowest = -9223372036854775808 := rfl; omega) hn

theorem CountsTo.get_zero (h : s.CountsTo key 0) : s.get now key = none := get_of_find?_none h

theorem CountsTo.get_pos (h : s.CountsTo key n) (hn : 0 < n) :
    s.get now key = some (Counter.encode n) := by
  unfold CountsTo at h
  rw [if_neg (by omega)] at h
  exact get_of_find?_some h

end Store

theorem Counter.decode_encode_natCast {n : Nat} (hn : (n : Int) ≤ Counter.highest) :
    Counter.decode (Counter.encode n) = some (n : Int) :=
  Counter.decode_encode (by have : Counter.lowest = -9223372036854775808 := rfl; omega) hn

/-- The number that a key counts: zero without an entry. -/
def Store.countOf (s : Store) (key : Key) : Int :=
  ((s.find? key).bind fun e => Counter.decode e.bytes).getD 0

theorem Store.CountsTo.countOf_eq {s : Store} {key : Key} {n : Nat} (h : s.CountsTo key n)
    (hn : (n : Int) ≤ Counter.highest) : s.countOf key = n := by
  unfold CountsTo at h
  split at h
  · rename_i h₀
    simp [countOf, h, h₀]
  · simp [countOf, h, Counter.decode_encode_natCast hn]

namespace Store

variable {s s' : Store} {now : Instant} {key other : Key} {e : Entry} {v : Int}

/-- A key has no entry, or a number without a deadline that increments can reach. -/
def HoldsCounter (s : Store) (key : Key) : Prop :=
  s.find? key = none ∨ ∃ v : Int, 0 ≤ v ∧ v ≤ Counter.highest ∧
  s.find? key = some ⟨Counter.encode v, none⟩

theorem countOf_of_find?_eq {t : Store} (h : t.find? key = s.find? key) :
    t.countOf key = s.countOf key := by
  rw [countOf, countOf, h]

theorem countOf_insert_of_ne (h : key ≠ other) : (s.insert other e).countOf key = s.countOf key :=
  countOf_of_find?_eq (find?_insert_of_ne h)

theorem countOf_of_find?_none (h : s.find? key = none) : s.countOf key = 0 := by simp [countOf, h]

theorem countOf_of_find?_some (h : s.find? key = some ⟨Counter.encode v, none⟩) (h₀ : 0 ≤ v)
    (h₁ : v ≤ Counter.highest) : s.countOf key = v := by
  have hlow : Counter.lowest ≤ v := le_trans (by decide) h₀
  simp [countOf, h, Counter.decode_encode hlow h₁]

theorem countOf_insert_self (h₀ : 0 ≤ v) (h₁ : v ≤ Counter.highest) :
    (s.insert key ⟨Counter.encode v, none⟩).countOf key = v :=
  countOf_of_find?_some (find?_insert_self _ _ _) h₀ h₁

theorem holdsCounter_insert_self (h₀ : 0 ≤ v) (h₁ : v ≤ Counter.highest) :
    (s.insert key ⟨Counter.encode v, none⟩).HoldsCounter key :=
  .inr ⟨v, h₀, h₁, find?_insert_self _ _ _⟩

namespace HoldsCounter

theorem of_find?_eq {t : Store} (h : s.HoldsCounter key) (he : t.find? key = s.find? key) :
    t.HoldsCounter key := by
  rw [HoldsCounter, he]
  exact h

theorem insert_of_ne (h : s.HoldsCounter key) (hne : key ≠ other) :
    (s.insert other e).HoldsCounter key :=
  h.of_find?_eq (find?_insert_of_ne hne)

theorem countOf_nonneg (h : s.HoldsCounter key) : 0 ≤ s.countOf key := by
  rcases h with hnone | ⟨v, h₀, h₁, hv⟩
  · rw [countOf_of_find?_none hnone]
  · rw [countOf_of_find?_some hv h₀ h₁]
    exact h₀

theorem of_increment (h : s.HoldsCounter key) (hi : s.increment now key = .ok (v, s')) :
    v = s.countOf key + 1 ∧ v ≤ Counter.highest ∧ s' = s.insert key ⟨Counter.encode v, none⟩ := by
  rcases h with hnone | ⟨u, h₀, h₁, hu⟩
  · rw [increment_absent hnone] at hi
    cases hi
    exact ⟨by rw [countOf_of_find?_none hnone]; rfl, by decide, rfl⟩
  · have hcount := countOf_of_find?_some hu h₀ h₁
    have hlow : Counter.lowest ≤ u := le_trans (by decide) h₀
    rcases lt_or_eq_of_le h₁ with hlt | htop
    · rw [increment_counter hu hlow hlt] at hi
      cases hi
      exact ⟨by rw [hcount], by omega, rfl⟩
    · rw [htop] at hu
      rw [increment_highest hu] at hi
      cases hi

theorem of_increment_error {error : StoreError} (h : s.HoldsCounter key)
    (hi : s.increment now key = .error error) : s.countOf key = Counter.highest := by
  rcases h with hnone | ⟨u, h₀, h₁, hu⟩
  · rw [increment_absent hnone] at hi
    cases hi
  · have hlow : Counter.lowest ≤ u := le_trans (by decide) h₀
    rcases lt_or_eq_of_le h₁ with hlt | htop
    · rw [increment_counter hu hlow hlt] at hi
      cases hi
    · rw [countOf_of_find?_some hu h₀ h₁, htop]

end HoldsCounter

theorem CountsTo.holdsCounter {n : Nat} (h : s.CountsTo key n) (hn : (n : Int) ≤ Counter.highest) :
    s.HoldsCounter key := by
  unfold CountsTo at h
  split at h
  · exact .inl h
  · exact .inr ⟨n, by omega, hn, h⟩

theorem CountsTo.eq_zero_of_decode_none {n : Nat} (h : s.CountsTo key n)
    (hn : (n : Int) ≤ Counter.highest)
    (hv : (s.get now key).bind Counter.decode = none) : n = 0 := by
  by_contra hne
  rw [h.get_pos (Nat.pos_of_ne_zero hne), Option.bind_some, Counter.decode_encode_natCast hn] at hv
  cases hv

end Store

theorem Counter.card_lt_highest (D : Finset UInt32) :
    ((D.card + 1 : Nat) : Int) < Counter.highest := by
  have h := Finset.card_le_card_of_injOn UInt32.toNat (s := D) (t := Finset.range UInt32.size)
    (fun x _ => by simpa using x.toNat_lt) (fun x _ y _ he => UInt32.toNat_inj.1 he)
  rw [Finset.card_range] at h
  have : Counter.highest = 9223372036854775807 := rfl
  have : UInt32.size = 4294967296 := rfl
  omega

/-- The indices of some fragments of an operation under which there is a record. -/
def persisted (k : Keyspace) (i : Identity) (fs : List Fragment) (s : Store) : Finset UInt32 :=
  ((fs.map (·.index)).toFinset).filter fun x => (s.find? (k.persistenceKey i x)).isSome

theorem mem_persisted {k : Keyspace} {i : Identity} {fs : List Fragment} {s : Store} {x : UInt32} :
    x ∈ persisted k i fs s ↔ (∃ f ∈ fs, f.index = x) ∧
    (s.find? (k.persistenceKey i x)).isSome = true := by
  simp [persisted]

namespace Ingestor

open Access Store

variable {g : Ingestor} {f : Fragment} {i : Identity} {now : Instant} {s : Store}
  {marker counter : Key} {n m : Nat}

/-! ### The start of an ingestion -/

theorem ingest_of_not_genuine (g : Ingestor) (h : ¬ f.Genuine) :
    ∃ e, g.ingest f = .done (.error e) := by
  unfold ingest
  cases hv : f.validate with
  | error d => exact ⟨_, rfl⟩
  | ok sums =>
    simp only
    split
    · exact ⟨_, rfl⟩
    · rename_i hver
      refine absurd ⟨⟨sums, hv⟩, ?_⟩ h
      rw [Bool.not_eq_false, Checksum.verify_iff] at hver
      rw [hver, (Fragment.validate_ok_iff.1 hv).own_octets]

theorem ingest_of_genuine (g : Ingestor) (h : f.Genuine) (hi : f.BelongsTo i) :
    g.ingest f = g.persist f (i.withIndex f.index) := by
  obtain ⟨sums, hs⟩ := h.sound
  obtain ⟨n, c, x⟩ := i
  have hsound := Fragment.validate_ok_iff.1 hs
  have hw : sums.reassembled = c := Checksum.ext_octets (hsound.whole_octets.trans hi.checksum_eq)
  have hv : sums.fragment.verify f.payload = true :=
    (Checksum.verify_iff _ _).2 (Checksum.ext_octets (h.own_eq.trans hsound.own_octets.symm))
  have hn : f.nonce = n := hi.nonce_eq
  simp only [ingest, hs, hv, hw, hn, Bool.true_eq_false, if_false, Identity.withIndex]

/-! ### The keys it touches -/

theorem countFirst_touchesOnly (marker counter : Key) :
    (countFirst marker counter).TouchesOnly fun key => key = marker ∨ key = counter := by
  refine ⟨.inr rfl, fun r => ?_⟩
  cases r with
  | ok v => trivial
  | error e => exact ⟨.inl rfl, fun _ => trivial⟩

theorem countOnce_touchesOnly (marker counter : Key) :
    (countOnce marker counter).TouchesOnly fun key => key = marker ∨ key = counter := by
  refine ⟨.inl rfl, fun r => ?_⟩
  cases r with
  | error e => trivial
  | ok deliveries =>
    simp only [done_bind]
    split
    · refine ⟨.inr rfl, fun r => ?_⟩
      cases r with
      | error e => trivial
      | ok raw =>
        simp only [done_bind]
        split
        · trivial
        · exact countFirst_touchesOnly marker counter
    · exact countFirst_touchesOnly marker counter

theorem persist_touchesOnly (g : Ingestor) (f : Fragment) (i : Identity) :
    (g.persist f i).TouchesOnly fun key =>
    key = g.keys.countKey i ∨ key = g.keys.persistenceKey i f.index ∨
    key = g.keys.markerKey i f.index := by
  refine ⟨.inr (.inl rfl), fun r => ?_⟩
  cases r with
  | error e => trivial
  | ok u =>
    simp only [done_bind, bind_eq]
    split
    · refine TouchesOnly.bind ((countOnce_touchesOnly _ _).mono fun key hk => ?_) fun r => ?_
      · rcases hk with rfl | rfl
        · exact .inr (.inr rfl)
        · exact .inl rfl
      · cases r <;> trivial
    · refine TouchesOnly.bind ⟨.inl rfl, fun r => ?_⟩ fun r => ?_
      · cases r <;> trivial
      · cases r <;> trivial

/-- An ingestion makes requests for the keys of its fragment, and only if that is genuine. -/
theorem ingest_touchesOnly (g : Ingestor) (f : Fragment) :
    (g.ingest f).TouchesOnly fun key => f.Genuine ∧ g.keys.Owns f key := by
  by_cases h : f.Genuine
  · obtain ⟨i, hi⟩ := h.exists_belongsTo
    rw [ingest_of_genuine g h hi]
    refine (persist_touchesOnly g f _).mono fun key hk => ⟨h, i, hi, ?_⟩
    simpa using hk
  · obtain ⟨e, he⟩ := ingest_of_not_genuine g h
    rw [he]
    trivial

/-- **What is not a fragment's own is left as it was, whatever fails.** -/
theorem find?_ingest_of_not_owned {σ : Type} {key : Key} (h : f.Genuine → ¬ g.keys.Owns f key)
    (faults : Faults σ) (w : σ) : ((g.ingest f).run faults now w s).2.2.find? key = s.find? key :=
  find?_run (ingest_touchesOnly g f).writesOnly (fun hk => h hk.1 hk.2) faults now w s

/-! ### Counting -/

theorem countFirst_alone (hc : s.CountsTo counter n) (hn : (n : Int) < Counter.highest) :
    (countFirst marker counter).alone now s =
      (.value (.ok ((n + 1 : Nat), false)),
        s.insert counter ⟨Counter.encode (n + 1 : Nat), none⟩) := by
  simp only [countFirst, bind_eq, count_bind]
  rw [alone_increment_ok (hc.increment hn)]
  rfl

theorem countOnce_first (hm : s.CountsTo marker 0) (hc : s.CountsTo counter n)
    (hn : (n : Int) < Counter.highest) (hne : counter ≠ marker) :
    (countOnce marker counter).alone now s = (.value (.ok ((n + 1 : Nat), false)),
      (s.insert marker ⟨Counter.encode (1 : Nat), none⟩).insert counter
        ⟨Counter.encode (n + 1 : Nat), none⟩) := by
  simp only [countOnce, bind_eq, count_bind]
  rw [alone_increment_ok (hm.increment (by decide))]
  exact countFirst_alone (hc.insert_of_ne hne) hn

theorem countOnce_again (hm : s.CountsTo marker (m + 1))
    (hm' : ((m + 1 : Nat) : Int) < Counter.highest) (hc : s.CountsTo counter n) (hn₀ : 0 < n)
    (hn : (n : Int) ≤ Counter.highest) (hne : counter ≠ marker) :
    (countOnce marker counter).alone now s =
      (.value (.ok ((n : Int), true)),
        s.insert marker ⟨Counter.encode (m + 1 + 1 : Nat), none⟩) := by
  have hlate : (1 : Int) < (m + 1 + 1 : Nat) := by omega
  simp only [countOnce, bind_eq, count_bind]
  rw [alone_increment_ok (hm.increment hm')]
  simp only [hlate, if_true, read_bind, alone_get, (hc.insert_of_ne hne).get_pos hn₀,
    Option.bind_some, Counter.decode_encode_natCast hn, pure_eq, alone_done]

/-- **Counting a fragment once.** The marker goes up, and the counter with it if that is for the
first time. -/
theorem countOnce_alone (now : Instant) (hm : s.CountsTo marker m)
    (hm' : (m : Int) < Counter.highest) (hc : s.CountsTo counter n)
    (hn : (n : Int) < Counter.highest) (hpos : m ≠ 0 → 0 < n) (hne : counter ≠ marker) :
    ∃ s', (countOnce marker counter).alone now s =
        (.value (.ok (((if m = 0 then n + 1 else n : Nat) : Int), decide (m ≠ 0))), s') ∧
      s'.CountsTo marker (m + 1) ∧ s'.CountsTo counter (if m = 0 then n + 1 else n) ∧
      ∀ key, key ≠ marker → key ≠ counter → s'.find? key = s.find? key := by
  cases m with
  | zero =>
    refine ⟨_, countOnce_first hm hc hn hne, (countsTo_insert_self 0).insert_of_ne hne.symm,
      countsTo_insert_self n, fun key h₁ h₂ => ?_⟩
    rw [find?_insert_of_ne h₂, find?_insert_of_ne h₁]
  | succ m =>
    exact ⟨_, countOnce_again hm hm' hc (hpos (Nat.succ_ne_zero m)) (Int.le_of_lt hn) hne,
      countsTo_insert_self (m + 1), hc.insert_of_ne hne, fun key h₁ _ => find?_insert_of_ne h₁⟩

theorem countOnce_highest (hm : s.CountsTo marker m) (hm' : (m : Int) = Counter.highest) :
    (countOnce marker counter).alone now s = (.value (.error (.notACounter marker)), s) := by
  have hfind : s.find? marker = some ⟨Counter.encode Counter.highest, none⟩ := by
    unfold CountsTo at hm
    rw [if_neg (by have : Counter.highest = 9223372036854775807 := rfl; omega), hm'] at hm
    exact hm
  simp only [countOnce, bind_eq, count_bind]
  rw [alone_increment_error (increment_highest hfind)]
  rfl

/-- What persisting a fragment answers, once it has been counted or not. -/
def answer (f : Fragment) : Except StoreError (Int × Bool) → Except IngestError Ingested
  | .error e => .error (.store e)
  | .ok (ingested, duplicate) => .ok ⟨f.index, ingested, f.cardinality, duplicate⟩

/-- An ingestion that nothing fails, from the writing of the record and the way in which the
fragment is counted. -/
theorem ingest_alone_of_set (hf : f.Genuine) (hi : f.BelongsTo i)
    (hdedupe : g.dedupe = true) {s₀ s' : Store}
    (hset : s.set now (g.keys.persistenceKey i f.index) (Wire.encode f) g.ttl = some s₀)
    {r : Except StoreError (Int × Bool)}
    (hr : (countOnce (g.keys.markerKey i f.index) (g.keys.countKey i)).alone now s₀ =
      (.value r, s')) :
    (g.ingest f).alone now s = (.value (answer f r), s') := by
  rw [ingest_of_genuine g hf hi]
  simp only [persist, bind_eq, write_bind, hdedupe, if_true, Keyspace.persistenceKey_withIndex,
    Keyspace.markerKey_withIndex, Keyspace.countKey_withIndex]
  rw [alone_set_ok hset, alone_bind, hr]
  rcases r with e | ⟨v, d⟩ <;> rfl

theorem ingest_alone (hf : f.Genuine) (hi : f.BelongsTo i) (httl : g.ttl = none)
    (hdedupe : g.dedupe = true) {r : Except StoreError (Int × Bool)} {s' : Store}
    (hr : (countOnce (g.keys.markerKey i f.index) (g.keys.countKey i)).alone now
      (s.insert (g.keys.persistenceKey i f.index) ⟨Wire.encode f, none⟩) = (.value r, s')) :
    (g.ingest f).alone now s = (.value (answer f r), s') :=
  ingest_alone_of_set hf hi hdedupe (by rw [httl]; rfl) hr

end Ingestor

end FragmentRelay
