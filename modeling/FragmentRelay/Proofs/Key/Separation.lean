import FragmentRelay.Fragment
import FragmentRelay.Key
import Mathlib.Data.List.Nodup
import Mathlib.Data.Set.Function

/-!
# Separation: different names have different keys

The text under the digest of a key can be read back from its right end: an index has at most ten
digits and the checksum before it 32, so a text with an index is never one without, and no namespace
can imitate another. Keys for different purposes differ in their ends. All that is left to chance is
the digest: `Collisionless` says of the fragments of a run that no two different texts of theirs
share one.

* `encoded_injective`: namespace, nonce, checksum and index can be read back.
* `derive_inj`: two keys agree exactly if purposes and digests do.
* `derive_eq_iff`: two keys agree exactly if purposes and names do, where digests tell their two
  texts apart.
* `Collisionless.eq_of_perFragment`, `Collisionless.eq_of_count`: what agreement of two keys says in
  a run.
-/

namespace FragmentRelay

/-! ### Texts read from the right -/

namespace Octets

theorem hexDigit_ne_slash {n : Nat} (h : n < 16) : hexDigit n ≠ '/' :=
  (by decide : ∀ n < 16, hexDigit n ≠ '/') n h

theorem hexDigit_inj {m n : Nat} (hm : m < 16) (hn : n < 16)
    (h : hexDigit m = hexDigit n) : m = n :=
  (by decide : ∀ m < 16, ∀ n < 16, hexDigit m = hexDigit n → m = n) m hm n hn h

theorem slash_notMem_hexDigits (bs : Octets) : '/' ∉ bs.hexDigits := by
  induction bs with
  | nil => simp [hexDigits]
  | cons b r ih =>
    have hb := b.toNat_lt
    have h₁ := hexDigit_ne_slash (show b.toNat / 16 < 16 by omega)
    have h₂ := hexDigit_ne_slash (show b.toNat % 16 < 16 by omega)
    simp only [hexDigits, List.flatMap_cons, List.mem_append, List.mem_cons, List.not_mem_nil,
      or_false] at ih ⊢
    rintro ((h | h) | h)
    · exact h₁ h.symm
    · exact h₂ h.symm
    · exact ih h

theorem hexDigits_injective {bs cs : Octets} (h : bs.hexDigits = cs.hexDigits) : bs = cs := by
  induction bs generalizing cs with
  | nil =>
    have := congrArg List.length h
    rw [length_hexDigits, length_hexDigits, List.length_nil] at this
    exact (List.length_eq_zero_iff.1 (by omega)).symm
  | cons b r ih =>
    cases cs with
    | nil => simp [hexDigits] at h
    | cons c t =>
      have hb := b.toNat_lt
      have hc := c.toNat_lt
      simp only [hexDigits, List.flatMap_cons, List.cons_append, List.nil_append,
        List.cons.injEq] at h
      have h₁ := hexDigit_inj (by omega) (by omega) h.1
      have h₂ := hexDigit_inj (by omega) (by omega) h.2.1
      rw [ih h.2.2, UInt8.toNat_inj.1 (show b.toNat = c.toNat by omega)]

end Octets

namespace Decimal

theorem slash_notMem_ofNat (n : Nat) : '/' ∉ ofNat n := fun h => by
  have := isDigit_of_mem_ofNat h
  simp at this

end Decimal

namespace Checksum

theorem length_hexDigits (c : Checksum) : c.octets.hexDigits.length = 32 := by
  rw [Octets.length_hexDigits, c.length_eq]
  rfl

theorem hexDigits_injective {c d : Checksum}
    (h : c.octets.hexDigits = d.octets.hexDigits) : c = d :=
  ext_octets (Octets.hexDigits_injective h)

end Checksum

namespace Keyspace

theorem append_slash_inj {a b c d : List Char} (hb : '/' ∉ b) (hd : '/' ∉ d)
    (h : a ++ '/' :: b = c ++ '/' :: d) : a = c ∧ b = d := by
  have hcut : ∀ {e t u : List Char}, '/' ∉ t → '/' :: t = e ++ '/' :: u → e = [] := by
    intro e t u ht he
    cases e with
    | nil => rfl
    | cons x e =>
      simp only [List.cons_append, List.cons.injEq] at he
      exact absurd (he.2 ▸ List.mem_append_right e List.mem_cons_self) ht
  rcases List.append_eq_append_iff.1 h with ⟨e, rfl, he⟩ | ⟨e, rfl, he⟩
  · have := hcut hb he
    subst this
    simpa using he
  · have := hcut hd he
    subst this
    simpa using he.symm

/-- The text up to the checksum. -/
def stem (k : Keyspace) (nonce : UInt64) : List Char :=
  k.name.toList ++ '/' :: Decimal.ofNat nonce.toNat

theorem stem_inj {k l : Keyspace} {m n : UInt64} (h : k.stem m = l.stem n) : k = l ∧ m = n := by
  obtain ⟨h₁, h₂⟩ :=
    append_slash_inj (Decimal.slash_notMem_ofNat _) (Decimal.slash_notMem_ofNat _) h
  cases k; cases l
  exact ⟨congrArg _ (String.toList_injective h₁), UInt64.toNat_inj.1 (Decimal.ofNat_injective h₂)⟩

theorem encoded_none (k : Keyspace) (n : UInt64) (c : Checksum) :
    k.encoded n c none = k.stem n ++ '/' :: c.octets.hexDigits := by
  simp [encoded, stem]

theorem encoded_some (k : Keyspace) (n : UInt64) (c : Checksum) (i : UInt32) :
    k.encoded n c (some i) =
      (k.stem n ++ '/' :: c.octets.hexDigits) ++ '/' :: Decimal.ofNat i.toNat := by
  simp [encoded, stem]

theorem length_ofNat_index (i : UInt32) : (Decimal.ofNat i.toNat).length ≤ 10 := by
  rw [Decimal.ofNat, Nat.length_toDigits_le_iff (by decide) (by decide)]
  exact lt_trans i.toNat_lt (by decide)

/-- **The text under the digest names its namespace, nonce, checksum and index.** -/
theorem encoded_injective {k l : Keyspace} {m n : UInt64} {c d : Checksum} {i j : Option UInt32}
    (h : k.encoded m c i = l.encoded n d j) : k = l ∧ m = n ∧ c = d ∧ i = j := by
  have hc := Octets.slash_notMem_hexDigits c.octets
  have hd := Octets.slash_notMem_hexDigits d.octets
  have hcl := c.length_hexDigits
  have hdl := d.length_hexDigits
  have hwhole : k.stem m ++ '/' :: c.octets.hexDigits = l.stem n ++ '/' :: d.octets.hexDigits →
      k = l ∧ m = n ∧ c = d := by
    intro hs
    obtain ⟨h₁, h₂⟩ := append_slash_inj hc hd hs
    exact ⟨(stem_inj h₁).1, (stem_inj h₁).2, Checksum.hexDigits_injective h₂⟩
  cases i with
  | none =>
    cases j with
    | none =>
      rw [encoded_none, encoded_none] at h
      obtain ⟨h₁, h₂, h₃⟩ := hwhole h
      exact ⟨h₁, h₂, h₃, rfl⟩
    | some j =>
      rw [encoded_none, encoded_some] at h
      have hl := length_ofNat_index j
      rw [← (append_slash_inj hc (Decimal.slash_notMem_ofNat _) h).2, hcl] at hl
      omega
  | some i =>
    cases j with
    | none =>
      rw [encoded_some, encoded_none] at h
      have hl := length_ofNat_index i
      rw [(append_slash_inj (Decimal.slash_notMem_ofNat _) hd h).2, hdl] at hl
      omega
    | some j =>
      rw [encoded_some, encoded_some] at h
      obtain ⟨hs, hi⟩ :=
        append_slash_inj (Decimal.slash_notMem_ofNat _) (Decimal.slash_notMem_ofNat _) h
      obtain ⟨h₁, h₂, h₃⟩ := hwhole hs
      exact ⟨h₁, h₂, h₃, congrArg some (UInt32.toNat_inj.1 (Decimal.ofNat_injective hi))⟩

/-! ### Keys -/

/-- The digest of a key's text. -/
def digest (text : List Char) : Octets := Blake3.hash (Octets.ofText (String.ofList text))

theorem suffix_injective {p q : Purpose} (h : p.suffix = q.suffix) : p = q := by
  cases p <;> cases q <;> first | rfl | exact absurd h (by decide)

/-- **Two keys agree exactly if their purposes and the digests of their texts do.** -/
theorem derive_inj {k l : Keyspace} {i j : Identity} {p q : Purpose} :
    k.derive i p = l.derive j q ↔ p = q ∧ digest (k.subject i p) = digest (l.subject j q) := by
  constructor
  · intro h
    have ht := congrArg (fun key => key.text.toList) h
    simp only [derive, Octets.hex, String.toList_append, String.toList_ofList,
      List.append_assoc] at ht
    have hl : ∀ bs : Octets, (Blake3.hash bs).hexDigits.length = 64 := fun bs => by
      rw [Octets.length_hexDigits, Blake3.length_hash]
    obtain ⟨h₁, h₂⟩ := List.append_inj ht (by rw [hl, hl])
    exact ⟨suffix_injective (String.toList_injective (List.append_cancel_left h₂)),
      Octets.hexDigits_injective h₁⟩
  · rintro ⟨rfl, h⟩
    unfold digest at h
    simp only [derive, h]

theorem eq_iff_name {k l : Keyspace} : k = l ↔ k.name = l.name := by
  cases k
  cases l
  rw [mk.injEq]

theorem scopedIndex_eq_iff {i j : Identity} {p : Purpose} :
    scopedIndex i p = scopedIndex j p ↔ (p.perFragment = true → i.index = j.index) := by
  cases h : p.perFragment <;> simp [scopedIndex, h]

/-- The text under a key names its namespace, its operation and, if there is one value for each
fragment, the index. -/
theorem subject_eq_iff {k l : Keyspace} {i j : Identity} {p : Purpose} :
    k.subject i p = l.subject j p ↔
      k = l ∧ i.nonce = j.nonce ∧ i.checksum = j.checksum ∧
      (p.perFragment = true → i.index = j.index) := by
  rw [← scopedIndex_eq_iff]
  constructor
  · exact encoded_injective
  · rintro ⟨rfl, hn, hc, hx⟩
    rw [subject, subject, hn, hc, hx]

/-- **Two keys agree exactly if they should**, provided that the digests of their texts differ
where the texts do. A namespace may hold slashes, digits or anything else. -/
theorem derive_eq_iff (k l : Keyspace) (i j : Identity) (p q : Purpose)
    (hdigest : k.subject i p ≠ l.subject j q → digest (k.subject i p) ≠ digest (l.subject j q)) :
    (k.derive i p = l.derive j q ↔
      p = q ∧ k.name = l.name ∧ i.nonce = j.nonce ∧ i.checksum = j.checksum ∧
        (p.perFragment = true → i.index = j.index)) ∧
    (∀ (m n : UInt64) (c d : Checksum) (x y : Option UInt32),
      k.encoded m c x = l.encoded n d y ↔ k.name = l.name ∧ m = n ∧ c = d ∧ x = y) ∧
    (p.perFragment = false → ∀ x : Option UInt32, k.derive { i with index := x } p =
      k.derive i p) := by
  refine ⟨?_, ?_, ?_⟩
  · rw [derive_inj, ← eq_iff_name]
    constructor
    · rintro ⟨rfl, hd⟩
      have htext : k.subject i p = l.subject j p := by_contra fun hne => hdigest hne hd
      exact ⟨rfl, subject_eq_iff.1 htext⟩
    · rintro ⟨rfl, hnames⟩
      exact ⟨rfl, congrArg digest (subject_eq_iff.2 hnames)⟩
  · intro m n c d x y
    rw [← eq_iff_name]
    constructor
    · exact encoded_injective
    · rintro ⟨rfl, rfl, rfl, rfl⟩
      rfl
  · intro hp x
    have hscope : scopedIndex { i with index := x } p = scopedIndex i p :=
      scopedIndex_eq_iff.2 fun h => absurd (hp.symm.trans h) Bool.false_ne_true
    rw [derive, derive, subject, subject, hscope]

/-- The name of an operation without fragments of its own. -/
def plainName : Identity := { nonce := 5, checksum := ⟨List.replicate 16 10, rfl⟩ }

/-- A namespace that looks like the text of a fragment of `plainName` up to its index. -/
def slashedSpace : Keyspace := ⟨"relay/5/" ++ plainName.checksum.hex⟩

theorem slashedSpace_apart :
    digest ((⟨"relay"⟩ : Keyspace).subject (plainName.withIndex 7) .persistence) ≠
        digest (slashedSpace.subject { plainName with nonce := 7 } .persistence) ∧
      (⟨"relay"⟩ : Keyspace).derive (plainName.withIndex 7) .persistence ≠
        slashedSpace.derive { plainName with nonce := 7 } .persistence := by
  have hdigest : digest ((⟨"relay"⟩ : Keyspace).subject (plainName.withIndex 7) .persistence) ≠
      digest (slashedSpace.subject { plainName with nonce := 7 } .persistence) := by decide +kernel
  refine ⟨hdigest, fun h => ?_⟩
  have hnames :=
    (derive_eq_iff ⟨"relay"⟩ slashedSpace _ _ .persistence .persistence fun _ => hdigest).1.1 h
  exact absurd hnames.2.2.1 (by decide)

theorem derive_ne_of_purpose {k l : Keyspace} {i j : Identity} {p q : Purpose} (h : p ≠ q) :
    k.derive i p ≠ l.derive j q := fun he => h (derive_inj.1 he).1

theorem countKey_ne_persistenceKey (k : Keyspace) (i j : Identity) (x : UInt32) :
    k.countKey i ≠ k.persistenceKey j x :=
  derive_ne_of_purpose (by decide)

theorem countKey_ne_markerKey (k : Keyspace) (i j : Identity) (x : UInt32) :
    k.countKey i ≠ k.markerKey j x :=
  derive_ne_of_purpose (by decide)

theorem persistenceKey_ne_markerKey (k : Keyspace) (i j : Identity) (x y : UInt32) :
    k.persistenceKey i x ≠ k.markerKey j y :=
  derive_ne_of_purpose (by decide)

@[simp] theorem countKey_withIndex (k : Keyspace) (i : Identity) (x : UInt32) :
    k.countKey (i.withIndex x) = k.countKey i := rfl

@[simp] theorem persistenceKey_withIndex (k : Keyspace) (i : Identity) (x y : UInt32) :
    k.persistenceKey (i.withIndex x) y = k.persistenceKey i y := rfl

@[simp] theorem markerKey_withIndex (k : Keyspace) (i : Identity) (x y : UInt32) :
    k.markerKey (i.withIndex x) y = k.markerKey i y := rfl

end Keyspace

/-! ### The keys of a run -/

/-- A fragment carries the name of an operation. -/
structure Fragment.BelongsTo (f : Fragment) (i : Identity) : Prop where
  nonce_eq : f.nonce = i.nonce
  checksum_eq : f.reassembledChecksum = i.checksum.octets

instance (f : Fragment) (i : Identity) : Decidable (f.BelongsTo i) :=
  decidable_of_iff (f.nonce = i.nonce ∧ f.reassembledChecksum = i.checksum.octets)
    ⟨fun h => ⟨h.1, h.2⟩, fun h => ⟨h.nonce_eq, h.checksum_eq⟩⟩

theorem Fragment.BelongsTo.unique {f : Fragment} {i j : Identity} (hi : f.BelongsTo i)
    (hj : f.BelongsTo j) : i.nonce = j.nonce ∧ i.checksum = j.checksum :=
  ⟨hi.nonce_eq.symm.trans hj.nonce_eq,
    Checksum.ext_octets (hi.checksum_eq.symm.trans hj.checksum_eq)⟩

theorem Fragment.BelongsTo.congr {f : Fragment} {i j : Identity} (h : f.BelongsTo i)
    (hn : i.nonce = j.nonce) (hc : i.checksum = j.checksum) : f.BelongsTo j :=
  ⟨h.nonce_eq.trans hn, h.checksum_eq.trans (congrArg _ hc)⟩

theorem Fragment.BelongsTo.withIndex_eq {f : Fragment} {i j : Identity} (hi : f.BelongsTo i)
    (hj : f.BelongsTo j) (x : UInt32) : i.withIndex x = j.withIndex x := by
  obtain ⟨hn, hc⟩ := hi.unique hj
  rw [Identity.withIndex, Identity.withIndex, hn, hc]

theorem Fragment.BelongsTo.countKey_eq {f : Fragment} {i j : Identity} (hi : f.BelongsTo i)
    (hj : f.BelongsTo j) (k : Keyspace) : k.countKey i = k.countKey j := by
  rw [← k.countKey_withIndex i f.index, hi.withIndex_eq hj, k.countKey_withIndex]

theorem Fragment.BelongsTo.identity_eq {f : Fragment} {i : Identity} (h : f.BelongsTo i) :
    f.identity = .ok (i.withIndex f.index) := by
  have hsum : Checksum.ofRole? .reassembled f.reassembledChecksum = .ok i.checksum :=
    Fragment.ofRole?_ok_iff.2 h.checksum_eq.symm
  rw [Fragment.identity, hsum, h.nonce_eq]
  rfl

namespace Keyspace

/-- The texts under the digests of a fragment's keys: the one of its operation and its own. -/
def texts (k : Keyspace) (f : Fragment) : Set (List Char) :=
  {t | ∃ i : Identity, f.BelongsTo i ∧
    (t = k.encoded i.nonce i.checksum none ∨ t = k.encoded i.nonce i.checksum (some f.index))}

theorem mem_texts {k : Keyspace} {f : Fragment} {i : Identity} (hi : f.BelongsTo i)
    {t : List Char} :
    t ∈ k.texts f ↔ t = k.encoded i.nonce i.checksum none ∨
    t = k.encoded i.nonce i.checksum (some f.index) := by
  constructor
  · rintro ⟨j, hj, ht⟩
    obtain ⟨hn, hc⟩ := hi.unique hj
    rwa [hn, hc]
  · exact fun ht => ⟨i, hi, ht⟩

/-- No two different texts under the keys of some fragments have the same digest. -/
def Collisionless (k : Keyspace) (fs : Set Fragment) : Prop :=
  Set.InjOn digest {t | ∃ f ∈ fs, t ∈ k.texts f}

namespace Collisionless

variable {k : Keyspace} {fs : Set Fragment} {f g : Fragment} {i j : Identity}

theorem mono {gs : Set Fragment} (h : k.Collisionless gs) (hs : fs ⊆ gs) : k.Collisionless fs :=
  Set.InjOn.mono (by rintro t ⟨f, hf, ht⟩; exact ⟨f, hs hf, ht⟩) h

theorem of_nodup {texts : List (List Char)}
    (ht : ∀ f ∈ fs, ∀ t ∈ k.texts f, t ∈ texts) (hd : (texts.map digest).Nodup) :
    k.Collisionless fs := by
  rintro t ⟨f, hf, htf⟩ u ⟨g, hg, hug⟩ he
  exact List.inj_on_of_nodup_map hd (ht f hf t htf) (ht g hg u hug) he

theorem eq_of_count (h : k.Collisionless fs) (hf : f ∈ fs) (hg : g ∈ fs) (hi : f.BelongsTo i)
    (hj : g.BelongsTo j) (he : k.countKey i = k.countKey j) :
    i.nonce = j.nonce ∧ i.checksum = j.checksum := by
  obtain ⟨-, hd⟩ := derive_inj.1 he
  have ht := h ⟨f, hf, i, hi, Or.inl rfl⟩ ⟨g, hg, j, hj, Or.inl rfl⟩ hd
  obtain ⟨-, hn, hc, -⟩ := encoded_injective ht
  exact ⟨hn, hc⟩

theorem eq_of_perFragment (h : k.Collisionless fs) (hf : f ∈ fs) (hg : g ∈ fs) (hi : f.BelongsTo i)
    (hj : g.BelongsTo j) {p : Purpose} (hp : p.perFragment = true)
    (he : k.derive (i.withIndex f.index) p = k.derive (j.withIndex g.index) p) :
    i.nonce = j.nonce ∧ i.checksum = j.checksum ∧ f.index = g.index := by
  obtain ⟨-, hd⟩ := derive_inj.1 he
  have hs : ∀ (a : Identity) (x : UInt32),
      k.subject (a.withIndex x) p = k.encoded a.nonce a.checksum (some x) := fun a x => by
    simp [subject, scopedIndex, hp, Identity.withIndex]
  rw [hs, hs] at hd
  have ht := h ⟨f, hf, i, hi, Or.inr rfl⟩ ⟨g, hg, j, hj, Or.inr rfl⟩ hd
  obtain ⟨-, hn, hc, hx⟩ := encoded_injective ht
  exact ⟨hn, hc, Option.some.inj hx⟩

theorem perFragment_ne (h : k.Collisionless fs) (hf : f ∈ fs) (hg : g ∈ fs) (hi : f.BelongsTo i)
    (hgi : g.BelongsTo i) (hne : f.index ≠ g.index) {p : Purpose} (hp : p.perFragment = true) :
    k.derive (i.withIndex f.index) p ≠ k.derive (i.withIndex g.index) p := by
  intro hkey
  exact hne (h.eq_of_perFragment hf hg hi hgi hp hkey).2.2

end Collisionless

end Keyspace

end FragmentRelay
