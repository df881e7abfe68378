import FragmentRelay.Proofs.Ingest.Points
import Mathlib.Data.Finset.Card

/-!
# Tallied: what the store knows while requests fail

Ingestions run one after the other, and any request may fail or cut its ingestion off. Then a marker
may be released, stand above zero without a count, or be moved many times. What stays true of an
operation is `Tallied`: the counter is the number of the indices that were counted, and each of
these has its record and a raised marker. So an index that was counted is never counted again: its
next delivery finds the marker raised and the counter present.

Only a marker that stands raised without a count can keep an index from being counted. `Steady` says
that there is none, and it is preserved as long as no ingestion ends between its marker and its
count and no release fails. But once there is one and some other index was counted, the index is
`Stranded`: all its later deliveries are taken for duplicates, and no failure and no delivery brings
it back.

* `Tallied`, `Serving`: the invariant between two ingestions and in the middle of one.
* `Serving.moved`: every attempt preserves it, whatever fails.
* `SteadyAt.moved`: no marker is left raised without a count if no release fails.
* `StrandedAt.moved`: an index that is stranded stays so, whatever fails.
* `exists_served`: all of this for a whole ingestion under a failure rule.
-/

namespace FragmentRelay

/-! ### The invariant between two ingestions -/

/-- What a store knows of an operation of which the fragments with some indices were counted. The
fragments in `fs` are those whose keys are looked at, and the ones in `sent` those that were
ingested. -/
structure Tallied (k : Keyspace) (fs sent : Set Fragment) (i : Identity) (C : Finset UInt32)
    (s : Store) : Prop where
  counter : s.CountsTo (k.countKey i) C.card
  covered : ∀ x ∈ C, ∃ f ∈ sent, f.BelongsTo i ∧ f.index = x
  recorded : ∀ x ∈ C, (s.find? (k.persistenceKey i x)).isSome
  record : ∀ f ∈ fs, f.BelongsTo i → ∀ e, s.find? (k.persistenceKey i f.index) = some e →
    ∃ f' ∈ sent, f'.BelongsTo i ∧ f'.index = f.index ∧ e = ⟨Wire.encode f', none⟩
  marker : ∀ f ∈ fs, f.BelongsTo i → s.HoldsCounter (k.markerKey i f.index)
  raised : ∀ x ∈ C, 0 < s.countOf (k.markerKey i x)

/-- No marker stands raised without a count. -/
def Steady (k : Keyspace) (fs : Set Fragment) (i : Identity) (C : Finset UInt32)
    (s : Store) : Prop :=
  ∀ f ∈ fs, f.BelongsTo i → 0 < s.countOf (k.markerKey i f.index) → f.index ∈ C

/-- The marker of an index stands raised though it was not counted, and others were. -/
structure Stranded (k : Keyspace) (sent : Set Fragment) (i : Identity) (x : UInt32)
    (C : Finset UInt32) (s : Store) :
    Prop where
  covered : ∃ f ∈ sent, f.BelongsTo i ∧ f.index = x
  uncounted : x ∉ C
  nonempty : C.Nonempty
  raised : 0 < s.countOf (k.markerKey i x)

variable {k : Keyspace} {fs sent : Set Fragment} {i : Identity} {C : Finset UInt32} {s s' : Store}
  {f : Fragment} {x : UInt32}

theorem Steady.empty (k : Keyspace) (fs : Set Fragment) (i : Identity) :
    Steady k fs i ∅ {} := fun f _ _ hpos => by
  rw [Store.countOf_of_find?_none (Store.find?_empty _)] at hpos
  exact absurd hpos (lt_irrefl 0)

theorem Steady.of_find?_eq (h : Steady k fs i C s)
    (he : ∀ f ∈ fs, f.BelongsTo i → ∀ key, k.Owns f key → s'.find? key = s.find? key) :
    Steady k fs i C s' := by
  intro f hf hfi hpos
  rw [Store.countOf_of_find?_eq (he f hf hfi _ ⟨i, hfi, .inr (.inr rfl)⟩)] at hpos
  exact h f hf hfi hpos

theorem Stranded.of_find?_eq (h : Stranded k sent i x C s) (hsent : sent ⊆ fs)
    (he : ∀ f ∈ fs, f.BelongsTo i → ∀ key, k.Owns f key → s'.find? key = s.find? key) :
    Stranded k sent i x C s' := by
  refine ⟨h.covered, h.uncounted, h.nonempty, ?_⟩
  obtain ⟨f, hf, hfi, rfl⟩ := h.covered
  rw [Store.countOf_of_find?_eq (he f (hsent hf) hfi _ ⟨i, hfi, .inr (.inr rfl)⟩)]
  exact h.raised

namespace Tallied

theorem empty (k : Keyspace) (fs sent : Set Fragment) (i : Identity) :
    Tallied k fs sent i ∅ {} where
  counter := Store.countsTo_empty _
  covered x hx := absurd hx (Finset.notMem_empty x)
  recorded x hx := absurd hx (Finset.notMem_empty x)
  record f hf hi e he := by cases he
  marker f hf hi := .inl rfl
  raised x hx := absurd hx (Finset.notMem_empty x)

theorem of_find?_eq (h : Tallied k fs sent i C s) (hsent : sent ⊆ fs)
    (hsome : ∃ f ∈ fs, f.BelongsTo i) (he : ∀ f ∈ fs, f.BelongsTo i → ∀ key, k.Owns f key →
      s'.find? key = s.find? key) : Tallied k fs sent i C s' := by
  have hindex : ∀ x ∈ C, s'.find? (k.persistenceKey i x) = s.find? (k.persistenceKey i x) ∧
      s'.find? (k.markerKey i x) = s.find? (k.markerKey i x) := by
    intro x hx
    obtain ⟨f, hf, hfi, rfl⟩ := h.covered x hx
    exact ⟨he f (hsent hf) hfi _ ⟨i, hfi, .inr (.inl rfl)⟩,
      he f (hsent hf) hfi _ ⟨i, hfi, .inr (.inr rfl)⟩⟩
  obtain ⟨f₀, hf₀, hi₀⟩ := hsome
  refine ⟨h.counter.of_find?_eq (he f₀ hf₀ hi₀ _ ⟨i, hi₀, .inl rfl⟩), h.covered, fun x hx => ?_,
    fun f hf hfi e => ?_, fun f hf hfi => ?_, fun x hx => ?_⟩
  · rw [(hindex x hx).1]
    exact h.recorded x hx
  · rw [he f hf hfi _ ⟨i, hfi, .inr (.inl rfl)⟩]
    exact h.record f hf hfi e
  · exact (h.marker f hf hfi).of_find?_eq (he f hf hfi _ ⟨i, hfi, .inr (.inr rfl)⟩)
  · rw [Store.countOf_of_find?_eq (hindex x hx).2]
    exact h.raised x hx

theorem increment_count (h : Tallied k fs sent i C s) (now : Instant) :
    s.increment now (k.countKey i) =
      .ok ((C.card + 1 : Nat),
        s.insert (k.countKey i) ⟨Counter.encode (C.card + 1 : Nat), none⟩) := by
  have hsmall := Counter.card_lt_highest C
  exact h.counter.increment (by omega)

section Requests

variable (hk : k.Collisionless fs) (hsent : sent ⊆ fs) (hf : f ∈ sent) (hfi : f.BelongsTo i)
include hk hsent hf hfi

theorem perFragment_ne_of_mem (h : Tallied k fs sent i C s) {x : UInt32} (hx : x ∈ C)
    (hne : x ≠ f.index) {p : Purpose} (hp : p.perFragment = true) :
    k.derive (i.withIndex x) p ≠ k.derive (i.withIndex f.index) p := by
  obtain ⟨e, he, hei, rfl⟩ := h.covered x hx
  exact hk.perFragment_ne (hsent he) (hsent hf) hei hfi hne hp

theorem insert_record (h : Tallied k fs sent i C s) :
    Tallied k fs sent i C (s.insert (k.persistenceKey i f.index) ⟨Wire.encode f, none⟩) where
  counter := h.counter.insert_of_ne (k.countKey_ne_persistenceKey i i _)
  covered := h.covered
  recorded x hx := by
    rw [Store.find?_insert]
    split
    · rfl
    · exact h.recorded x hx
  record e he hei entry hentry := by
    rw [Store.find?_insert] at hentry
    split at hentry
    · rename_i hkey
      have hindex := (hk.eq_of_perFragment he (hsent hf) hei hfi (p := .persistence) rfl hkey).2.2
      cases hentry
      exact ⟨f, hf, hfi, hindex.symm, rfl⟩
    · exact h.record e he hei entry hentry
  marker e he hei := (h.marker e he hei).insert_of_ne (k.persistenceKey_ne_markerKey i i _ _).symm
  raised x hx := by
    rw [Store.countOf_insert_of_ne (k.persistenceKey_ne_markerKey i i _ _).symm]
    exact h.raised x hx

theorem insert_marker (h : Tallied k fs sent i C s) {v : Int} (h₀ : 0 ≤ v)
    (h₁ : v ≤ Counter.highest) (hv : f.index ∈ C → 0 < v) :
    Tallied k fs sent i C (s.insert (k.markerKey i f.index) ⟨Counter.encode v, none⟩) where
  counter := h.counter.insert_of_ne (k.countKey_ne_markerKey i i _)
  covered := h.covered
  recorded x hx := by
    rw [Store.find?_insert_of_ne (k.persistenceKey_ne_markerKey i i _ _)]
    exact h.recorded x hx
  record e he hei entry hentry := by
    rw [Store.find?_insert_of_ne (k.persistenceKey_ne_markerKey i i _ _)] at hentry
    exact h.record e he hei entry hentry
  marker e he hei := by
    by_cases hindex : e.index = f.index
    · rw [hindex]
      exact Store.holdsCounter_insert_self h₀ h₁
    · have hne := hk.perFragment_ne he (hsent hf) hei hfi hindex (p := .ingestMarker) rfl
      exact (h.marker e he hei).insert_of_ne hne
  raised x hx := by
    by_cases hindex : x = f.index
    · rw [hindex, Store.countOf_insert_self h₀ h₁]
      exact hv (hindex ▸ hx)
    · have hne := h.perFragment_ne_of_mem hk hsent hf hfi hx hindex (p := .ingestMarker) rfl
      rw [Keyspace.markerKey, Keyspace.markerKey, Store.countOf_insert_of_ne hne]
      exact h.raised x hx

omit hk hsent in
theorem insert_count (h : Tallied k fs sent i C s) (hnew : f.index ∉ C)
    (hrecorded : (s.find? (k.persistenceKey i f.index)).isSome)
    (hraised : 0 < s.countOf (k.markerKey i f.index)) :
    Tallied k fs sent i (insert f.index C)
    (s.insert (k.countKey i) ⟨Counter.encode (C.card + 1 : Nat), none⟩) where
  counter := by
    rw [Finset.card_insert_of_notMem hnew]
    exact Store.countsTo_insert_self _
  covered x hx := by
    rcases Finset.mem_insert.1 hx with rfl | hx
    · exact ⟨f, hf, hfi, rfl⟩
    · exact h.covered x hx
  recorded x hx := by
    rw [Store.find?_insert_of_ne (k.countKey_ne_persistenceKey i i _).symm]
    rcases Finset.mem_insert.1 hx with rfl | hx
    · exact hrecorded
    · exact h.recorded x hx
  record e he hei entry hentry := by
    rw [Store.find?_insert_of_ne (k.countKey_ne_persistenceKey i i _).symm] at hentry
    exact h.record e he hei entry hentry
  marker e he hei := (h.marker e he hei).insert_of_ne (k.countKey_ne_markerKey i i _).symm
  raised x hx := by
    rw [Store.countOf_insert_of_ne (k.countKey_ne_markerKey i i _).symm]
    rcases Finset.mem_insert.1 hx with rfl | hx
    · exact hraised
    · exact h.raised x hx

end Requests

end Tallied

/-! ### The invariant in the middle of an ingestion -/

namespace Ingestor

variable {g : Ingestor} {fault : Option StoreError} {now : Instant} {p p' : Point}

/-- The indices that are counted when an ingestion that started with some of them has come to a
point. -/
def Point.total (p : Point) (f : Fragment) (C : Finset UInt32) : Finset UInt32 :=
  if p.counted = true then insert f.index C else C

/-- What the store knows of the operation while one of its fragments is ingested. -/
structure Serving (g : Ingestor) (fs sent : Set Fragment) (i : Identity) (C : Finset UInt32)
    (f : Fragment) (p : Point) (s : Store) : Prop where
  tallied : Tallied g.keys fs sent i (p.total f C) s
  recorded : p ≠ .record → p.failed = false → (s.find? (g.keys.persistenceKey i f.index)).isSome
  raised : p.marked = true → p.failed = false → 0 < s.countOf (g.keys.markerKey i f.index)
  fresh : (p.counted || p.pending) = true → f.index ∉ C

/-- No marker stands raised without a count, apart from the one of an ingestion that is about to
count. -/
def SteadyAt (g : Ingestor) (fs : Set Fragment) (i : Identity) (C : Finset UInt32)
    (f : Fragment) (p : Point) (s : Store) : Prop :=
  ∀ e ∈ fs, e.BelongsTo i → 0 < s.countOf (g.keys.markerKey i e.index) →
    e.index ∈ p.total f C ∨ e.index = f.index ∧ p.pending = true

/-- An index is stranded, and the ingestion is not about to count it. -/
structure StrandedAt (g : Ingestor) (sent : Set Fragment) (i : Identity) (x : UInt32)
    (C : Finset UInt32) (f : Fragment) (p : Point) (s : Store) : Prop where
  stranded : Stranded g.keys sent i x (p.total f C) s
  idle : f.index = x → p.pending = false

theorem StrandedAt.start (h : Stranded g.keys sent i x C s) :
    StrandedAt g sent i x C f .record s where
  stranded := h
  idle _ := rfl

theorem SteadyAt.start (h : Steady g.keys fs i C s) : SteadyAt g fs i C f .record s :=
  fun e he hei hpos => .inl (h e he hei hpos)

theorem SteadyAt.steady (h : SteadyAt g fs i C f p s) (hp : p.pending = false) :
    Steady g.keys fs i (p.total f C) s := by
  intro e he hei hpos
  rcases h e he hei hpos with hC | ⟨-, hpending⟩
  · exact hC
  · rw [hp] at hpending
    cases hpending

theorem Serving.start (h : Tallied g.keys fs sent i C s) : Serving g fs sent i C f .record s where
  tallied := h
  recorded hne _ := absurd rfl hne
  raised hm _ := by cases hm
  fresh hp := by cases hp

section Moves

variable (hk : g.keys.Collisionless fs) (hsent : sent ⊆ fs) (hf : f ∈ sent) (hfi : f.BelongsTo i)
include hk hsent hf hfi

/-- **Every attempt preserves the invariant, whatever fails.** -/
theorem Serving.moved (h : Serving g fs sent i C f p s) (hm : Moved g i f fault now s p p' s') :
    Serving g fs sent i C f p' s' := by
  have hmarker : s.HoldsCounter (g.keys.markerKey i f.index) := h.tallied.marker f (hsent hf) hfi
  cases hm with
  | recorded =>
    refine ⟨h.tallied.insert_record hk hsent hf hfi, fun _ _ => ?_, nofun, nofun⟩
    rw [Store.find?_insert_self]
    rfl
  | raisedFirst hm hv =>
    obtain ⟨rfl, hhigh, rfl⟩ := hmarker.of_increment hm
    have hlow := hmarker.countOf_nonneg
    have hnew : f.index ∉ C := fun hC => by
      have hpos : 0 < s.countOf (g.keys.markerKey i f.index) := h.tallied.raised _ hC
      omega
    refine ⟨h.tallied.insert_marker hk hsent hf hfi (by omega) hhigh (fun _ => by omega), fun _ _ =>
      ?_, fun _ _ => ?_, fun _ => hnew⟩
    · rw [Store.find?_insert_of_ne (g.keys.persistenceKey_ne_markerKey i i _ _)]
      exact h.recorded (by decide) rfl
    · rw [Store.countOf_insert_self (by omega) hhigh]
      omega
  | raisedAgain hm hv =>
    obtain ⟨rfl, hhigh, rfl⟩ := hmarker.of_increment hm
    refine ⟨h.tallied.insert_marker hk hsent hf hfi (by omega) hhigh (fun _ => by omega), fun _ _ =>
      ?_, fun _ _ => ?_, nofun⟩
    · rw [Store.find?_insert_of_ne (g.keys.persistenceKey_ne_markerKey i i _ _)]
      exact h.recorded (by decide) rfl
    · rw [Store.countOf_insert_self (by omega) hhigh]
      omega
  | found hv =>
    exact ⟨h.tallied, fun _ _ => h.recorded (by decide) rfl, fun _ _ => h.raised rfl rfl, nofun⟩
  | lost hv =>
    -- Only an operation of which nothing was counted has no counter.
    have hsmall := Counter.card_lt_highest C
    have hcount : s.CountsTo (g.keys.countKey i) C.card := h.tallied.counter
    have hzero := hcount.eq_zero_of_decode_none (by omega) hv
    have hnew : f.index ∉ C := by
      rw [Finset.card_eq_zero.1 hzero]
      exact Finset.notMem_empty _
    exact ⟨h.tallied, fun _ _ => h.recorded (by decide) rfl, fun _ _ =>
      h.raised rfl rfl, fun _ => hnew⟩
  | counted hc =>
    have hnew : f.index ∉ C := h.fresh rfl
    have hrecorded := h.recorded (by decide) rfl
    have hraised := h.raised rfl rfl
    have hadd := h.tallied.increment_count now
    rw [hc] at hadd
    cases hadd
    refine ⟨h.tallied.insert_count hf hfi hnew hrecorded hraised, fun _ _ => ?_, fun _ _ =>
      ?_, fun _ => hnew⟩
    · rw [Store.find?_insert_of_ne (g.keys.countKey_ne_persistenceKey i i _).symm]
      exact hrecorded
    · rw [Store.countOf_insert_of_ne (g.keys.countKey_ne_markerKey i i _).symm]
      exact hraised
  | uncounted he =>
    exact ⟨h.tallied, nofun, nofun, fun _ => h.fresh rfl⟩
  | released e =>
    have hnew : f.index ∉ C := h.fresh rfl
    exact ⟨h.tallied.insert_marker hk hsent hf hfi le_rfl (by decide) (fun hC => absurd hC hnew),
      nofun, nofun, nofun⟩
  | stranded | unrecorded | unmarked | unseen =>
    exact ⟨h.tallied, nofun, nofun, nofun⟩

/-- **No marker is left raised without a count as long as no release fails.** -/
theorem SteadyAt.moved (hs : SteadyAt g fs i C f p s) (h : Serving g fs sent i C f p s)
    (hm : Moved g i f fault now s p p' s') (hrelease : ∀ e, p = .release e → fault = none) :
    SteadyAt g fs i C f p' s' := by
  intro e he hei hpos
  have htotal : p.total f C = C := by simp [Point.total, hm.not_counted]
  by_cases hindex : e.index = f.index
  · rw [hindex] at hpos ⊢
    have hown := hs f (hsent hf) hfi
    have hmarker : s.HoldsCounter (g.keys.markerKey i f.index) := h.tallied.marker f (hsent hf) hfi
    cases hm with
    | recorded =>
      rw [Store.countOf_insert_of_ne (g.keys.persistenceKey_ne_markerKey i i _ _).symm] at hpos
      exact .inl ((hown hpos).resolve_right fun hp => by cases hp.2)
    | raisedFirst hm hv => exact .inr ⟨rfl, rfl⟩
    | raisedAgain hm hv =>
      obtain ⟨rfl, -, -⟩ := hmarker.of_increment hm
      exact .inl ((hown (by omega)).resolve_right fun hp => by cases hp.2)
    | found hv => exact .inl ((hown hpos).resolve_right fun hp => by cases hp.2)
    | lost hv => exact .inr ⟨rfl, rfl⟩
    | counted hc => exact .inl (Finset.mem_insert_self _ _)
    | uncounted he => exact .inr ⟨rfl, rfl⟩
    | released e' =>
      rw [Store.countOf_insert_self le_rfl (by decide)] at hpos
      omega
    | stranded e' he' =>
      rw [hrelease e' rfl] at he'
      cases he'
    | unrecorded he | unmarked he | unseen he =>
      exact .inl ((hown hpos).resolve_right fun hp => by cases hp.2)
  · have hne := hk.perFragment_ne he (hsent hf) hei hfi hindex (p := .ingestMarker) rfl
    rw [Store.countOf_of_find?_eq (hm.find?_marker_of_ne hne)] at hpos
    rcases hs e he hei hpos with hC | ⟨hC, -⟩
    · rw [htotal] at hC
      refine .inl ?_
      unfold Point.total
      split
      · exact Finset.mem_insert_of_mem hC
      · exact hC
    · exact absurd hC hindex

/-- **An index that is stranded stays so, whatever fails.** A delivery of it finds its marker raised
and the counter present, so it neither counts nor releases the marker. -/
theorem StrandedAt.moved (hs : StrandedAt g sent i x C f p s) (h : Serving g fs sent i C f p s)
    (hm : Moved g i f fault now s p p' s') : StrandedAt g sent i x C f p' s' := by
  obtain ⟨⟨hcovered, huncounted, hnonempty, hraised⟩, hidle⟩ := hs
  have htotal : p.total f C = C := by simp [Point.total, hm.not_counted]
  rw [htotal] at huncounted hnonempty
  have hgrows : C ⊆ p'.total f C := by
    unfold Point.total
    split
    · exact Finset.subset_insert _ _
    · exact Finset.Subset.refl _
  by_cases hindex : f.index = x
  · have hcalm := hidle hindex
    have hmarker : s.HoldsCounter (g.keys.markerKey i f.index) := h.tallied.marker f (hsent hf) hfi
    subst hindex
    cases hm with
    | recorded =>
      rw [← Store.countOf_insert_of_ne (g.keys.persistenceKey_ne_markerKey i i _ _).symm] at hraised
      exact ⟨⟨hcovered, huncounted, hnonempty, hraised⟩, fun _ => rfl⟩
    | raisedFirst hm hv =>
      obtain ⟨rfl, -, -⟩ := hmarker.of_increment hm
      omega
    | raisedAgain hm hv =>
      obtain ⟨rfl, hhigh, rfl⟩ := hmarker.of_increment hm
      refine ⟨⟨hcovered, huncounted, hnonempty, ?_⟩, fun _ => rfl⟩
      rw [Store.countOf_insert_self (by omega) hhigh]
      omega
    | lost hv =>
      have hsmall := Counter.card_lt_highest C
      have hcount : s.CountsTo (g.keys.countKey i) C.card := h.tallied.counter
      have hzero := hcount.eq_zero_of_decode_none (by omega) hv
      exact absurd (Finset.card_eq_zero.1 hzero) hnonempty.ne_empty
    | counted | uncounted | released | stranded => cases hcalm
    | found | unrecorded | unmarked | unseen =>
      exact ⟨⟨hcovered, huncounted, hnonempty, hraised⟩, fun _ => rfl⟩
  · obtain ⟨e, he, hei, rfl⟩ := hcovered
    have hne :=
      hk.perFragment_ne (hsent he) (hsent hf) hei hfi (Ne.symm hindex) (p := .ingestMarker) rfl
    rw [← Store.countOf_of_find?_eq (hm.find?_marker_of_ne hne)] at hraised
    refine ⟨⟨⟨e, he, hei, rfl⟩, fun hin => ?_, hnonempty.mono hgrows, hraised⟩, fun heq =>
      absurd heq hindex⟩
    unfold Point.total at hin
    split at hin
    · exact (Finset.mem_insert.1 hin).elim (fun heq => hindex heq.symm) huncounted
    · exact huncounted hin

end Moves

/-- An ingestion finds the counter only if some index was counted. -/
theorem Serving.nonempty (h : Serving g fs sent i C f p s)
    (hm : Moved g i f fault now s p p' s') {v : Int} (hp : p' = .ended (.ok (v, true))) :
    C.Nonempty := by
  cases hm <;> cases hp
  rename_i hv
  rw [Finset.nonempty_iff_ne_empty]
  intro hempty
  have hcount : s.CountsTo (g.keys.countKey i) C.card := h.tallied.counter
  rw [hempty, Finset.card_empty] at hcount
  rw [hcount.get_zero] at hv
  cases hv

end Ingestor

/-! ### Whole ingestions -/

/-- No ingestion of an operation is cut off between its marker and its count, and no release of a
marker fails. -/
structure Faults.Sparing {σ : Type} (faults : Faults σ) (k : Keyspace) (i : Identity) : Prop where
  count : ∀ w text, (faults w (.increment (k.countKey i))).1 ≠ .crash text
  release : ∀ w x, (faults w (.set (k.markerKey i x))).1 = .pass

namespace Ingestor

variable {g : Ingestor}

/-- Where an ingestion has stopped, what its outcome was, and what the store knows of the operation
then. -/
structure Served {σ : Type} (g : Ingestor) (fs sent : Set Fragment) (i : Identity)
    (C : Finset UInt32) (f : Fragment) (faults : Faults σ) (s : Store) (p : Point)
    (o : Outcome (Except IngestError Ingested)) (s' : Store) : Prop where
  serving : Serving g fs sent i C f p s'
  outcome : (∃ r, p = .ended r ∧ o = .value (answer f r)) ∨ p.counted = false ∧
    ∃ text, o = .crashed text
  steady : Steady g.keys fs i C s → faults.Sparing g.keys i → Steady g.keys fs i (p.total f C) s'
  stranded : ∀ x, Stranded g.keys sent i x C s → Stranded g.keys sent i x (p.total f C) s'
  nonempty : ∀ v, p = .ended (.ok (v, true)) → C.Nonempty

/-- **An ingestion under a failure rule stops at some point, and the invariant holds there.** It
answers if that is its end, and is cut off otherwise. Under a rule that spares the operation it
leaves no marker raised without a count, and under every rule it leaves an index stranded that was
so before. -/
theorem exists_served {σ : Type} (hk : g.keys.Collisionless fs) (hsent : sent ⊆ fs) (hf : f ∈ sent)
    (hfi : f.BelongsTo i) (hgen : f.Genuine) (httl : g.ttl = none) (hdedupe : g.dedupe = true)
    (h : Tallied g.keys fs sent i C s) (faults : Faults σ) (now : Instant) (w : σ) :
    ∃ p : Point, Served g fs sent i C f faults s p ((g.ingest f).run faults now w s).1
      ((g.ingest f).run faults now w s).2.2 := by
  -- The invariant of the run: the ingestion stands at a point, and the point is one to which
  -- `Serving` applies.
  let P : Access (Except IngestError Ingested) → Store →
    Prop := fun a t => ∃ p : Point, a = p.rest g i f ∧
    Serving g fs sent i C f p t ∧
    (Steady g.keys fs i C s → faults.Sparing g.keys i → SteadyAt g fs i C f p t) ∧
    (∀ x, Stranded g.keys sent i x C s → StrandedAt g sent i x C f p t) ∧
    ∀ v, p = .ended (.ok (v, true)) → C.Nonempty
  have hstart : P (g.ingest f) s :=
    ⟨.record, rfl, .start h, fun hs _ => .start hs, fun _ hs => .start hs, fun v hp => by cases hp⟩
  have hmoves : ∀ a t r fault a' t', P a t → a.request? = some r → faults.Gives r fault →
      a.attempt fault now t = some (a', t') → P a' t' := by
    rintro a t r fault a' t' ⟨p, rfl, hserving, hsteady, hstranded, -⟩ hr hgives hstep
    obtain ⟨p', rfl, hm⟩ := exists_moved hgen hfi httl hdedupe hstep
    refine ⟨p', rfl, hserving.moved hk hsent hf hfi hm, fun hs hspare => ?_, fun x hs =>
      ?_, fun v hp => ?_⟩
    · refine (hsteady hs hspare).moved hk hsent hf hfi hserving hm fun e he => ?_
      subst he
      rw [request?_rest hgen hfi httl hdedupe] at hr
      cases hr
      cases fault with
      | none => rfl
      | some e' =>
        obtain ⟨w', hw'⟩ := hgives
        rw [hspare.release w' f.index] at hw'
        cases hw'
    · exact (hstranded x hs).moved hk hsent hf hfi hserving hm
    · exact hserving.nonempty hm hp
  obtain ⟨a, hstop, p, rfl, hserving, hsteady, hstranded, hnonempty⟩ :=
    Access.exists_stopped hmoves (g.ingest f) w s hstart
  have hend := ended_or_cutOff hgen hfi httl hdedupe hstop
  refine ⟨p, hserving, ?_, fun hs hspare => (hsteady hs hspare).steady ?_, fun x hs =>
    (hstranded x hs).stranded, hnonempty⟩
  · rcases hend with hvalue | ⟨r, w', text, hr, -, ho⟩
    · exact .inl hvalue
    · refine .inr ⟨?_, text, ho⟩
      cases p with
      | ended r' => cases hr
      | record | mark | look | count | release => rfl
  · rcases hend with ⟨r, rfl, -⟩ | ⟨r, w', text, hr, hw', -⟩
    · rfl
    · cases p with
      | count =>
        cases hr
        exact absurd hw' (hspare.count w' text)
      | release e =>
        cases hr
        rw [hspare.release] at hw'
        cases hw'
      | record | mark | look | ended => rfl

end Ingestor

end FragmentRelay
