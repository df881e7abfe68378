import FragmentRelay.Proofs.Batch.Cut
import FragmentRelay.Proofs.Concurrency.Schedule
import FragmentRelay.Proofs.Ingest.Points
import Mathlib.Data.Finset.Card

/-!
# Counting under concurrency: when deliveries race

Fragments of one operation are ingested at the same time. A delivery counts its fragment if it moves
the marker from zero to one. A later delivery of the same fragment that comes in before the first
one has counted finds no counter, takes it for lost and counts as well; then both have counted.
Where every fragment is delivered once this cannot happen, and the counter never runs ahead of the
records.

* `Stage`, `Racing`: how far a delivery has come, and the invariant over all of them.
* `Racing.step`: every step preserves the invariant if no index occurs twice.
* `exists_count_gt_persisted`: a schedule that counts twice, for any two deliveries of one index.
* `count_le_persisted_iff`: the counter stays within the records exactly if no index occurs twice.
-/

namespace FragmentRelay

namespace Ingestor

/-! ### The steps of one delivery -/

variable {g : Ingestor} {f : Fragment} {i : Identity} {s : Store} {n m : Nat} (now : Instant)

theorem step_ingest (hf : f.Genuine) (hi : f.BelongsTo i) (httl : g.ttl = none)
    (hdedupe : g.dedupe = true) :
    (g.ingest f).step now s =
      some (g.toMark i f, s.insert (g.keys.persistenceKey i f.index) ⟨Wire.encode f, none⟩) := by
  rw [ingest_of_genuine g hf hi]
  simp only [persist, Access.bind_eq, Access.write_bind, httl, hdedupe, if_true,
    Access.step, Store.set, Option.map_some, Keyspace.persistenceKey_withIndex,
    Keyspace.markerKey_withIndex, Keyspace.countKey_withIndex, toMark, Option.some.injEq,
    Prod.mk.injEq, and_true]
  congr 1
  funext r
  rcases r with e | ⟨v, d⟩ <;> rfl

theorem step_toMark_first (hm : s.CountsTo (g.keys.markerKey i f.index) 0) :
    (g.toMark i f).step now s =
      some (g.toCount i f,
        s.insert (g.keys.markerKey i f.index) ⟨Counter.encode (1 : Nat), none⟩) := by
  simp only [toMark, countOnce, Access.bind_eq, Access.count_bind, Access.bind, Access.step,
    hm.increment (by decide)]
  rfl

theorem step_toMark_again (hm : s.CountsTo (g.keys.markerKey i f.index) (m + 1))
    (hm' : ((m + 1 : Nat) : Int) < Counter.highest) :
    ∃ a, (g.toMark i f).step now s =
        some (a, s.insert (g.keys.markerKey i f.index) ⟨Counter.encode (m + 1 + 1 : Nat), none⟩) ∧
      ∀ (now : Instant) (s : Store), s.CountsTo (g.keys.countKey i) 0 →
        a.step now s = some (g.toCount i f, s) := by
  have hlate : (1 : Int) < (m + 1 + 1 : Nat) := by omega
  simp only [toMark, countOnce, Access.bind_eq, Access.count_bind, Access.bind, Access.step,
    hm.increment hm', hlate, if_true, Access.read_bind, Option.some.injEq, Prod.mk.injEq, and_true]
  refine ⟨_, rfl, fun now s hc => ?_⟩
  simp only [hc.get_zero]
  rfl

theorem step_toCount (hc : s.CountsTo (g.keys.countKey i) n) (hn : (n : Int) < Counter.highest) :
    (g.toCount i f).step now s =
      some (.done (.ok ⟨f.index, (n + 1 : Nat), f.cardinality, false⟩),
        s.insert (g.keys.countKey i) ⟨Counter.encode (n + 1 : Nat), none⟩) := by
  simp only [toCount, countFirst, Access.bind_eq, Access.count_bind, Access.bind, Access.step,
    hc.increment hn]
  rfl

end Ingestor

/-! ### The invariant of deliveries that race -/

/-- How far the delivery of a fragment has come, when the fragments with some indices have been
counted. -/
inductive Stage (g : Ingestor) (i : Identity) (s : Store) (counted : Finset UInt32) (f : Fragment) :
    Access (Except IngestError Ingested) → Prop
  | rejected {e : IngestError} (hf : ¬ f.Genuine) : Stage g i s counted f (.done (.error e))
  | waiting (hf : f.Genuine) (hnew : f.index ∉ counted)
      (hm : s.CountsTo (g.keys.markerKey i f.index) 0) :
    Stage g i s counted f (g.ingest f)
  | recorded (hf : f.Genuine) (hnew : f.index ∉ counted)
      (hm : s.CountsTo (g.keys.markerKey i f.index) 0)
    (hr : (s.find? (g.keys.persistenceKey i f.index)).isSome) : Stage g i s counted f (g.toMark i f)
  | marked (hf : f.Genuine) (hnew : f.index ∉ counted)
      (hr : (s.find? (g.keys.persistenceKey i f.index)).isSome) :
    Stage g i s counted f (g.toCount i f)
  | done {v : Nat} (hf : f.Genuine) (hold : f.index ∈ counted) (hv : v ≤ counted.card) :
    Stage g i s counted f (.done (.ok ⟨f.index, v, f.cardinality, false⟩))

/-- A stage lasts while the marker stands, records stay and only others are counted. -/
theorem Stage.mono {g : Ingestor} {i : Identity} {s s' : Store}
    {C C' : Finset UInt32} {f : Fragment} {a : Access (Except IngestError Ingested)}
    (h : Stage g i s C f a)
    (hm : f.Genuine → s'.find? (g.keys.markerKey i f.index) = s.find? (g.keys.markerKey i f.index))
    (hr : ∀ key, (s.find? key).isSome → (s'.find? key).isSome) (hC : C ⊆ C')
    (hnew : f.Genuine → f.index ∉ C → f.index ∉ C') : Stage g i s' C' f a := by
  cases h with
  | rejected hf => exact .rejected hf
  | waiting hf hn h₀ => exact .waiting hf (hnew hf hn) (h₀.of_find?_eq (hm hf))
  | recorded hf hn h₀ hrec => exact .recorded hf (hnew hf hn) (h₀.of_find?_eq (hm hf)) (hr _ hrec)
  | marked hf hn hrec => exact .marked hf (hnew hf hn) (hr _ hrec)
  | done hf hold hv => exact .done hf (hC hold) (Nat.le_trans hv (Finset.card_le_card hC))

theorem Stage.of_answered {g : Ingestor} {i : Identity} {s : Store} {C : Finset UInt32}
    {n : Nat} {f : Fragment} {r : Ingested} (h : Stage g i s C f (.done (.ok r)))
    (hi : f.BelongsTo i) (httl : g.ttl = none) (hdedupe : g.dedupe = true)
    (hc : s.CountsTo (g.keys.countKey i) n) (hn : (n : Int) < Counter.highest) :
    r.ingested ≤ C.card ∧ r.cardinality = f.cardinality := by
  generalize ha : Access.done (Except.ok r) = a at h
  cases h with
  | rejected hf => cases ha
  | waiting hf hnew hm =>
    have hstep := Ingestor.step_ingest (s := s) 0 hf hi httl hdedupe
    rw [← ha] at hstep
    cases hstep
  | recorded hf hnew hm hr =>
    have hstep := Ingestor.step_toMark_first 0 hm
    rw [← ha] at hstep
    cases hstep
  | marked hf hnew hr =>
    have hstep := Ingestor.step_toCount (f := f) 0 hc hn
    rw [← ha] at hstep
    cases hstep
  | done hf hold hv =>
    cases ha
    exact ⟨Int.ofNat_le.2 hv, rfl⟩

/-- The counter is the number of the indices that were counted; these have records, and no delivery
counts again. -/
structure Racing (g : Ingestor) (i : Identity) (fs : List Fragment) (counted : Finset UInt32)
    (c : Concurrent (Except IngestError Ingested)) : Prop where
  length_eq : c.calls.length = fs.length
  counter : c.store.CountsTo (g.keys.countKey i) counted.card
  backed : ∀ x ∈ counted, (∃ f ∈ fs, f.Genuine ∧ f.index = x) ∧
    (c.store.find? (g.keys.persistenceKey i x)).isSome
  stage : ∀ (n : Nat) f a, fs[n]? = some f → c.calls[n]? = some a → Stage g i c.store counted f a

theorem isSome_find?_insert {s : Store} {key other : Key} {e : Entry} (h : (s.find? other).isSome) :
    ((s.insert key e).find? other).isSome := by
  rw [Store.find?_insert]
  split
  · rfl
  · exact h

namespace Racing

variable {g : Ingestor} {i : Identity} {fs : List Fragment} {C : Finset UInt32}
  {c : Concurrent (Except IngestError Ingested)}

theorem start (g : Ingestor) (i : Identity) (fs : List Fragment) :
    Racing g i fs ∅ { calls := fs.map g.ingest, store := {} } where
  length_eq := by simp
  counter := Store.countsTo_empty _
  backed x hx := absurd hx (Finset.notMem_empty x)
  stage n f a hf ha := by
    simp only [List.getElem?_map, hf, Option.map_some, Option.some.injEq] at ha
    subst ha
    by_cases hg : f.Genuine
    · exact .waiting hg (Finset.notMem_empty _) (Store.countsTo_empty _)
    · obtain ⟨e, he⟩ := Ingestor.ingest_of_not_genuine g hg
      rw [he]
      exact .rejected hg

theorem moved {n : Nat} {f : Fragment} {a a' : Access (Except IngestError Ingested)} {s' : Store}
    {C' : Finset UInt32} (h : Racing g i fs C c) (hf : fs[n]? = some f) (hg : f.Genuine)
    (hn : c.calls[n]? = some a) (hcount : s'.CountsTo (g.keys.countKey i) C'.card) (hC : C ⊆ C')
    (hbacked : ∀ x ∈ C', x ∉ C → x = f.index)
    (hrecord : f.index ∈ C' → (s'.find? (g.keys.persistenceKey i f.index)).isSome)
    (hkeep : ∀ key, (c.store.find? key).isSome → (s'.find? key).isSome)
    (hothers : ∀ (m : Nat) e, m ≠ n → fs[m]? = some e → e.Genuine →
      s'.find? (g.keys.markerKey i e.index) = c.store.find? (g.keys.markerKey i e.index) ∧
      (e.index ∉ C → e.index ∉ C'))
    (hself : Stage g i s' C' f a') :
    Racing g i fs C' { calls := c.calls.set n a', store := s' } where
  length_eq := by simp [h.length_eq]
  counter := hcount
  backed x hx := by
    by_cases hxC : x ∈ C
    · exact ⟨(h.backed x hxC).1, hkeep _ (h.backed x hxC).2⟩
    · obtain rfl := hbacked x hx hxC
      exact ⟨⟨f, List.mem_of_getElem? hf, hg, rfl⟩, hrecord hx⟩
  stage m e b he hb := by
    by_cases hmn : m = n
    · subst hmn
      rw [hf] at he
      cases he
      rw [List.getElem?_set_self (List.getElem?_eq_some_iff.1 hn).1] at hb
      cases hb
      exact hself
    · rw [List.getElem?_set_ne (Ne.symm hmn)] at hb
      exact (h.stage m e b he hb).mono (fun hg => (hothers m e hmn he hg).1) hkeep hC fun hg =>
        (hothers m e hmn he hg).2

/-- **Every step preserves the invariant if no index is delivered twice.** -/
theorem step (h : Racing g i fs C c) (hi : ∀ f ∈ fs, f.BelongsTo i)
    (hk : g.keys.Collisionless {f | f ∈ fs}) (httl : g.ttl = none) (hdedupe : g.dedupe = true)
    (hdistinct : ∀ (m n : Nat) e f, m ≠ n → fs[m]? = some e → fs[n]? = some f →
      e.Genuine → f.Genuine →
      e.index ≠ f.index)
    (now : Instant) (n : Nat) : ∃ C', Racing g i fs C' (c.step now n) := by
  cases hn : c.calls[n]? with
  | none => exact ⟨C, by rwa [Concurrent.step_of_absent hn]⟩
  | some a =>
    obtain ⟨f, hf⟩ : ∃ f, fs[n]? = some f := by
      have hlt := (List.getElem?_eq_some_iff.1 hn).1
      exact ⟨_, List.getElem?_eq_getElem (h.length_eq ▸ hlt)⟩
    have hfi := hi f (List.mem_of_getElem? hf)
    have hmarkers : ∀ (m : Nat) e, m ≠ n → fs[m]? = some e → e.Genuine → f.Genuine →
        g.keys.markerKey i e.index ≠ g.keys.markerKey i f.index := by
      intro m e hmn he hge hgf heq
      have := hk.eq_of_perFragment (List.mem_of_getElem? he) (List.mem_of_getElem? hf)
        (hi e (List.mem_of_getElem? he)) hfi (p := .ingestMarker) rfl heq
      exact hdistinct m n e f hmn he hf hge hgf this.2.2
    cases h.stage n f a hf hn with
    | rejected hg => exact ⟨C, by rwa [Concurrent.step_of_ended hn rfl]⟩
    | done hg hold hv => exact ⟨C, by rwa [Concurrent.step_of_ended hn rfl]⟩
    | waiting hg hnew hm =>
      rw [Concurrent.step_of_some hn (Ingestor.step_ingest now hg hfi httl hdedupe)]
      refine ⟨C,
        h.moved hf hg hn (h.counter.insert_of_ne (Keyspace.derive_ne_of_purpose (by decide)))
        (Finset.Subset.refl C) (fun x hx hx' => absurd hx hx') (fun hx => absurd hx hnew)
        (fun key => isSome_find?_insert) ?_ ?_⟩
      · exact fun m e _ _ _ =>
          ⟨Store.find?_insert_of_ne (Keyspace.derive_ne_of_purpose (by decide)), id⟩
      · exact .recorded hg hnew (hm.insert_of_ne (Keyspace.derive_ne_of_purpose (by decide)))
          (by rw [Store.find?_insert_self]; rfl)
    | recorded hg hnew hm hr =>
      rw [Concurrent.step_of_some hn (Ingestor.step_toMark_first now hm)]
      refine ⟨C,
        h.moved hf hg hn (h.counter.insert_of_ne (Keyspace.derive_ne_of_purpose (by decide)))
        (Finset.Subset.refl C) (fun x hx hx' => absurd hx hx') (fun hx => absurd hx hnew)
        (fun key => isSome_find?_insert) ?_ ?_⟩
      · exact fun m e hmn he hge => ⟨Store.find?_insert_of_ne (hmarkers m e hmn he hge hg), id⟩
      · exact .marked hg hnew (isSome_find?_insert hr)
    | marked hg hnew hr =>
      have hsmall : (C.card : Int) < Counter.highest := by
        have := Counter.card_lt_highest C
        omega
      have hcard := Finset.card_insert_of_notMem hnew
      rw [Concurrent.step_of_some hn (Ingestor.step_toCount now h.counter hsmall)]
      refine ⟨insert f.index C, h.moved hf hg hn ?_ (Finset.subset_insert _ _) ?_
        (fun _ => isSome_find?_insert hr) (fun key => isSome_find?_insert) ?_ ?_⟩
      · rw [hcard]
        exact Store.countsTo_insert_self _
      · exact fun x hx hx' => (Finset.mem_insert.1 hx).resolve_right hx'
      · intro m e hmn he hge
        refine ⟨Store.find?_insert_of_ne (Keyspace.derive_ne_of_purpose (by decide)),
          fun hne hin => ?_⟩
        exact (Finset.mem_insert.1 hin).elim (hdistinct m n e f hmn he hf hge hg) hne
      · exact .done hg (Finset.mem_insert_self _ _) hcard.ge

theorem card_le (h : Racing g i fs C c) : C.card ≤ (persisted g.keys i fs c.store).card :=
  Finset.card_le_card fun x hx => by
    obtain ⟨⟨f, hf, -, hx'⟩, hr⟩ := h.backed x hx
    exact mem_persisted.2 ⟨⟨f, hf, hx'⟩, hr⟩

end Racing

/-! ### Two deliveries of one index -/

/-- The deliveries of some fragments, all at their start. -/
def deliveries (k : Keyspace) (fs : List Fragment) : Concurrent (Except IngestError Ingested) where
  calls := fs.map (Ingestor.ingest { keys := k })
  store := {}

/-- The first delivery stops before it counts, the second one runs to its end, and the first one
goes on. -/
def overtaking (p q : Nat) : List (Instant × Nat) :=
  [(0, p), (0, p), (0, q), (0, q), (0, q), (0, q), (0, p)]

/-- **Two deliveries of one index can both be counted.** -/
theorem run_overtaking {k : Keyspace} {i : Identity} {fs : List Fragment} {p q : Nat}
    {f e : Fragment} (hpq : p ≠ q) (hp : fs[p]? = some f) (hq : fs[q]? = some e) (hf : f.Genuine)
    (he : e.Genuine) (hfi : f.BelongsTo i) (hei : e.BelongsTo i) (hfe : f.index = e.index) :
    let c := (deliveries k fs).run (overtaking p q)
    c.store.CountsTo (k.countKey i) 2 ∧
      (∀ key, key ≠ k.countKey i → key ≠ k.markerKey i f.index → key ≠ k.persistenceKey i f.index →
        c.store.find? key = none) := by
  have hcm : k.countKey i ≠ k.markerKey i f.index := Keyspace.derive_ne_of_purpose (by decide)
  have hcp : k.countKey i ≠ k.persistenceKey i f.index := Keyspace.derive_ne_of_purpose (by decide)
  have hmp : k.markerKey i f.index ≠ k.persistenceKey i f.index :=
    Keyspace.derive_ne_of_purpose (by decide)
  simp only [overtaking, Concurrent.run_cons, Concurrent.run_nil]
  generalize h₀ : deliveries k fs = c₀
  have hp₀ : c₀.calls[p]? = some (Ingestor.ingest { keys := k } f) := by simp [← h₀, deliveries, hp]
  have hq₀ : c₀.calls[q]? = some (Ingestor.ingest { keys := k } e) := by simp [← h₀, deliveries, hq]
  have hs₀ : c₀.store = {} := by rw [← h₀]; rfl
  -- The first delivery writes its record and moves the marker from zero to one.
  obtain ⟨hp₁, ho₁, hs₁⟩ := Concurrent.step_moves 0 hp₀ (Ingestor.step_ingest 0 hf hfi rfl rfl)
  generalize c₀.step 0 p = c₁ at *
  have hm₁ : c₁.store.CountsTo (k.markerKey i f.index) 0 := by
    rw [hs₁, hs₀]
    exact (Store.countsTo_empty _).insert_of_ne hmp
  obtain ⟨hp₂, ho₂, hs₂⟩ := Concurrent.step_moves 0 hp₁ (Ingestor.step_toMark_first 0 hm₁)
  generalize c₁.step 0 p = c₂ at *
  -- The second one finds the marker at one and no counter, and counts.
  have hq₂ : c₂.calls[q]? = some (Ingestor.ingest { keys := k } e) := by
    rw [ho₂ q hpq.symm, ho₁ q hpq.symm, hq₀]
  obtain ⟨hq₃, ho₃, hs₃⟩ := Concurrent.step_moves 0 hq₂ (Ingestor.step_ingest 0 he hei rfl rfl)
  generalize c₂.step 0 q = c₃ at *
  have hm₃ : c₃.store.CountsTo (k.markerKey i e.index) (0 + 1) := by
    rw [hs₃, hs₂, ← hfe]
    exact (Store.countsTo_insert_self 0).insert_of_ne hmp
  obtain ⟨a, ha, hlook⟩ := Ingestor.step_toMark_again (g := { keys := k }) 0 hm₃ (by decide)
  obtain ⟨hq₄, ho₄, hs₄⟩ := Concurrent.step_moves 0 hq₃ ha
  generalize c₃.step 0 q = c₄ at *
  have hc₄ : c₄.store.CountsTo (k.countKey i) 0 := by
    rw [hs₄, hs₃, hs₂, hs₁, hs₀, ← hfe]
    exact ((((Store.countsTo_empty _).insert_of_ne hcp).insert_of_ne hcm).insert_of_ne
      hcp).insert_of_ne hcm
  obtain ⟨hq₅, ho₅, hs₅⟩ := Concurrent.step_moves 0 hq₄ (hlook 0 _ hc₄)
  generalize c₄.step 0 q = c₅ at *
  have hc₅ : c₅.store.CountsTo (k.countKey i) 0 := hs₅ ▸ hc₄
  obtain ⟨hq₆, ho₆, hs₆⟩ := Concurrent.step_moves 0 hq₅ (Ingestor.step_toCount 0 hc₅ (by decide))
  generalize c₅.step 0 q = c₆ at *
  -- The first one counts as well.
  have hp₆ : c₆.calls[p]? = some (Ingestor.toCount { keys := k } i f) := by
    rw [ho₆ p hpq, ho₅ p hpq, ho₄ p hpq, ho₃ p hpq, hp₂]
  have hc₆ : c₆.store.CountsTo (k.countKey i) 1 := hs₆ ▸ Store.countsTo_insert_self 0
  obtain ⟨hp₇, ho₇, hs₇⟩ := Concurrent.step_moves 0 hp₆ (Ingestor.step_toCount 0 hc₆ (by decide))
  generalize c₆.step 0 p = c₇ at *
  refine ⟨hs₇ ▸ Store.countsTo_insert_self 1, fun key h₁ h₂ h₃ => ?_⟩
  rw [hs₇, Store.find?_insert_of_ne h₁, hs₆, Store.find?_insert_of_ne h₁, hs₅, hs₄, ← hfe,
    Store.find?_insert_of_ne h₂, hs₃, ← hfe, Store.find?_insert_of_ne h₃, hs₂,
    Store.find?_insert_of_ne h₂, hs₁, Store.find?_insert_of_ne h₃, hs₀, Store.find?_empty]

/-! ### The exact condition -/

/-- No two genuine fragments have the same index. -/
def DeliveredOnce (fs : List Fragment) : Prop :=
  fs.Pairwise fun f e => f.Genuine → e.Genuine → f.index ≠ e.index

theorem DeliveredOnce.index_ne {fs : List Fragment} (h : DeliveredOnce fs) (m n : Nat)
    (e f : Fragment) (hmn : m ≠ n) (he : fs[m]? = some e) (hf : fs[n]? = some f) (hge : e.Genuine)
    (hgf : f.Genuine) : e.index ≠ f.index := by
  obtain ⟨hm, rfl⟩ := List.getElem?_eq_some_iff.1 he
  obtain ⟨hn, rfl⟩ := List.getElem?_eq_some_iff.1 hf
  have hpair := List.pairwise_iff_getElem.1 h
  rcases Nat.lt_or_gt_of_ne hmn with hlt | hlt
  · exact hpair m n hm hn hlt hge hgf
  · exact (hpair n m hn hm hlt hgf hge).symm

theorem exists_racing {k : Keyspace} {i : Identity} {fs : List Fragment}
    (hi : ∀ f ∈ fs, f.BelongsTo i) (hk : k.Collisionless {f | f ∈ fs}) (hone : DeliveredOnce fs)
    (schedule : List (Instant × Nat)) :
    ∃ C, Racing { keys := k } i fs C ((deliveries k fs).run schedule) :=
  Concurrent.run_induction (P := fun c => ∃ C, Racing { keys := k } i fs C c)
    ⟨∅, Racing.start _ i fs⟩
    (fun _ now n ⟨_, h⟩ => h.step hi hk rfl rfl hone.index_ne now n) schedule

/-- **Whenever an index is delivered twice, some schedule brings the counter above the number of
records.** -/
theorem exists_count_gt_persisted {k : Keyspace} {i : Identity} {fs : List Fragment}
    (hi : ∀ f ∈ fs, f.BelongsTo i) (hk : k.Collisionless {f | f ∈ fs}) (hnot : ¬ DeliveredOnce fs) :
    ∃ schedule, ((persisted k i fs ((deliveries k fs).run schedule).store).card : Int) <
      ((deliveries k fs).run schedule).store.countOf (k.countKey i) := by
  rw [DeliveredOnce, List.pairwise_iff_getElem] at hnot
  push Not at hnot
  obtain ⟨p, q, hp, hq, hpq, hf, he, hfe⟩ := hnot
  refine ⟨overtaking p q, ?_⟩
  have hmem := List.getElem_mem hp
  obtain ⟨hcount, hnone⟩ := run_overtaking (k := k) (Nat.ne_of_lt hpq) (List.getElem?_eq_getElem hp)
    (List.getElem?_eq_getElem hq) hf he (hi _ hmem) (hi _ (List.getElem_mem hq)) hfe
  rw [hcount.countOf_eq (by decide)]
  have hsub : persisted k i fs ((deliveries k fs).run (overtaking p q)).store ⊆ {fs[p].index} := by
    intro x hx
    obtain ⟨⟨d, hd, rfl⟩, hsome⟩ := mem_persisted.1 hx
    by_contra hne
    rw [Finset.mem_singleton] at hne
    have hother : k.persistenceKey i d.index ≠ k.persistenceKey i fs[p].index := fun heq =>
      hne (hk.eq_of_perFragment hd hmem (hi d hd) (hi _ hmem) (p := .persistence) rfl heq).2.2
    have hnocount : k.persistenceKey i d.index ≠ k.countKey i :=
      Keyspace.derive_ne_of_purpose (by decide)
    have hnomark : k.persistenceKey i d.index ≠ k.markerKey i fs[p].index :=
      Keyspace.derive_ne_of_purpose (by decide)
    rw [hnone _ hnocount hnomark hother] at hsome
    cases hsome
  have hle := Finset.card_le_card hsub
  rw [Finset.card_singleton] at hle
  omega

/-- A set of indices below a cardinality that is no smaller than the cardinality has all of them. -/
theorem mem_of_card_le {C : Finset UInt32} {cardinality x : UInt32} (hlt : ∀ y ∈ C, y < cardinality)
    (hle : cardinality.toNat ≤ C.card) (hx : x < cardinality) : x ∈ C := by
  have hinj : Set.InjOn UInt32.toNat C := fun y _ z _ he => UInt32.toNat_inj.1 he
  have hsub : C.image UInt32.toNat ⊆ Finset.range cardinality.toNat := by
    intro n hn
    obtain ⟨y, hy, rfl⟩ := Finset.mem_image.1 hn
    exact Finset.mem_range.2 (UInt32.lt_iff_toNat_lt.1 (hlt y hy))
  have heq := Finset.eq_of_subset_of_card_le hsub
    (by rwa [Finset.card_range, Finset.card_image_of_injOn hinj])
  obtain ⟨y, hy, he⟩ := Finset.mem_image.1 (heq ▸ Finset.mem_range.2 (UInt32.lt_iff_toNat_lt.1 hx))
  rwa [← UInt32.toNat_inj.1 he]

/-- **The counter stays within the records exactly if no index is delivered twice.** If it is, a
delivery that finds the marker raised reads the counter before the first one has counted, and
counts as well. -/
theorem count_le_persisted_iff {k : Keyspace} {i : Identity} {fs : List Fragment}
    (hi : ∀ f ∈ fs, f.BelongsTo i) (hk : k.Collisionless {f | f ∈ fs}) :
    ((∀ schedule, ((deliveries k fs).run schedule).store.countOf (k.countKey i) ≤
        (persisted k i fs ((deliveries k fs).run schedule).store).card) ↔ DeliveredOnce fs) ∧
      (DeliveredOnce fs → ∀ cardinality, (∀ f ∈ fs, f.cardinality = cardinality) →
        ∀ schedule (n : Nat) r,
          ((deliveries k fs).run schedule).calls[n]? = some (.done (.ok r)) → r.completes = true →
        ∀ x < cardinality,
          (((deliveries k fs).run schedule).store.find? (k.persistenceKey i x)).isSome) := by
  refine ⟨⟨fun hle => ?_, fun hone schedule => ?_⟩,
    fun hone cardinality hcard schedule n r hn hdone x hx => ?_⟩
  · by_contra hnot
    obtain ⟨schedule, hgt⟩ := exists_count_gt_persisted hi hk hnot
    exact absurd (hle schedule) (by omega)
  · obtain ⟨C, h⟩ := exists_racing hi hk hone schedule
    rw [h.counter.countOf_eq (by have := Counter.card_lt_highest C; omega)]
    exact_mod_cast h.card_le
  · obtain ⟨C, h⟩ := exists_racing hi hk hone schedule
    obtain ⟨f, hf⟩ : ∃ f, fs[n]? = some f := by
      have hlt := (List.getElem?_eq_some_iff.1 hn).1
      exact ⟨_, List.getElem?_eq_getElem (h.length_eq ▸ hlt)⟩
    have hmem := List.mem_of_getElem? hf
    obtain ⟨hle, hc⟩ := (h.stage n f _ hf hn).of_answered (hi f hmem) rfl rfl h.counter
      (by have := Counter.card_lt_highest C; omega)
    simp only [Ingested.completes, Bool.and_eq_true, beq_iff_eq] at hdone
    rw [hdone.2, hc, hcard f hmem] at hle
    refine (h.backed x ?_).2
    refine mem_of_card_le (fun y hy => ?_) (by exact_mod_cast hle) hx
    obtain ⟨⟨e, he, ⟨⟨sums, hs⟩, -⟩, rfl⟩, -⟩ := h.backed y hy
    exact hcard e he ▸ (Fragment.validate_ok_iff.1 hs).index_lt

/-- Two deliveries of the first of two fragments: both count, and the one that is overtaken reports
that it completes the operation while the second fragment has no record. -/
theorem first_fragment_counted_twice :
    let k : Keyspace := ⟨"relay"⟩
    let i := Batch.smallBatch.identityOf [1, 2, 3]
    let fs := List.replicate 2 (Batch.slot (Batch.headerOf 5 2 [1, 2, 3]) [1, 2] 0)
    let c := (deliveries k fs).run (overtaking 0 1)
    ((persisted k i fs c.store).card : Int) < c.store.countOf (k.countKey i) ∧
      ((c.calls[0]?).bind Access.result?) = some (.ok ⟨0, 2, 2, false⟩) ∧
      Ingested.completes ⟨0, 2, 2, false⟩ = true ∧
      c.store.find? (k.persistenceKey i 1) = none := by
  decide +kernel

theorem smallBatch_counted_within :
    let c := (deliveries ⟨"relay"⟩ Batch.smallBatch.fragments).run (overtaking 0 1)
    let i := Batch.smallBatch.identityOf [1, 2, 3]
    c.store.countOf ((⟨"relay"⟩ : Keyspace).countKey i) ≤
      (persisted ⟨"relay"⟩ i Batch.smallBatch.fragments c.store).card := by
  have hone : DeliveredOnce Batch.smallBatch.fragments :=
    (by decide : Batch.smallBatch.fragments.Pairwise fun f e => f.index ≠ e.index).imp
      fun h _ _ => h
  exact (count_le_persisted_iff (fun f hf => Batch.smallBatch_cut.belongsTo hf)
    (Batch.collisionless_of_small fun f hf => hf)).1.2 hone (overtaking 0 1)

end FragmentRelay
