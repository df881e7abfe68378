import FragmentRelay.Proofs.Batch.Cut
import FragmentRelay.Proofs.Concurrency.Schedule
import FragmentRelay.Proofs.Ingest.Points
import FragmentRelay.Store.Outage

/-!
# Announcement: an operation is completed at most once

Ingestions of one operation run at the same time, with or without deduplication, and any of their
requests may fail. A new count is announced only by the ingestion that has just added one to the
counter, and nothing else ever changes the counter. So no two ingestions announce the same count,
and at most one of them the last one. Markers play no part in this: they may be moved, released and
left behind in any way, and digests of their texts may collide.

* `Access.Announces`: a computation announces exactly what it adds to the counter.
* `ingest_announces`: ingestions do, with or without deduplication.
* `Tallying`, `Tallying.take`: the invariant, and that every turn preserves it, whether its request
  fails or not.
* `announced_once`: no count is announced twice.
-/

namespace FragmentRelay

/-! ### What ingestions announce -/

namespace Access

/-- A computation writes under a counter by adding one only, and then answers for a fragment with
the number that it has reached; all else that it may answer is not a new count. -/
def Announces (counter : Key) (f : Fragment) : Access (Except IngestError Ingested) → Prop
  | done r => ∀ a, r = .ok a → a.duplicate = true
  | crash _ => True
  | get _ next => ∀ r, (next r).Announces counter f
  | set key _ _ next => key ≠ counter ∧ ∀ r, (next r).Announces counter f
  | increment key next =>
    (∀ v, (key = counter → next (.ok v) = .done (Ingestor.answer f (.ok (v, false)))) ∧
        (key ≠ counter → (next (.ok v)).Announces counter f)) ∧
      ∀ e, (next (.error e)).Announces counter f

variable {counter : Key} {f : Fragment} {a a' : Access (Except IngestError Ingested)}
  {now : Instant} {s s' : Store} {fault : Option StoreError}

/-- **One attempt adds one to the counter and announces it, or leaves the counter alone.** -/
theorem Announces.attempt (h : a.Announces counter f) (ha : a.attempt fault now s = some (a', s')) :
    (a'.Announces counter f ∧ s'.find? counter = s.find? counter) ∨
      ∃ v, a' = .done (Ingestor.answer f (.ok (v, false))) ∧
        s.increment now counter = .ok (v, s') := by
  cases a with
  | done r => cases fault <;> cases ha
  | crash text => cases fault <;> cases ha
  | get key next =>
    cases fault <;> cases ha <;> exact .inl ⟨h _, rfl⟩
  | set key bytes ttl next =>
    obtain ⟨hne, hnext⟩ := h
    cases fault with
    | some e =>
      cases ha
      exact .inl ⟨hnext _, rfl⟩
    | none =>
      simp only [attempt_none, step, Option.map_eq_some_iff] at ha
      obtain ⟨t, ht, he⟩ := ha
      cases he
      exact .inl ⟨hnext _, Store.find?_of_set ht hne.symm⟩
  | increment key next =>
    obtain ⟨hok, herror⟩ := h
    cases fault with
    | some e =>
      cases ha
      exact .inl ⟨herror e, rfl⟩
    | none =>
      simp only [attempt_none, step] at ha
      cases hi : s.increment now key with
      | error e =>
        rw [hi] at ha
        cases ha
        exact .inl ⟨herror e, rfl⟩
      | ok p =>
        rw [hi] at ha
        cases ha
        by_cases hkey : key = counter
        · exact .inr ⟨p.1, (hok p.1).1 hkey, hkey ▸ hi⟩
        · exact .inl ⟨(hok p.1).2 hkey, Store.find?_of_increment hi (Ne.symm hkey)⟩

end Access

namespace Ingestor

variable (g : Ingestor) (i : Identity) (f : Fragment)

theorem toRelease_announces (e : StoreError) :
    (g.toRelease i f e).Announces (g.keys.countKey i) f :=
  ⟨(g.keys.countKey_ne_markerKey i i f.index).symm, fun _ _ hr => by cases hr⟩

theorem toCount_announces : (g.toCount i f).Announces (g.keys.countKey i) f := by
  rw [toCount_eq_increment]
  exact ⟨fun v => ⟨fun _ => rfl, fun hne => absurd rfl hne⟩, fun e => g.toRelease_announces i f e⟩

theorem toTally_announces : (g.toTally i f).Announces (g.keys.countKey i) f :=
  ⟨fun v => ⟨fun _ => rfl, fun hne => absurd rfl hne⟩, fun _ _ ha => by cases ha⟩

theorem toLook_announces : (g.toLook i f).Announces (g.keys.countKey i) f := by
  intro r
  rcases r with e | raw
  · intro a ha
    cases ha
  · cases hv : raw.bind Counter.decode with
    | none =>
      simp only [hv]
      exact g.toCount_announces i f
    | some v =>
      simp only [hv]
      intro a ha
      cases ha
      rfl

theorem toMark_announces : (g.toMark i f).Announces (g.keys.countKey i) f := by
  rw [toMark_eq_increment]
  refine ⟨fun deliveries =>
    ⟨fun he => absurd he.symm (g.keys.countKey_ne_markerKey i i f.index), fun _ => ?_⟩,
    fun _ _ ha => by cases ha⟩
  by_cases hlate : 1 < deliveries
  · simp only [if_pos hlate]
    exact g.toLook_announces i f
  · simp only [if_neg hlate]
    exact g.toCount_announces i f

variable {i f}

/-- **An ingestion announces exactly what it adds to the counter, with or without
deduplication.** -/
theorem ingest_announces (hi : f.BelongsTo i) : (g.ingest f).Announces (g.keys.countKey i) f := by
  by_cases hf : f.Genuine
  · rw [ingest_eq_write hf hi]
    refine ⟨(g.keys.countKey_ne_persistenceKey i i f.index).symm, fun r => ?_⟩
    rcases r with e | u
    · intro a ha
      cases ha
    · simp only
      split
      · exact g.toMark_announces i f
      · exact g.toTally_announces i f
  · obtain ⟨e, he⟩ := g.ingest_of_not_genuine hf
    rw [he]
    intro a ha
    cases ha

end Ingestor

/-! ### The invariant -/

/-- An ingestion has returned, and not as a duplicate. -/
def Access.counted : Access (Except IngestError Ingested) → Bool
  | done (.ok r) => !r.duplicate
  | _ => false

theorem Access.Announces.not_counted {counter : Key} {f : Fragment}
    {a : Access (Except IngestError Ingested)} (h : a.Announces counter f) : a.counted = false := by
  cases a with
  | done r =>
    cases r with
    | error e => rfl
    | ok r => simp [counted, h r rfl]
  | crash | get | set | increment => rfl

theorem Ingestor.count_eq_of_answer {e f : Fragment} {u v : Int}
    (h : Access.done (Ingestor.answer e (.ok (u, false))) =
      .done (Ingestor.answer f (.ok (v, false)))) : u = v := by
  simp only [answer, Access.done.injEq, Except.ok.injEq, Ingested.mk.injEq] at h
  exact h.2.1

/-- The counter is the number of the ingestions that have counted, and the counts that they have
announced are all different and not above it. -/
structure Tallying (counter : Key) (fs : List Fragment)
    (c : Concurrent (Except IngestError Ingested)) : Prop where
  total : c.store.CountsTo counter (c.calls.countP Access.counted)
  reachable : (c.calls.countP Access.counted : Int) ≤ Counter.highest
  going : ∀ (n : Nat) a, c.calls[n]? = some a → ∃ f, fs[n]? = some f ∧ (a.Announces counter f ∨
    ∃ v, a = .done (Ingestor.answer f (.ok (v, false))) ∧ v ≤ c.calls.countP Access.counted)
  apart : ∀ (m n : Nat) e f v, c.calls[m]? = some (.done (Ingestor.answer e (.ok (v, false)))) →
    c.calls[n]? = some (.done (Ingestor.answer f (.ok (v, false)))) → m = n

namespace Tallying

variable {counter : Key} {fs : List Fragment} {c : Concurrent (Except IngestError Ingested)}

theorem start {calls : List (Access (Except IngestError Ingested))}
    (h : ∀ (n : Nat) a, calls[n]? = some a → ∃ f, fs[n]? = some f ∧ a.Announces counter f) :
    Tallying counter fs { calls, store := {} } := by
  have hnone : calls.countP Access.counted = 0 := by
    rw [List.countP_eq_zero]
    intro a ha
    obtain ⟨n, hn⟩ := List.mem_iff_getElem?.1 ha
    obtain ⟨f, -, hannounces⟩ := h n a hn
    rw [hannounces.not_counted]
    decide
  refine ⟨?_, ?_, fun n a ha => ?_, fun m n e f v hm _ => ?_⟩
  · rw [hnone]
    exact Store.countsTo_empty _
  · rw [hnone]
    decide
  · obtain ⟨f, hf, hannounces⟩ := h n a ha
    exact ⟨f, hf, .inl hannounces⟩
  · obtain ⟨_, _, hannounces⟩ := h m _ hm
    exact absurd (hannounces _ rfl) Bool.false_ne_true

section Moves

variable {n : Nat} {a a' : Access (Except IngestError Ingested)} {s : Store} {f : Fragment}

theorem le_total (h : Tallying counter fs c) {v : Int}
    (hn : c.calls[n]? = some (.done (Ingestor.answer f (.ok (v, false))))) :
    v ≤ c.calls.countP Access.counted := by
  obtain ⟨e, -, hannounces | ⟨u, he, hle⟩⟩ := h.going n _ hn
  · exact absurd (hannounces _ rfl) Bool.false_ne_true
  · rw [Ingestor.count_eq_of_answer he]
    exact hle

theorem moved (h : Tallying counter fs c) (hf : fs[n]? = some f) (hn : c.calls[n]? = some a)
    (ha : a.Announces counter f) (ha' : a'.Announces counter f)
    (hkeep : s.find? counter = c.store.find? counter) :
    Tallying counter fs { calls := c.calls.set n a', store := s } := by
  obtain ⟨hlt, hget⟩ := List.getElem?_eq_some_iff.1 hn
  have hcount : (c.calls.set n a').countP Access.counted = c.calls.countP Access.counted := by
    rw [List.countP_set hlt, hget, ha.not_counted, ha'.not_counted]
    rfl
  -- What has been announced was announced before.
  have hold : ∀ {m : Nat} {e : Fragment} {v : Int},
      (c.calls.set n a')[m]? = some (.done (Ingestor.answer e (.ok (v, false)))) →
      c.calls[m]? = some (.done (Ingestor.answer e (.ok (v, false)))) := by
    intro m e v hm
    rcases cases_of_getElem?_set hm with ⟨-, rfl⟩ | ⟨-, hm⟩
    · exact absurd (ha' _ rfl) Bool.false_ne_true
    · exact hm
  refine ⟨?_, ?_, fun m b hb => ?_, fun m m' e e' v hm hm' =>
    h.apart m m' e e' v (hold hm) (hold hm')⟩
  · rw [hcount]
    exact h.total.of_find?_eq hkeep
  · rw [hcount]
    exact h.reachable
  · rw [hcount]
    rcases cases_of_getElem?_set hb with ⟨rfl, rfl⟩ | ⟨-, hb⟩
    · exact ⟨f, hf, .inl ha'⟩
    · exact h.going m b hb

/-- An ingestion adds one to the counter and announces a count above all that were announced
before. -/
theorem announced (h : Tallying counter fs c) (hf : fs[n]? = some f) (hn : c.calls[n]? = some a)
    (ha : a.Announces counter f) {now : Instant} {v : Int}
    (hadd : c.store.increment now counter = .ok (v, s)) :
    Tallying counter fs
      ⟨c.calls.set n (.done (Ingestor.answer f (.ok (v, false)))), s⟩ := by
  obtain ⟨hlt, hget⟩ := List.getElem?_eq_some_iff.1 hn
  obtain ⟨hv, hhigh, rfl⟩ := (h.total.holdsCounter h.reachable).of_increment hadd
  rw [h.total.countOf_eq h.reachable] at hv
  have hcount : (c.calls.set n (.done (Ingestor.answer f (.ok (v, false))))).countP Access.counted =
      c.calls.countP Access.counted + 1 := by
    rw [List.countP_set hlt, hget, ha.not_counted]
    rfl
  have hcast : ((c.calls.countP Access.counted + 1 : Nat) : Int) = v := by omega
  refine ⟨?_, ?_, fun m b hb => ?_, fun m m' e e' u hm hm' => ?_⟩
  · rw [hcount, ← hcast]
    exact Store.countsTo_insert_self _
  · rw [hcount, hcast]
    exact hhigh
  · rw [hcount, hcast]
    rcases cases_of_getElem?_set hb with ⟨rfl, rfl⟩ | ⟨-, hb⟩
    · exact ⟨f, hf, .inr ⟨v, rfl, le_rfl⟩⟩
    · obtain ⟨e, he, hgoing⟩ := h.going m b hb
      refine ⟨e, he, hgoing.imp_right fun ⟨u, hu, hle⟩ => ⟨u, hu, ?_⟩⟩
      omega
  · rcases cases_of_getElem?_set hm with ⟨hmn, hu⟩ | ⟨-, hold⟩
    · rcases cases_of_getElem?_set hm' with ⟨hmn', -⟩ | ⟨-, hold'⟩
      · rw [hmn, hmn']
      · have hle := h.le_total hold'
        rw [Ingestor.count_eq_of_answer hu] at hle
        omega
    · rcases cases_of_getElem?_set hm' with ⟨-, hu⟩ | ⟨-, hold'⟩
      · have hle := h.le_total hold
        rw [Ingestor.count_eq_of_answer hu] at hle
        omega
      · exact h.apart m m' e e' u hold hold'

end Moves

/-- **Every turn preserves the invariant, whether its request fails or not.** -/
theorem take (h : Tallying counter fs c) (t : Turn) : Tallying counter fs (c.take t) := by
  rcases c.take_cases t with ⟨hsame, -⟩ | ⟨a, a', s, hn, ha, hmove⟩
  · rw [hsame]
    exact h
  · rw [hmove]
    obtain ⟨f, hf, hannounces | ⟨v, rfl, -⟩⟩ := h.going t.call a hn
    · rcases hannounces.attempt ha with ⟨hgoing, hkeep⟩ | ⟨v, rfl, hadd⟩
      · exact h.moved hf hn hannounces hgoing hkeep
      · exact h.announced hf hn hannounces hadd
    · cases hfault : t.fault <;> rw [hfault] at ha <;> cases ha

theorem play (h : Tallying counter fs c) (turns : List Turn) : Tallying counter fs (c.play turns) :=
  Concurrent.play_induction h (fun _ t h => h.take t) turns

/-- An ingestion that has returned and not as a duplicate has announced a count for its fragment. -/
theorem eq_of_fresh (h : Tallying counter fs c) {n : Nat} {r : Ingested}
    (hn : c.calls[n]? = some (.done (.ok r))) (hfresh : r.duplicate = false) :
    ∃ f, fs[n]? = some f ∧ r = ⟨f.index, r.ingested, f.cardinality, false⟩ := by
  obtain ⟨f, hf, hannounces | ⟨v, he, -⟩⟩ := h.going n _ hn
  · rw [hannounces r rfl] at hfresh
    cases hfresh
  · cases he
    exact ⟨f, hf, rfl⟩

end Tallying

/-! ### At most once -/

/-- Some ingestions at their start, on an empty store. -/
def ingestions (calls : List (Ingestor × Fragment)) : Concurrent (Except IngestError Ingested) where
  calls := calls.map fun c => c.1.ingest c.2
  store := {}

/-- **No count is announced twice**, and at most one ingestion reports that it completes the
operation, whatever the order of their steps and whichever of these fail. -/
theorem announced_once {k : Keyspace} {i : Identity} {cardinality : UInt32}
    {calls : List (Ingestor × Fragment)} (hkeys : ∀ c ∈ calls, c.1.keys = k)
    (hi : ∀ c ∈ calls, c.2.BelongsTo i) (hcard : ∀ c ∈ calls, c.2.cardinality = cardinality)
    (turns : List Turn) (m n : Nat) (r r' : Ingested)
    (hm : ((ingestions calls).play turns).calls[m]? = some (.done (.ok r)))
    (hn : ((ingestions calls).play turns).calls[n]? = some (.done (.ok r'))) :
    (r.duplicate = false → r'.duplicate = false → r.ingested = r'.ingested → m = n) ∧
      (r.completes = true → r'.completes = true → m = n) := by
  have hstart : Tallying (k.countKey i) (calls.map (·.2)) (ingestions calls) := by
    refine .start fun n a ha => ?_
    rw [List.getElem?_map, Option.map_eq_some_iff] at ha
    obtain ⟨c, hc, rfl⟩ := ha
    have hmem := List.mem_of_getElem? hc
    refine ⟨c.2, by rw [List.getElem?_map, hc]; rfl, ?_⟩
    have hannounces := c.1.ingest_announces (hi c hmem)
    rwa [hkeys c hmem] at hannounces
  have htally := hstart.play turns
  have hfresh : ∀ {n : Nat} {r : Ingested}, ((ingestions calls).play turns).calls[n]? =
    some (.done (.ok r)) →
      r.duplicate = false → ∃ f : Fragment, r = ⟨f.index, r.ingested, f.cardinality, false⟩ ∧
      f.cardinality = cardinality := by
    intro n r hn hdup
    obtain ⟨f, hf, he⟩ := htally.eq_of_fresh hn hdup
    rw [List.getElem?_map, Option.map_eq_some_iff] at hf
    obtain ⟨c, hc, rfl⟩ := hf
    exact ⟨c.2, he, hcard c (List.mem_of_getElem? hc)⟩
  have hapart : r.duplicate = false → r'.duplicate = false → r.ingested = r'.ingested → m = n := by
    intro hdup hdup' hsame
    obtain ⟨e, he, -⟩ := hfresh hm hdup
    obtain ⟨f, hf, -⟩ := hfresh hn hdup'
    rw [he] at hm
    rw [hf, ← hsame] at hn
    exact htally.apart m n e f _ hm hn
  refine ⟨hapart, fun hdone hdone' => ?_⟩
  simp only [Ingested.completes, Bool.and_eq_true, Bool.not_eq_true', beq_iff_eq] at hdone hdone'
  obtain ⟨e, he, hce⟩ := hfresh hm hdone.1
  obtain ⟨f, hf, hcf⟩ := hfresh hn hdone'.1
  have hr : r.cardinality = cardinality := by rw [he, hce]
  have hr' : r'.cardinality = cardinality := by rw [hf, hcf]
  exact hapart hdone.1 hdone'.1 (by rw [hdone.2, hdone'.2, hr, hr'])

/-- The first fragment with deduplication, the second one without, and the first one again. -/
def mixedIngestions : List (Ingestor × Fragment) :=
  [({ keys := ⟨"relay"⟩ }, Batch.smallFirst),
    ({ keys := ⟨"relay"⟩, dedupe := false }, Batch.smallSecond),
    ({ keys := ⟨"relay"⟩ }, Batch.smallFirst)]

/-- The first ingestion fails to count, and the others count after it. -/
def failingTurns : List Turn :=
  [⟨0, 0, none⟩, ⟨0, 0, none⟩, ⟨1, 1, none⟩, ⟨1, 0, some Outage.error⟩, ⟨1, 0, none⟩,
    ⟨2, 2, none⟩, ⟨2, 2, none⟩, ⟨3, 1, none⟩, ⟨4, 2, none⟩]

theorem of_mem_mixedIngestions {c : Ingestor × Fragment} (hc : c ∈ mixedIngestions) :
    c.1.keys = ⟨"relay"⟩ ∧ c.2 ∈ Batch.smallBatch.fragments := by
  simp only [mixedIngestions, List.mem_cons, List.not_mem_nil, or_false] at hc
  rcases hc with rfl | rfl | rfl
  · exact ⟨rfl, Batch.smallFirst_mem⟩
  · exact ⟨rfl, Batch.smallSecond_mem⟩
  · exact ⟨rfl, Batch.smallFirst_mem⟩

theorem mixedIngestions_announced_once :
    let c := (ingestions mixedIngestions).play failingTurns
    ∃ r r', c.calls[1]? = some (.done (.ok r)) ∧ c.calls[2]? = some (.done (.ok r')) ∧
      r.duplicate = false ∧ r'.duplicate = false ∧ r.ingested ≠ r'.ingested := by
  intro c
  have hanswers : c.calls.map Access.result? =
      [some (.error (.store Outage.error)), some (.ok ⟨1, 1, 2, false⟩),
        some (.ok ⟨0, 2, 2, false⟩)] := by
    decide +kernel
  have hsecond := congrArg (·[1]?) hanswers
  have hthird := congrArg (·[2]?) hanswers
  simp only [List.getElem?_map] at hsecond hthird
  obtain ⟨a, ha, hr⟩ := Option.map_eq_some_iff.1 hsecond
  obtain ⟨a', ha', hr'⟩ := Option.map_eq_some_iff.1 hthird
  rw [Access.result?_eq_some.1 hr] at ha
  rw [Access.result?_eq_some.1 hr'] at ha'
  refine ⟨_, _, ha, ha', rfl, rfl, fun hsame => ?_⟩
  have hcut := Batch.smallBatch_cut
  have hone := (announced_once (fun c hc => (of_mem_mixedIngestions hc).1)
    (fun c hc => hcut.belongsTo (of_mem_mixedIngestions hc).2)
    (fun c hc => (hcut.fits_of_mem (of_mem_mixedIngestions hc).2).cardinality_eq) failingTurns 1 2
      _ _ ha ha').1 rfl rfl hsame
  cases hone

end FragmentRelay
