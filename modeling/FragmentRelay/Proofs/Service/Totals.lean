import FragmentRelay.Proofs.Reassembly.AnyOrder
import FragmentRelay.Proofs.Service.Isolation
import FragmentRelay.Proofs.Service.Logbook
import Mathlib.Algebra.BigOperators.Group.Finset.Piecewise
import Mathlib.Algebra.Group.Int.Defs

/-!
# Totals: the tally accounts for every call and matches the store

Demands are served one after the other under any failure rule and tallied by their replies, while
the counters of the store move deep inside a computation that can fail at five requests. What both
have in common is said by `Service.Moves`: with each demand the total of new fragments and the
counter of the fragment's operation go up together, or stay as they are. So on a store that is empty
at first the total is the sum of all counters.

* `Logbook.Balanced`: the total is the sum of the counters of some operations, and there are no
  others.
* `Logbook.Balanced.moves`, `balanced_log`: one demand, and any number of them.
* `Service.answered_log`: every ingestion and every reassembly gets a reply if nothing crashes it.
* `tally_accounts_for_calls`: what the tally says about calls, replies and counters.
-/

namespace FragmentRelay

/-! ### The operations of some calls -/

/-- The operation whose fragment is to be ingested, if the fragment names one. -/
def Demand.operation? : Demand → Option Identity
  | .ingest f =>
    match f.identity with
    | .ok i => some i.operation
    | .error _ => none
  | _ => none

/-- The operations of which some calls ingest fragments. -/
def operationsOf (calls : List (Instant × Demand)) : Finset Identity :=
  (calls.filterMap fun call => call.2.operation?).toFinset

/-- The fragments that some calls ingest. -/
def fragmentsOf (calls : List (Instant × Demand)) : Set Fragment :=
  {f | ∃ call ∈ calls, call.2 = .ingest f}

section Operations

variable {calls : List (Instant × Demand)} {f : Fragment} {i j : Identity} {k : Keyspace}

theorem Demand.operation?_eq_some_iff {d : Demand} :
    d.operation? = some i ↔ ∃ f j, d = .ingest f ∧ f.identity = .ok j ∧ j.operation = i := by
  cases d with
  | ingest f => cases hid : f.identity <;> simp [operation?, hid]
  | cacheHeader | reassemble | ingestedCount | cachedHeader => simp [operation?]

theorem Keyspace.countKey_operation (k : Keyspace) (i : Identity) :
    k.countKey i.operation = k.countKey i := rfl

theorem mem_operationsOf : i ∈ operationsOf calls ↔
    ∃ call ∈ calls, ∃ f j, call.2 = .ingest f ∧ f.identity = .ok j ∧ j.operation = i := by
  simp only [operationsOf, List.mem_toFinset, List.mem_filterMap, Demand.operation?_eq_some_iff]

/-- Different operations of some calls have different counters, if no two of their texts collide. -/
theorem countKey_injOn (hk : k.Collisionless (fragmentsOf calls)) :
    Set.InjOn k.countKey (operationsOf calls) := by
  intro i hi j hj he
  obtain ⟨c, hc, f, i', hf, hi', rfl⟩ := mem_operationsOf.1 hi
  obtain ⟨d, hd, g, j', hg, hj', rfl⟩ := mem_operationsOf.1 hj
  obtain ⟨hn, hs⟩ := hk.eq_of_count ⟨c, hc, hf⟩ ⟨d, hd, hg⟩ (Fragment.belongsTo_of_identity hi')
    (Fragment.belongsTo_of_identity hj') he
  rw [Identity.operation, Identity.operation, hn, hs]

end Operations

/-! ### Counters and the total of new fragments -/

/-- The total of new fragments is the sum of the counters of some operations, and no other operation
has one. -/
structure Logbook.Balanced {σ : Type} (k : Keyspace) (I : Finset Identity)
    (x : Logbook σ) : Prop where
  holds : ∀ i, x.store.HoldsCounter (k.countKey i)
  total_eq : (x.tally.ingested : Int) = ∑ i ∈ I, x.store.countOf (k.countKey i)
  nothing : ∀ j, (∀ i ∈ I, k.countKey j ≠ k.countKey i) → x.store.find? (k.countKey j) = none

namespace Logbook

variable {σ : Type} {k : Keyspace} {I : Finset Identity} {x x' : Logbook σ}
  {call : Instant × Demand}

theorem balanced_start (k : Keyspace) (I : Finset Identity) (w : σ) :
    ({ state := w } : Logbook σ).Balanced k I where
  holds _ := .inl rfl
  total_eq := (Finset.sum_eq_zero fun _ _ => rfl).symm
  nothing _ _ := rfl

/-- **A demand keeps the balance**, if its operation is among those that are summed up. -/
theorem Balanced.moves (h : x.Balanced k I) (hm : Service.Moves k call x x')
    (hinj : Set.InjOn k.countKey I) (hmem : ∀ i, call.2.operation? = some i → i ∈ I) :
    x'.Balanced k I := by
  cases hm with
  | same hkept htotal =>
    have hcounts : ∀ i, x'.store.countOf (k.countKey i) = x.store.countOf (k.countKey i) := fun i =>
      Store.countOf_of_find?_eq (hkept i)
    refine ⟨fun i => (h.holds i).of_find?_eq (hkept i), ?_, fun j hj =>
      (hkept j).trans (h.nothing j hj)⟩
    rw [htotal, h.total_eq, Finset.sum_congr rfl fun i _ => (hcounts i).symm]
  | @new f i n t hd hi hcount hself hother htotal =>
    have hmine : i.operation ∈ I := hmem _ (Demand.operation?_eq_some_iff.2 ⟨f, i, hd, hi, rfl⟩)
    obtain ⟨hn, hhigh, rfl⟩ := (h.holds i).of_increment hcount
    have hpos : 0 ≤ n := by
      have := (h.holds i).countOf_nonneg
      omega
    rw [Store.find?_insert_self] at hself
    have hraised : x'.store.countOf (k.countKey i) = x.store.countOf (k.countKey i) + 1 := by
      rw [Store.countOf_of_find?_some hself hpos hhigh, hn]
    -- One counter is raised, and the others are left alone.
    have hcounts : ∀ j ∈ I, x'.store.countOf (k.countKey j) =
        x.store.countOf (k.countKey j) + if j = i.operation then 1 else 0 := by
      intro j hj
      by_cases he : j = i.operation
      · rw [if_pos he, he, k.countKey_operation]
        exact hraised
      · have hne : k.countKey j ≠ k.countKey i := fun hkey =>
          he (hinj hj hmine (hkey.trans (k.countKey_operation i).symm))
        rw [if_neg he, Int.add_zero]
        exact Store.countOf_of_find?_eq (hother j hne)
    refine ⟨fun j => ?_, ?_, fun j hj => ?_⟩
    · by_cases hkey : k.countKey j = k.countKey i
      · rw [hkey]
        exact .inr ⟨n, hpos, hhigh, hself⟩
      · exact (h.holds j).of_find?_eq (hother j hkey)
    · rw [htotal, Finset.sum_congr rfl hcounts, Finset.sum_add_distrib, Finset.sum_ite_eq',
        if_pos hmine, ← h.total_eq]
      rfl
    · have hne := hj _ hmine
      rw [k.countKey_operation] at hne
      exact (hother j hne).trans (h.nothing j hj)

end Logbook

namespace Service

variable {σ : Type} {v : Service} {faults : Faults σ} {x x' : Logbook σ}
  {calls : List (Instant × Demand)}

/-- **The balance is kept over any number of demands.** -/
theorem balanced_log {I : Finset Identity} (h : x.Balanced v.keys I)
    (hinj : Set.InjOn v.keys.countKey I) (hmem : ∀ call ∈ calls, ∀ i, call.2.operation? = some i →
      i ∈ I) : (v.log faults calls x).Balanced v.keys I := by
  induction calls generalizing x with
  | nil => exact h
  | cons call rest ih =>
    have hnext := h.moves (moves_record faults x call) hinj (hmem call List.mem_cons_self)
    exact ih hnext fun call hcall => hmem call (List.mem_cons_of_mem _ hcall)

/-! ### Every call gets a reply -/

theorem countable_moves {call : Instant × Demand} (h : x.store.Countable v.keys)
    (hm : Moves v.keys call x x') : x'.store.Countable v.keys := by
  intro j e u he hu
  cases hm with
  | same hkept => exact h j e u (hkept j ▸ he) hu
  | @new f i n t _ _ hcount hself hother _ =>
    by_cases hkey : v.keys.countKey j = v.keys.countKey i
    · obtain ⟨hbefore, hafter, hread⟩ := Store.stand_of_increment hcount
      obtain ⟨e', he', hbytes⟩ := Store.exists_of_get hafter
      rw [hkey, hself, he'] at he
      obtain rfl : e' = e := Option.some.inj he
      obtain rfl : n = u := Option.some.inj (hread.symm.trans (hbytes ▸ hu))
      -- The counter stood one lower, at zero or at a number that is not too low.
      cases hget : x.store.get call.1 (v.keys.countKey i) with
      | none =>
        have hzero : (0 : Int) = n - 1 := by simpa [Store.stand?, hget] using hbefore
        have hhigh : (maxCardinality : Int) ≤ Counter.highest := by decide
        omega
      | some bytes =>
        obtain ⟨e₀, he₀, rfl⟩ := Store.exists_of_get hget
        have hread₀ : Counter.decode e₀.bytes = some (n - 1) := by
          simpa [Store.stand?, hget] using hbefore
        have hlow := h i e₀ (n - 1) he₀ hread₀
        omega
    · exact h j e u (hother j hkey ▸ he) hu

/-- **Every call gets a reply**, and one of its kind. -/
theorem answered_log (hfaults : faults.Lenient) (hshown : ∀ call ∈ calls, v.Shows call.1)
    (hs : x.store.Countable v.keys) :
    ((v.log faults calls x).replies.countP fun p => p.2.holds Reply.isIngested) =
        (x.replies.countP fun p => p.2.holds Reply.isIngested) + calls.countP (·.2.isIngest) ∧
      ((v.log faults calls x).replies.countP fun p => p.2.holds Reply.isReassembled) =
        (x.replies.countP fun p => p.2.holds Reply.isReassembled) +
          calls.countP (·.2.isReassemble) := by
  induction calls generalizing x with
  | nil => exact ⟨rfl, rfl⟩
  | cons call rest ih =>
    rw [List.forall_mem_cons] at hshown
    obtain ⟨h₁, h₂⟩ := ih hshown.2 (countable_moves hs (moves_record faults x call))
    obtain ⟨r, hr⟩ := exists_reply (w := x.state) hfaults hshown.1 hs call.2
    obtain ⟨hingest, hreassemble⟩ := kind_of_reply hr
    have hstep :
      ∀ p : Reply → Bool, ((v.record faults x call).replies.countP fun q => q.2.holds p) =
        (x.replies.countP fun q => q.2.holds p) + if p r then 1 else 0 := by
      intro p
      rw [record, hr, List.countP_append, List.countP_singleton]
      rfl
    have hlog : v.log faults (call :: rest) x = v.log faults rest (v.record faults x call) := rfl
    rw [hlog, h₁, h₂, hstep, hstep, hingest, hreassemble, List.countP_cons, List.countP_cons]
    omega

end Service

/-- **The tally accounts for every call and matches the store.** If requests only fail without
effect, no call crashes, and on a store that is empty at first the total of new fragments is the
sum of the counters. -/
theorem tally_accounts_for_calls (v : Service) {σ : Type} (faults : Faults σ) (w : σ)
    (calls : List (Instant × Demand)) :
    (∀ s : Store,
      let x := v.log faults calls { state := w, store := s }
      x.Counted ∧
      (∀ now f e, ((v.perform (.ingest f)).run faults now x.state x.store).1 =
        .value (.ingested (.error e)) →
        (∀ y, e ≠ .store y) → (v.record faults x (now, .ingest f)).store = x.store) ∧
      (faults.Lenient → (∀ call ∈ calls, v.Shows call.1) → s.Countable v.keys →
        x.tally.ingestions = calls.countP (·.2.isIngest) ∧
        x.tally.reassemblies = calls.countP (·.2.isReassemble))) ∧
    (v.keys.Collisionless (fragmentsOf calls) →
      (v.log faults calls { state := w }).Balanced v.keys (operationsOf calls)) := by
  refine ⟨fun s => ?_, fun hk => ?_⟩
  · intro x
    have hcounted : x.Counted :=
      Service.counted_log ⟨rfl, rfl, rfl, fun _ _ _ h => by cases h⟩ calls
    refine ⟨hcounted, fun now f e he hother => ?_, fun hfaults hshown hs => ?_⟩
    · rw [Service.run_ingest] at he
      obtain ⟨r, hr, hre⟩ := Outcome.map_eq_value he
      cases hre
      rw [Service.record, Service.run_ingest]
      exact Ingestor.unchanged_of_rejected hr hother
    · obtain ⟨hingest, hreassemble⟩ :=
        Service.answered_log (x := { state := w, store := s }) hfaults hshown hs
      rw [hcounted.ingestions_eq, hcounted.reassemblies_eq, hingest, hreassemble,
        List.countP_nil, Nat.zero_add, List.countP_nil, Nat.zero_add]
      exact ⟨rfl, rfl⟩
  · refine Service.balanced_log (Logbook.balanced_start v.keys _ w)
      (countKey_injOn hk) fun call hcall i hi => ?_
    obtain ⟨f, j, hd, hid, hop⟩ := Demand.operation?_eq_some_iff.1 hi
    exact mem_operationsOf.2 ⟨call, hcall, f, j, hd, hid, hop⟩

/-! ### Two small operations -/

/-- A rule under which the next requests fail, as many as its state says. -/
def nextFail : Faults Nat
  | 0, _ => (.pass, 0)
  | n + 1, _ => (.fail (.unavailable "not now"), n)

theorem nextFail_lenient : nextFail.Lenient := by
  intro n r text h
  cases n with
  | zero => cases h
  | succ n => cases h

/-- A fragment that comes twice since its first request fails, one with wrong bytes, and demands
about two operations. -/
def talliedDemands : List (Instant × Demand) :=
  (0, .ingest Batch.smallFirst) :: (0, .ingest brokenFragment) :: mixedDemands

theorem talliedDemands_collisionless :
    Keyspace.Collisionless ⟨"relay"⟩ (fragmentsOf talliedDemands) := by
  refine Keyspace.Collisionless.of_nodup (fun f hf t ht => ?_) nodup_mixedTexts
  obtain ⟨call, hcall, hd⟩ := hf
  simp only [talliedDemands, mixedDemands, List.mem_cons, List.not_mem_nil, or_false] at hcall
  rcases hcall with rfl | rfl | rfl | rfl | rfl | rfl | rfl
  · cases hd
    exact List.mem_append_left _ (Batch.mem_smallTexts Batch.smallFirst_mem ht)
  · cases hd
    have hbroken : brokenFragment.BelongsTo (Batch.smallBatch.identityOf [1, 2, 3]) := ⟨rfl, rfl⟩
    have hfirst : Batch.smallFirst.BelongsTo (Batch.smallBatch.identityOf [1, 2, 3]) := ⟨rfl, rfl⟩
    exact List.mem_append_left _ (Batch.mem_smallTexts Batch.smallFirst_mem
      ((Keyspace.mem_texts hfirst).2 ((Keyspace.mem_texts hbroken).1 ht)))
  · cases hd
    exact List.mem_append_left _ (Batch.mem_smallTexts Batch.smallFirst_mem ht)
  · cases hd
    refine List.mem_append_right _ ?_
    rcases (Keyspace.mem_texts (i := otherIdentity) ⟨rfl, rfl⟩).1 ht with rfl | rfl
    · exact List.mem_cons_self
    · exact List.mem_cons_of_mem _ List.mem_cons_self
  · cases hd
    exact List.mem_append_left _ (Batch.mem_smallTexts Batch.smallSecond_mem ht)
  · cases hd
  · cases hd

theorem talliedDemands_accounted :
    let v : Service := { keys := ⟨"relay"⟩ }
    let x := v.log nextFail talliedDemands { state := 1 }
    x.tally.ingestions = 5 ∧ x.tally.reassemblies = 1 ∧
      (x.tally.ingested : Int) = ∑ i ∈ operationsOf talliedDemands,
      x.store.countOf (v.keys.countKey i) := by
  intro v x
  obtain ⟨hany, hempty⟩ := tally_accounts_for_calls v nextFail 1 talliedDemands
  have hshown : ∀ call ∈ talliedDemands,
    v.Shows call.1 := fun _ _ => Service.shows_of_unbounded rfl rfl _
  obtain ⟨hingest, hreassemble⟩ := (hany {}).2.2 nextFail_lenient hshown (Store.countable_empty _)
  exact ⟨hingest, hreassemble, (hempty talliedDemands_collisionless).total_eq⟩

end FragmentRelay
