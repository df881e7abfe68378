import FragmentRelay.Proofs.Ingest.Renewal

/-!
# Expiry: what vanishes delays a reassembly and is healed by a redelivery

The fragments of a batch are delivered over time, and at any moments vanished entries are purged.
Purges make no difference (`sameFrom_tend`), so the store reads as the deliveries alone have left
it, which `Renewed` describes. The counter stays at the cardinality once all indices were delivered,
while records come and go: a reassembly gives the payload or names the first index whose latest
delivery is too long ago. Delivering the vanished ones again brings them back, and each such call is
told that it is a duplicate.

* `sameFrom_tend`: a timetable with purges against its deliveries alone.
* `Timetable.Delivers.renewed`: what the store reads as after it.
* `expiry_healed_by_redelivery`: reassembly at any time after the deliveries, and after a
  redelivery.
-/

namespace FragmentRelay

/-! ### Timetables -/

/-- What is done with a store of fragments: one is delivered to it, or what has vanished is
dropped. -/
inductive Chore where
  | deliver (f : Fragment)
  | purge
deriving DecidableEq

/-- Chores, each with its time. -/
abbrev Timetable := List (Instant × Chore)

/-- The store after a chore. -/
def Ingestor.perform (g : Ingestor) (s : Store) (x : Instant × Chore) : Store :=
  match x.2 with
  | .deliver f => ((g.ingest f).alone x.1 s).2
  | .purge => s.purge x.1

/-- The store after a timetable. -/
def Ingestor.tend (g : Ingestor) (table : Timetable) (s : Store) : Store := table.foldl g.perform s

/-- The deliveries of a timetable. -/
def callsOf (table : Timetable) : List Call :=
  table.filterMap fun x => match x.2 with
    | .deliver f => some (x.1, f)
    | .purge => none

@[simp] theorem callsOf_append (table more : Timetable) :
    callsOf (table ++ more) = callsOf table ++ callsOf more :=
  List.filterMap_append

@[simp] theorem callsOf_deliver (now : Instant) (f : Fragment) (table : Timetable) :
    callsOf ((now, .deliver f) :: table) = (now, f) :: callsOf table := rfl

theorem time_mem_of_mem_callsOf {table : Timetable} {c : Call} (hc : c ∈ callsOf table) :
    ∃ x ∈ table, x.1 = c.1 := by
  obtain ⟨⟨now, chore⟩, hx, he⟩ := List.mem_filterMap.1 hc
  cases chore with
  | deliver f =>
    cases he
    exact ⟨_, hx, rfl⟩
  | purge => cases he

theorem Ingestor.tend_append (g : Ingestor) (table more : Timetable) (s : Store) :
    g.tend (table ++ more) s = g.tend more (g.tend table s) := List.foldl_append

open Store in
/-- **A timetable leaves the store as its deliveries alone do, for all that is read later.** -/
theorem sameFrom_tend (g : Ingestor) {table : Timetable} {clock later : Instant} {s t : Store}
    (h : SameFrom clock s t) (hs : s.keys.Nodup) (hafter : ∀ x ∈ table, clock ≤ x.1)
    (hordered : table.Pairwise fun x y => x.1 ≤ y.1) (hbefore : ∀ x ∈ table, x.1 ≤ later)
    (hle : clock ≤ later) : SameFrom later (g.tend table s) (g.after (callsOf table) t) := by
  induction table generalizing clock s t with
  | nil => exact h.mono hle
  | cons x table ih =>
    obtain ⟨now, chore⟩ := x
    obtain ⟨hnext, hrest⟩ := List.pairwise_cons.1 hordered
    have hnow := h.mono (hafter _ List.mem_cons_self)
    have hend : ∀ x ∈ table, x.1 ≤ later := fun x hx => hbefore x (List.mem_cons_of_mem _ hx)
    have hlater := hbefore _ List.mem_cons_self
    cases chore with
    | deliver f =>
      exact ih (Access.alone_same hnow (Nat.le_refl _) (g.ingest f)).2
        (Access.nodup_keys_alone hs _ _) hnext hrest hend hlater
    | purge => exact ih (hnow.purge hs) (nodup_keys_purge hs _) hnext hrest hend hlater

theorem Batch.Cut.delivered_eq_indices {b : Batch} {payload : Octets} {calls : List Call}
    (hcut : b.Cut payload) (hall : ∀ c ∈ calls, c.2 ∈ b.fragments)
    (hevery : ∀ x < b.header.cardinality, ∃ c ∈ calls, c.2.index = x) :
    b.delivered calls = b.indices := by
  refine Finset.Subset.antisymm Batch.delivered_subset fun x hx => ?_
  rw [Batch.mem_delivered_iff hall, ne_eq, visits_eq_nil_iff]
  obtain ⟨c, hc, hcx⟩ := hevery x ((hcut.mem_iff x).1 (Batch.mem_indices.1 hx))
  exact fun hnone => hnone c hc hcx

namespace Timetable

variable {k : Keyspace} {b : Batch} {payload : Octets} {ttl : Span} {table more : Timetable}
  {t : Instant}

/-- A timetable in the order of time that delivers fragments of a batch, none so late that the clock
cannot show when its record is to vanish. -/
structure Delivers (b : Batch) (ttl : Span) (table : Timetable) : Prop where
  ordered : table.Pairwise fun x y => x.1 ≤ y.1
  member : ∀ c ∈ callsOf table, c.2 ∈ b.fragments
  shown : ∀ c ∈ callsOf table, c.1 + ttl.nanos < Instant.horizon

/-- A timetable that delivers every index, in no more calls than a marker can count. -/
structure Covers (b : Batch) (ttl : Span) (table : Timetable) :
    Prop extends Delivers b ttl table where
  few : ((callsOf table).length : Int) < Counter.highest
  every : ∀ x < b.header.cardinality, ∃ c ∈ callsOf table, c.2.index = x

/-- A timetable can go on at a time that is not before its end. -/
theorem Delivers.append (h : Delivers b ttl table) (ht : ∀ x ∈ table, x.1 ≤ t)
    (hmore : ∀ x ∈ more, x.1 = t) (hmember : ∀ c ∈ callsOf more, c.2 ∈ b.fragments)
    (hshown : t + ttl.nanos < Instant.horizon) :
    Delivers b ttl (table ++ more) where
  ordered := by
    refine List.pairwise_append.2 ⟨h.ordered, ?_, fun x hx y hy => hmore y hy ▸ ht x hx⟩
    exact List.pairwise_of_forall_mem_list fun x hx y hy => by rw [hmore x hx, hmore y hy]
  member c hc := (List.mem_append.1 (callsOf_append table more ▸ hc)).elim (h.member c) (hmember c)
  shown c hc := by
    rcases List.mem_append.1 (callsOf_append table more ▸ hc) with hold | hnew
    · exact h.shown c hold
    · obtain ⟨x, hx, he⟩ := time_mem_of_mem_callsOf hnew
      rwa [← he, hmore x hx]

/-- **After a timetable the store reads as one that `Renewed` describes.** -/
theorem Delivers.renewed (h : Delivers b ttl table) (hcut : b.Cut payload)
    (hk : k.Collisionless {f | f ∈ b.fragments}) (hfew : ∀ x,
      ((visits (callsOf table) x).length : Int) ≤ Counter.highest) (ht : ∀ x ∈ table, x.1 ≤ t) :
    ∃ r, Renewed k b (b.identityOf payload) ttl (callsOf table) r ∧
      Store.SameFrom t (Ingestor.tend { keys := k, ttl := some ttl } table {}) r :=
  ⟨_, renewed_after hcut hk (fun _ hf => hf) h.member h.shown hfew,
    sameFrom_tend _ (.refl 0 {}) List.nodup_nil (fun _ _ => Nat.zero_le _) h.ordered ht
      (Nat.zero_le _)⟩

theorem Covers.length_visits_le (h : Covers b ttl table)
    (hnodup : ((callsOf more).map fun c => c.2.index).Nodup) (x : UInt32) :
    ((visits (callsOf (table ++ more)) x).length : Int) ≤ Counter.highest := by
  have hbefore := FragmentRelay.length_visits_le (callsOf table) x
  have hagain := List.nodup_iff_count_le_one.1 hnodup x
  have hfew := h.few
  rw [← length_visits] at hagain
  rw [callsOf_append, visits_append, List.length_append]
  omega

theorem Covers.delivered_eq_indices (h : Covers b ttl table) (hcut : b.Cut payload)
    {calls : List Call} (hcalls : ∀ c ∈ calls, c.2 ∈ b.fragments) :
    b.delivered (callsOf table ++ calls) = b.indices := by
  refine hcut.delivered_eq_indices
    (fun c hc => (List.mem_append.1 hc).elim (h.member c) (hcalls c)) fun x hx => ?_
  obtain ⟨c, hc, hcx⟩ := h.every x hx
  exact ⟨c, List.mem_append_left _ hc, hcx⟩

theorem fresh_append (hpos : 0 < ttl.nanos) (hmore : ∀ x ∈ more, x.1 = t) {x : UInt32}
    (hheal : ¬ Fresh ttl (callsOf table) t x → ∃ c ∈ callsOf more, c.2.index = x) :
    Fresh ttl (callsOf (table ++ more)) t x := by
  rw [callsOf_append]
  by_cases hnone : visits (callsOf more) x = []
  · rw [fresh_append_iff_of_not_visited hnone]
    by_contra hstale
    obtain ⟨c, hc, hcx⟩ := hheal hstale
    exact visits_eq_nil_iff.1 hnone c hc hcx
  · have htimes : ∀ c ∈ callsOf more, c.1 = t := fun c hc => by
      obtain ⟨y, hy, he⟩ := time_mem_of_mem_callsOf hc
      rw [← he, hmore y hy]
    refine ⟨t, ?_, Nat.lt_add_of_pos_right hpos⟩
    rw [latestVisit_append, latestVisit_of_times htimes hnone]
    rfl

/-- **What is delivered again is a duplicate.** -/
theorem Covers.answer (h : Covers b ttl table) (hcut : b.Cut payload)
    (hk : k.Collisionless {f | f ∈ b.fragments}) (ht : ∀ x ∈ table, x.1 ≤ t)
    (hshown : t + ttl.nanos < Instant.horizon) {f : Fragment} {rest : Timetable}
    (hmore : ∀ x ∈ more ++ (t, .deliver f) :: rest, x.1 = t)
    (hmember : ∀ c ∈ callsOf (more ++ (t, .deliver f) :: rest), c.2 ∈ b.fragments)
    (hnodup : ((callsOf (more ++ (t, .deliver f) :: rest)).map fun c => c.2.index).Nodup) :
    ((Ingestor.ingest { keys := k, ttl := some ttl } f).alone t
      (Ingestor.tend { keys := k, ttl := some ttl } more
        (Ingestor.tend { keys := k, ttl := some ttl } table {}))).1 =
      .value (.ok ⟨f.index, b.header.cardinality.toNat, b.header.cardinality, true⟩) := by
  simp only [callsOf_append, callsOf_deliver] at hmember hnodup
  have hf : f ∈ b.fragments := hmember (t, f) (by simp)
  have hmember' : ∀ c ∈ callsOf more,
    c.2 ∈ b.fragments := fun c hc => hmember c (List.mem_append_left _ hc)
  have hmore' : ∀ x ∈ more, x.1 = t := fun x hx => hmore x (List.mem_append_left _ hx)
  -- The index was not among those delivered again so far.
  obtain ⟨hnodup', -, hapart⟩ := List.nodup_append.1 (by rwa [List.map_append] at hnodup)
  have hfirst : visits (callsOf more) f.index = [] := visits_eq_nil_iff.2 fun c hc =>
    hapart _ (List.mem_map_of_mem hc) _ (by simp)
  have hdel := h.toDelivers.append ht hmore' hmember' hshown
  have hlast : ∀ x ∈ table ++ more, x.1 ≤ t := fun x hx =>
    (List.mem_append.1 hx).elim (ht x) fun hx => (hmore' x hx).le
  obtain ⟨r, hr, hsame⟩ := hdel.renewed hcut hk (h.length_visits_le hnodup') hlast
  have hfew : ((visits (callsOf (table ++ more)) f.index).length : Int) < Counter.highest := by
    have := FragmentRelay.length_visits_le (callsOf table) f.index
    have := h.few
    rw [callsOf_append, visits_append, hfirst, List.append_nil]
    omega
  obtain ⟨r', hr', -⟩ := hr.ingest (c := (t, f)) hcut hk (fun _ he => he) hdel.member hf hshown hfew
  rw [← Ingestor.tend_append, (Access.alone_same hsame (Nat.le_refl t) _).1, hr', callsOf_append,
    List.append_assoc, h.delivered_eq_indices hcut hmember', h.delivered_eq_indices hcut fun c hc =>
      ?_, hcut.card_indices,
    decide_eq_true (Batch.index_mem_indices hf)]
  exact (List.mem_append.1 hc).elim (hmember' c) fun hc => by
    rw [List.mem_singleton.1 hc]
    exact hf

end Timetable

/-- **Expiry delays a reassembly, and a redelivery heals it.** The counter has no deadline, so
reassembly goes on to the records and reports the first index whose latest delivery is too old. -/
theorem expiry_healed_by_redelivery {k : Keyspace} {chunk : Nat} (hpos : 0 < chunk) {nonce : UInt64}
    {payload : Octets} {b : Batch} (hb : Batch.ofPayload chunk nonce payload = .ok b)
    (hwire : ∀ f ∈ b.fragments, f.claimed ≤ Wire.maxRecordLength)
    (hk : k.Collisionless {f | f ∈ b.fragments}) {ttl : Span} {table : Timetable}
    (htable : Timetable.Covers b ttl table) {t : Instant} (ht : ∀ x ∈ table, x.1 ≤ t) :
    let g : Ingestor := { keys := k, ttl := some ttl }
    let s := g.tend table {}
    let Kept : UInt32 → Prop := Fresh ttl (callsOf table) t
    ∀ (m : Reassembler) (o : Operation), m.keys = k → o.header = b.header →
      (m.ingestedCount (b.identityOf payload)).alone t s =
        (.value (.ok b.header.cardinality.toNat), s) ∧
      ((∀ x < b.header.cardinality, Kept x) →
        (m.reassemble o).alone t s = (.value (.ok (), { o with payload := some payload }), s)) ∧
      (∀ x < b.header.cardinality, ¬ Kept x → (∀ y < x, Kept y) →
        (m.reassemble o).alone t s = (.value (.error (.fragmentMissing x), o), s) ∧
          (ReassemblyError.fragmentMissing x).retryable = true) ∧
      (t + ttl.nanos < Instant.horizon → ∀ again : Timetable, (∀ x ∈ again, x.1 = t) →
        (∀ c ∈ callsOf again, c.2 ∈ b.fragments) → ((callsOf again).map fun c => c.2.index).Nodup →
        (∀ x < b.header.cardinality, ¬ Kept x → ∃ c ∈ callsOf again, c.2.index = x) →
        (∀ more f rest, again = more ++ (t, .deliver f) :: rest →
          ((g.ingest f).alone t (g.tend more s)).1 =
          .value (.ok ⟨f.index, b.header.cardinality.toNat, b.header.cardinality, true⟩)) ∧
        (0 < ttl.nanos → (m.reassemble o).alone t (g.tend again s) =
          (.value (.ok (), { o with payload := some payload }), g.tend again s))) := by
  intro g s Kept m o hm ho
  obtain ⟨hcut, -⟩ := Batch.cut_of_claimed hpos hb hwire
  have hfew : ∀ x, ((visits (callsOf table) x).length : Int) ≤ Counter.highest := fun x => by
    have := length_visits_le (callsOf table) x
    have := htable.few
    omega
  have hfull : b.delivered (callsOf table) = b.indices :=
    hcut.delivered_eq_indices htable.member htable.every
  have hread := Reassembler.reassemble_readOnly m o
  obtain ⟨r, hr, hsame⟩ := htable.toDelivers.renewed hcut hk hfew ht
  refine ⟨?_, fun hkept => ?_, fun x hx hstale hfirst => ?_,
      fun hshown again htimes hmember hnodup hheal =>
    ⟨?_, fun hspan => ?_⟩⟩
  · have hcounter := hr.countsTo_cardinality hcut hm hfull
    exact (Reassembler.ingestedCount_readOnly m _).alone_same hsame (Nat.le_refl t)
      (Reassembler.ingestedCount_alone (hcounter.get_pos (hcut.cardinality_eq ▸ hcut.positive))
        (Counter.decode_encode_natCast (Counter.toNat_le_highest _)))
  · refine hread.alone_same hsame (Nat.le_refl t)
      (hr.reassemble_fresh hcut hm ho hfull fun f hf => ?_)
    exact hkept _ ((hcut.mem_iff _).1 ⟨f, hf, rfl⟩)
  · obtain ⟨f, hf, rfl⟩ := (hcut.mem_iff x).2 hx
    have hmissing := hr.reassemble_stale hcut hm ho hfull hf hstale fun e _ hlt => hfirst _ hlt
    exact ⟨hread.alone_same hsame (Nat.le_refl t) hmissing, rfl⟩
  · rintro more f rest rfl
    exact htable.answer hcut hk ht hshown htimes hmember hnodup
  · have hdel := htable.toDelivers.append ht htimes hmember hshown
    have hlast : ∀ x ∈ table ++ again, x.1 ≤ t := fun x hx =>
      (List.mem_append.1 hx).elim (ht x) fun hx => (htimes x hx).le
    obtain ⟨r', hr', hsame'⟩ := hdel.renewed hcut hk (htable.length_visits_le hnodup) hlast
    have hfull' : b.delivered (callsOf (table ++ again)) = b.indices := by
      rw [callsOf_append]
      exact htable.delivered_eq_indices hcut hmember
    rw [Ingestor.tend_append] at hsame'
    refine hread.alone_same hsame' (Nat.le_refl t)
      (hr'.reassemble_fresh hcut hm ho hfull' fun f hf => ?_)
    exact Timetable.fresh_append hspan htimes (hheal _ ((hcut.mem_iff _).1 ⟨f, hf, rfl⟩))

/-- The second fragment comes first and is purged; when it is asked for, the first one is still
there. -/
def wornTable : Timetable :=
  [(0, .deliver Batch.smallSecond), (3, .deliver Batch.smallFirst), (10, .purge)]

theorem wornTable_covers : Timetable.Covers Batch.smallBatch (.ofNanos 10) wornTable where
  ordered := by decide
  member c hc := by
    have hcases : c = (0, Batch.smallSecond) ∨ c = (3, Batch.smallFirst) := by
      simpa [wornTable, callsOf] using hc
    rcases hcases with rfl | rfl
    · exact Batch.smallSecond_mem
    · exact Batch.smallFirst_mem
  shown c hc := by
    have hcases : c = (0, Batch.smallSecond) ∨ c = (3, Batch.smallFirst) := by
      simpa [wornTable, callsOf] using hc
    rcases hcases with rfl | rfl <;> decide
  few := by decide
  every x hx := by
    rcases Batch.lt_smallBatch_cardinality hx with rfl | rfl
    · exact ⟨(3, Batch.smallFirst), by simp [wornTable, callsOf], rfl⟩
    · exact ⟨(0, Batch.smallSecond), by simp [wornTable, callsOf], rfl⟩

theorem wornTable_healed :
    let g : Ingestor := { keys := ⟨"relay"⟩, ttl := some (.ofNanos 10) }
    let m : Reassembler := { keys := ⟨"relay"⟩ }
    let o : Operation := { header := Batch.smallBatch.header }
    let s := g.tend wornTable {}
    let healed := g.tend [(12, .deliver Batch.smallSecond)] s
    (m.reassemble o).alone 12 s = (.value (.error (.fragmentMissing 1), o), s) ∧
      (m.reassemble o).alone 12 healed =
        (.value (.ok (), { o with payload := some [1, 2, 3] }), healed) := by
  intro g m o s healed
  have hfirst : Fresh (.ofNanos 10) (callsOf wornTable) 12 0 := by decide +kernel
  have hsecond : ¬ Fresh (.ofNanos 10) (callsOf wornTable) 12 1 := by decide +kernel
  have hb : Batch.ofPayload 2 5 [1, 2, 3] = .ok Batch.smallBatch := rfl
  have hlast : ∀ x ∈ wornTable, x.1 ≤ 12 := by simp [wornTable]
  obtain ⟨-, -, hmissing, hheals⟩ :=
    expiry_healed_by_redelivery (by decide : 0 < 2) hb Batch.smallBatch_cut.claimed_le
    (Batch.collisionless_of_small fun _ hf => hf) wornTable_covers hlast m o rfl rfl
  have hbelow : ∀ y : UInt32, y < 1 → Fresh (.ofNanos 10) (callsOf wornTable) 12 y := fun y hy => by
    rcases Batch.lt_smallBatch_cardinality (UInt32.lt_trans hy (by decide)) with rfl | rfl
    · exact hfirst
    · exact absurd hy (by decide)
  refine ⟨(hmissing 1 (by decide) hsecond hbelow).1,
    (hheals (by decide) [(12, .deliver Batch.smallSecond)] (by simp)
    (by simp [callsOf, Batch.smallSecond_mem]) (by simp [callsOf]) (fun x hx hstale => ?_)).2
  (by decide)⟩
  rcases Batch.lt_smallBatch_cardinality hx with rfl | rfl
  · exact absurd hfirst hstale
  · exact ⟨(12, Batch.smallSecond), by simp [callsOf], rfl⟩

end FragmentRelay
