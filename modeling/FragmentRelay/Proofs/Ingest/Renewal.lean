import FragmentRelay.Proofs.Reassembly.AnyOrder
import FragmentRelay.Proofs.Reassembly.FirstFault
import FragmentRelay.Proofs.Store.Deadlines

/-!
# Renewal: records that vanish while the counts stay

Fragments of a batch are ingested with a span for their records. A record stands from each delivery
of its fragment for that span, so only the latest delivery matters; markers and the counter have no
deadline. The invariant `Renewed` says this exactly: the record of an index has the deadline of its
latest delivery, its marker has counted all its deliveries, and the counter has counted the indices.

* `Renewed.ingest`, `renewed_after`: one delivery, and any number of them.
* `Renewed.reassemble_fresh`: the payload, while all records stand.
* `Renewed.reassemble_stale`: the first index whose record does not, else.
-/

namespace FragmentRelay

/-! ### Deliveries of an index -/

/-- When fragments with an index were delivered. -/
def visits (calls : List Call) (x : UInt32) : List Instant :=
  (calls.filter fun c => c.2.index = x).map (·.1)

/-- When a fragment with an index was delivered last. -/
def latestVisit (calls : List Call) (x : UInt32) : Option Instant := (visits calls x).getLast?

/-- The latest delivery of an index is less than a span ago. -/
def Fresh (ttl : Span) (calls : List Call) (now : Instant) (x : UInt32) : Prop :=
  ∃ u ∈ latestVisit calls x, now < u + ttl.nanos

instance (ttl : Span) (calls : List Call) (now : Instant) (x : UInt32) :
    Decidable (Fresh ttl calls now x) :=
  inferInstanceAs (Decidable (∃ u ∈ latestVisit calls x, now < u + ttl.nanos))

section Visits

variable {ttl : Span} {calls more : List Call} {c : Call} {now : Instant} {x : UInt32}

theorem visits_append (calls more : List Call) (x : UInt32) :
    visits (calls ++ more) x = visits calls x ++ visits more x := by
  simp [visits]

theorem visits_append_self (calls : List Call) (c : Call) :
    visits (calls ++ [c]) c.2.index = visits calls c.2.index ++ [c.1] := by
  simp [visits]

theorem visits_append_of_ne (hx : x ≠ c.2.index) : visits (calls ++ [c]) x = visits calls x := by
  simp [visits, hx.symm]

theorem length_visits (calls : List Call) (x : UInt32) :
    (visits calls x).length = (calls.map fun c => c.2.index).count x := by
  rw [visits, List.length_map, List.count_eq_countP, List.countP_map, List.countP_eq_length_filter]
  congr 1

theorem length_visits_le (calls : List Call) (x : UInt32) :
    (visits calls x).length ≤ calls.length := by
  rw [length_visits]
  exact List.count_le_length.trans (List.length_map _).le

theorem visits_eq_nil_iff : visits calls x = [] ↔ ∀ c ∈ calls, c.2.index ≠ x := by
  simp [visits, List.filter_eq_nil_iff]

theorem latestVisit_append (calls more : List Call) (x : UInt32) :
    latestVisit (calls ++ more) x = (latestVisit more x).or (latestVisit calls x) := by
  rw [latestVisit, visits_append, List.getLast?_append]
  rfl

theorem latestVisit_of_times (htimes : ∀ c ∈ calls, c.1 = now) (hx : visits calls x ≠ []) :
    latestVisit calls x = some now := by
  obtain ⟨u, hu⟩ := Option.ne_none_iff_exists'.1 (mt List.getLast?_eq_none_iff.1 hx)
  obtain ⟨c, hc, rfl⟩ := List.mem_map.1 (List.mem_of_getLast? hu)
  rw [latestVisit, hu, htimes c (List.mem_filter.1 hc).1]

theorem fresh_append_iff_of_not_visited (h : visits more x = []) :
    Fresh ttl (calls ++ more) now x ↔ Fresh ttl calls now x := by
  rw [Fresh, latestVisit_append, latestVisit, h]
  rfl

end Visits

theorem Batch.mem_delivered_iff {b : Batch} {calls : List Call}
    (hall : ∀ c ∈ calls, c.2 ∈ b.fragments) {x : UInt32} :
    x ∈ b.delivered calls ↔ visits calls x ≠ [] := by
  rw [ne_eq, visits_eq_nil_iff]
  push Not
  simp only [delivered, List.mem_toFinset, List.mem_map, List.mem_filter, decide_eq_true_eq]
  constructor
  · rintro ⟨c, ⟨hc, -⟩, hx⟩
    exact ⟨c, hc, hx⟩
  · rintro ⟨c, hc, hx⟩
    exact ⟨c, ⟨hc, hall c hc⟩, hx⟩

/-! ### The invariant -/

/-- What a store knows of a batch whose fragments were delivered, with a span for their records. -/
structure Renewed (k : Keyspace) (b : Batch) (i : Identity) (ttl : Span) (calls : List Call)
    (s : Store) : Prop where
  counter : s.CountsTo (k.countKey i) (b.delivered calls).card
  marker : ∀ f ∈ b.fragments, s.CountsTo (k.markerKey i f.index) (visits calls f.index).length
  record : ∀ f ∈ b.fragments, s.find? (k.persistenceKey i f.index) =
    (latestVisit calls f.index).map fun u => ⟨Wire.encode f, some (u + ttl.nanos)⟩

namespace Renewed

open Reassembler

variable {k : Keyspace} {b : Batch} {payload : Octets} {i : Identity} {ttl : Span}
  {calls : List Call} {s : Store} {fs : Set Fragment} {c : Call} {f : Fragment} {m : Reassembler}
  {o : Operation} {now : Instant}

theorem empty (k : Keyspace) (b : Batch) (i : Identity) (ttl : Span) : Renewed k b i ttl [] {} where
  counter := Store.countsTo_empty _
  marker _ _ := Store.countsTo_empty _
  record _ _ := rfl

/-- **A delivery of a fragment of the batch renews its record**, counts it if it is the first, and
tells which. -/
theorem ingest (h : Renewed k b (b.identityOf payload) ttl calls s) (hcut : b.Cut payload)
    (hk : k.Collisionless fs) (hfs : ∀ f ∈ b.fragments, f ∈ fs)
    (hall : ∀ c ∈ calls, c.2 ∈ b.fragments) (hc : c.2 ∈ b.fragments)
    (hclock : c.1 + ttl.nanos < Instant.horizon)
    (hfew : ((visits calls c.2.index).length : Int) < Counter.highest) :
    ∃ s', (Ingestor.ingest { keys := k, ttl := some ttl } c.2).alone c.1 s =
        (.value (.ok ⟨c.2.index, (b.delivered (calls ++ [c])).card, b.header.cardinality,
          decide (c.2.index ∈ b.delivered calls)⟩), s') ∧
      Renewed k b (b.identityOf payload) ttl (calls ++ [c]) s' := by
  have hi := hcut.belongsTo hc
  have hzero : (visits calls c.2.index).length = 0 ↔ c.2.index ∉ b.delivered calls := by
    rw [Batch.mem_delivered_iff hall, not_not, List.length_eq_zero_iff]
  have hpc := k.countKey_ne_persistenceKey (b.identityOf payload) (b.identityOf payload) c.2.index
  have hpm :=
    k.persistenceKey_ne_markerKey (b.identityOf payload) (b.identityOf payload) c.2.index c.2.index
  have hcm := k.countKey_ne_markerKey (b.identityOf payload) (b.identityOf payload) c.2.index
  have hsmall := Counter.card_lt_highest (b.delivered calls)
  obtain ⟨s', hs', hmark, hcount, hrest⟩ := Ingestor.countOnce_alone c.1
    ((h.marker c.2 hc).insert_of_ne (e := ⟨Wire.encode c.2, some (c.1 + ttl.nanos)⟩) hpm.symm) hfew
    (h.counter.insert_of_ne hpc) (by omega)
    (fun h₀ => Finset.card_pos.2 ⟨_, not_not.1 (mt hzero.2 h₀)⟩) hcm
  rw [Batch.card_insert_of_marker hzero, ← Batch.delivered_append_of_mem hc] at hs' hcount
  have hframe : ∀ key, ¬ k.Owns c.2 key → s'.find? key = s.find? key := fun key hkey => by
    rw [hrest key (fun he => hkey ⟨_, hi, .inr (.inr he)⟩) (fun he => hkey ⟨_, hi, .inl he⟩),
      Store.find?_insert_of_ne fun he => hkey ⟨_, hi, .inr (.inl he)⟩]
  have hset := Store.set_of_lt (s := s) hclock (k.persistenceKey (b.identityOf payload) c.2.index)
    (Wire.encode c.2)
  refine ⟨s', ?_, hcount, fun g hg => ?_, fun g hg => ?_⟩
  · have hrun := Ingestor.ingest_alone_of_set (g := { keys := k, ttl := some ttl })
      (hcut.genuine hc) hi rfl hset hs'
    rw [hrun]
    simp [Ingestor.answer, hzero, (hcut.fits_of_mem hc).cardinality_eq]
  · by_cases hgc : g = c.2
    · subst hgc
      rw [visits_append_self, List.length_append]
      exact hmark
    · rw [visits_append_of_ne fun he => hgc (hcut.eq_of_index hg hc he)]
      exact (h.marker g hg).of_find?_eq (hframe _ (hcut.not_owns_of_ne hk hfs hc hg hgc rfl))
  · by_cases hgc : g = c.2
    · subst hgc
      rw [hrest _ hpm hpc.symm, Store.find?_insert_self, latestVisit, visits_append_self]
      simp
    · rw [latestVisit, visits_append_of_ne fun he => hgc (hcut.eq_of_index hg hc he),
        Keyspace.persistenceKey, hframe _ (hcut.not_owns_of_ne hk hfs hc hg hgc rfl)]
      exact h.record g hg

/-! ### Reassembly under the invariant -/

theorem get_record (h : Renewed k b i ttl calls s) (hf : f ∈ b.fragments) (now : Instant) :
    s.get now (k.persistenceKey i f.index) = if Fresh ttl calls now f.index
      then some (Wire.encode f) else none := by
  have hr := h.record f hf
  cases hl : latestVisit calls f.index with
  | none =>
    rw [hl] at hr
    rw [Store.get_of_find?_none hr, if_neg]
    rintro ⟨u, hu, -⟩
    rw [hl] at hu
    cases hu
  | some u =>
    rw [hl] at hr
    rw [Store.get_of_deadline hr]
    simp [Fresh, hl]

theorem stored (h : Renewed k b (b.identityOf payload) ttl calls s) (hcut : b.Cut payload)
    (hm : m.keys = k) (hf : f ∈ b.fragments) (hfresh : Fresh ttl calls now f.index) :
    m.Stored now s b.header (b.identityOf payload) f.index f := by
  have hg := h.get_record hf now
  rw [if_pos hfresh, ← hm] at hg
  exact hcut.stored hf hg

theorem countsTo_cardinality (h : Renewed k b (b.identityOf payload) ttl calls s)
    (hcut : b.Cut payload) (hm : m.keys = k) (hfull : b.delivered calls = b.indices) :
    s.CountsTo (m.keys.countKey (b.identityOf payload)) b.header.cardinality.toNat := by
  have hc := h.counter
  rwa [hfull, hcut.card_indices, ← hm] at hc

theorem counted (h : Renewed k b (b.identityOf payload) ttl calls s) (hcut : b.Cut payload)
    (hm : m.keys = k) (hfull : b.delivered calls = b.indices) (now : Instant) :
    m.Counted now s b.header :=
  hcut.counted (h.countsTo_cardinality hcut hm hfull) (Counter.toNat_le_highest _) (le_refl _) now

/-- **While all records are fresh, reassembly gives the payload.** -/
theorem reassemble_fresh (h : Renewed k b (b.identityOf payload) ttl calls s) (hcut : b.Cut payload)
    (hm : m.keys = k) (ho : o.header = b.header) (hfull : b.delivered calls = b.indices)
    (hfresh : ∀ f ∈ b.fragments, Fresh ttl calls now f.index) :
    (m.reassemble o).alone now s = (.value (.ok (), { o with payload := some payload }), s) := by
  exact reassemble_of_assembled (ho ▸ hcut.assembled fun f hf => h.stored hcut hm hf (hfresh f hf))
    (ho ▸ h.counted hcut hm hfull now)

/-- **The first index whose record is not fresh is reported missing.** -/
theorem reassemble_stale (h : Renewed k b (b.identityOf payload) ttl calls s) (hcut : b.Cut payload)
    (hm : m.keys = k) (ho : o.header = b.header) (hfull : b.delivered calls = b.indices)
    (hf : f ∈ b.fragments) (hstale : ¬ Fresh ttl calls now f.index)
    (hfirst : ∀ g ∈ b.fragments, g.index < f.index → Fresh ttl calls now g.index) :
    (m.reassemble o).alone now s = (.value (.error (.fragmentMissing f.index), o), s) := by
  have hmissing : s.get now (m.keys.persistenceKey (b.identityOf payload) f.index) = none := by
    rw [hm, h.get_record hf now, if_neg hstale]
  refine reassemble_of_error (ho ▸ hcut.identity_ok) (ho ▸ h.counted hcut hm hfull now) ?_
  rw [ho]
  exact hcut.collect_missing hf (fun e he hlt => h.stored hcut hm he (hfirst e he hlt)) hmissing

end Renewed

/-- **After any deliveries of a batch** its records stand from the latest one of each index, its
markers have counted all and its counter the indices. -/
theorem renewed_after {k : Keyspace} {b : Batch} {payload : Octets} {fs : Set Fragment} {ttl : Span}
    {calls : List Call} (hcut : b.Cut payload) (hk : k.Collisionless fs)
    (hfs : ∀ f ∈ b.fragments, f ∈ fs) (hall : ∀ c ∈ calls, c.2 ∈ b.fragments)
    (hclock : ∀ c ∈ calls, c.1 + ttl.nanos < Instant.horizon)
    (hfew : ∀ x, ((visits calls x).length : Int) ≤ Counter.highest) :
    Renewed k b (b.identityOf payload) ttl calls
      (Ingestor.after { keys := k, ttl := some ttl } calls {}) := by
  induction calls using List.reverseRecOn with
  | nil => exact Renewed.empty k b _ ttl
  | append_singleton calls c ih =>
    have hbefore : ∀ x, ((visits calls x).length : Int) ≤ Counter.highest := fun x => by
      have := hfew x
      rw [visits_append, List.length_append] at this
      omega
    have hless : ((visits calls c.2.index).length : Int) < Counter.highest := by
      have := hfew c.2.index
      rw [visits_append_self, List.length_append, List.length_singleton] at this
      omega
    have hall' : ∀ d ∈ calls, d.2 ∈ b.fragments := fun d hd => hall d (List.mem_append_left _ hd)
    have hp := ih hall' (fun d hd => hclock d (List.mem_append_left _ hd)) hbefore
    obtain ⟨s', hs', hp'⟩ :=
      hp.ingest hcut hk hfs hall' (hall c (by simp)) (hclock c (by simp)) hless
    rw [Ingestor.after, List.foldl_append, List.foldl_cons, List.foldl_nil]
    rw [Ingestor.after] at hs'
    rw [hs']
    exact hp'

end FragmentRelay
