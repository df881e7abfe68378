import FragmentRelay.Proofs.Reassembly.Held
import Mathlib.Data.Nat.Find
import Mathlib.Tactic.Common

/-!
# Any order: fragments that arrive in any order make up their payload

Ingestion calls run one after the other on a store that is empty at first. Among them are fragments
of a batch in any order and number, fragments that are not genuine, and fragments of other
operations. What reassembly makes of the batch's header afterwards depends on nothing but the set of
indices that were delivered.

* `Progress.held`: what arrived is there in part, which says what reassembly answers.
* `Progress.eq_of_assembled`: the records of a batch make up its payload only, and under its header
  only.
* `progress_after`: the invariant after any calls.
* `completesAt_iff`: the call that reports completion is the one that delivers the last new index.
* `any_order_round_trip`: all of this for every payload that can be cut.
-/

namespace FragmentRelay

/-! ### Reassembly under the invariant -/

theorem Header.eq_of_fields {h k : Header} (hcard : h.cardinality = k.cardinality)
    (hsum : h.checksum = k.checksum) (hnonce : h.nonce = k.nonce)
    (hsize : h.size = k.size) : h = k := by
  cases h
  cases k
  simp only [Header.mk.injEq]
  exact ⟨hcard, hsum, hnonce, hsize⟩

namespace Progress

open Reassembler

variable {k : Keyspace} {b : Batch} {payload : Octets} {D : Finset UInt32} {n : Nat} {s : Store}
  {m : Reassembler} {o : Operation}

theorem held (h : Progress k b (b.identityOf payload) D n s) :
    Held k b (b.identityOf payload) D s where
  subset := h.subset
  counter := h.counter
  record f hf hD := by rw [h.record f hf, if_pos hD]

theorem eq_of_stored (h : Progress k b (b.identityOf payload) D n s) (hcut : b.Cut payload)
    (hm : m.keys = k) {now : Instant} {header : Header} {f g : Fragment} (hg : g ∈ b.fragments)
    (hf : m.Stored now s header (b.identityOf payload) g.index f) : f = g := by
  obtain ⟨⟨raw, hget, hdec⟩, -⟩ := hf
  have hrec := h.record g hg
  rw [hm] at hget
  split at hrec
  · rw [Store.get_of_find?_some hrec] at hget
    cases hget
    rw [hcut.decode_encode hg] at hdec
    exact (Except.ok.inj hdec).symm
  · rw [Store.get_of_find?_none hrec] at hget
    cases hget

/-- **Whatever header asks for the operation, the records of the batch make up its payload only, and
only under its own header.** -/
theorem eq_of_assembled (h : Progress k b (b.identityOf payload) D n s) (hcut : b.Cut payload)
    (hm : m.keys = k) {now : Instant} {header : Header} {whole : Octets}
    (hi : header.identity = .ok (b.identityOf payload)) (ha : m.Assembled now s header whole) :
    header = b.header ∧ whole = payload := by
  obtain ⟨i, fs, hi', hlen, hfill, rfl⟩ := ha.slots
  rw [hi] at hi'
  cases hi'
  obtain ⟨hvalid, hnonce, -⟩ := Header.identity_ok_iff.1 hi
  obtain ⟨hsum, hne⟩ := Header.validate_ok_iff.1 hvalid
  have hsame : ∀ (x : Nat) f g, fs[x]? = some f → b.fragments[x]? = some g → f = g := by
    intro x f g hf hg
    have hstored := hfill x f hf
    rw [Nat.zero_add, ← (hcut.fits x g hg).index_eq] at hstored
    exact h.eq_of_stored hcut hm (List.mem_of_getElem? hg) hstored
  -- There is a first slot, and its fragment knows the cardinality.
  have hcard : header.cardinality = b.header.cardinality := by
    have hpos : 0 < header.cardinality.toNat := by
      rw [ne_eq, ← UInt32.toNat_inj] at hne
      exact Nat.pos_of_ne_zero hne
    obtain ⟨f, hf⟩ : ∃ f, fs[0]? = some f := ⟨_, List.getElem?_eq_getElem (hlen ▸ hpos)⟩
    obtain ⟨g, hg⟩ : ∃ g, b.fragments[0]? = some g := ⟨_, List.getElem?_eq_getElem hcut.positive⟩
    rw [← (hfill 0 f hf).fits.cardinality_eq, hsame 0 f g hf hg, (hcut.fits 0 g hg).cardinality_eq]
  have hfs : fs = b.fragments := by
    have hl : fs.length = b.fragments.length := by rw [hlen, hcard, hcut.cardinality_eq]
    refine List.ext_getElem hl fun x h₁ h₂ => ?_
    exact hsame x _ _ (List.getElem?_eq_getElem h₁) (List.getElem?_eq_getElem h₂)
  subst hfs
  have hsize := ha.size_eq
  rw [hcut.joined_eq] at hsize ⊢
  refine ⟨Header.eq_of_fields hcard (hsum.symm.trans hcut.checksum_eq.symm) hnonce.symm ?_, rfl⟩
  exact UInt64.toNat_inj.1 (hsize.symm.trans hcut.size_eq.symm)

end Progress

/-! ### Calls one after the other -/

/-- An ingestion call: when it is made, and for which fragment. -/
abbrev Call := Instant × Fragment

/-- The store after some ingestion calls. -/
def Ingestor.after (g : Ingestor) (calls : List Call) (s : Store) : Store :=
  calls.foldl (fun s c => ((g.ingest c.2).alone c.1 s).2) s

/-- The call with a number is one for an operation, and reports that it was the last one lacking. -/
def Ingestor.CompletesAt (g : Ingestor) (calls : List Call) (i : Identity) (n : Nat) : Prop :=
  ∃ c r, calls[n]? = some c ∧ c.2.BelongsTo i ∧
    ((g.ingest c.2).alone c.1 (g.after (calls.take n) {})).1 = .value (.ok r) ∧ r.completes = true

namespace Batch

/-- The indices of a batch of which a fragment was delivered. -/
def delivered (b : Batch) (calls : List Call) : Finset UInt32 :=
  ((calls.filter fun c => c.2 ∈ b.fragments).map fun c => c.2.index).toFinset

variable {b : Batch} {payload : Octets} {calls : List Call} {c : Call}

theorem delivered_append_of_mem (hc : c.2 ∈ b.fragments) :
    b.delivered (calls ++ [c]) = insert c.2.index (b.delivered calls) := by
  ext x
  simp [delivered, hc]

theorem delivered_append_of_not_mem (hc : c.2 ∉ b.fragments) :
    b.delivered (calls ++ [c]) = b.delivered calls := by
  simp [delivered, hc]

theorem delivered_mono {m n : Nat} (h : m ≤ n) :
    b.delivered (calls.take m) ⊆ b.delivered (calls.take n) := by
  intro x
  simp only [delivered, List.mem_toFinset, List.mem_map, List.mem_filter]
  rintro ⟨c, ⟨hc, hb⟩, rfl⟩
  exact ⟨c, ⟨List.take_subset_take_left calls h hc, hb⟩, rfl⟩

theorem delivered_subset : b.delivered calls ⊆ b.indices := by
  intro x
  simp only [delivered, List.mem_toFinset, List.mem_map, List.mem_filter, decide_eq_true_eq]
  rintro ⟨c, ⟨-, hb⟩, rfl⟩
  exact index_mem_indices hb

/-- Every call is for a fragment of the batch, for one that is not genuine, or for one of another
operation. -/
def Admits (b : Batch) (payload : Octets) (calls : List Call) : Prop :=
  ∀ c ∈ calls, c.2 ∈ b.fragments ∨ ¬ c.2.Genuine ∨ ¬ c.2.BelongsTo (b.identityOf payload)

/-- The fragments of the batch and of the calls that write under keys. -/
def traffic (b : Batch) (calls : List Call) : Set Fragment :=
  {f | f ∈ b.fragments ∨ f.Genuine ∧ ∃ c ∈ calls, c.2 = f}

theorem Admits.of_append {l : List Call} (h : b.Admits payload (calls ++ l)) :
    b.Admits payload calls :=
  fun c hc => h c (List.mem_append_left l hc)

theorem traffic_subset_append (l : List Call) : b.traffic calls ⊆ b.traffic (calls ++ l) := by
  rintro f (hf | ⟨hg, c, hc, rfl⟩)
  · exact .inl hf
  · exact .inr ⟨hg, c, List.mem_append_left l hc, rfl⟩

end Batch

section Session

variable {k : Keyspace} {b : Batch} {payload : Octets} {g : Ingestor} {calls : List Call}

/-- **After any calls the store knows exactly the indices that were delivered.** -/
theorem progress_after (hcut : b.Cut payload) (hg : g.keys = k) (httl : g.ttl = none)
    (hdedupe : g.dedupe = true) (ha : b.Admits payload calls)
    (hk : k.Collisionless (b.traffic calls)) :
    Progress k b (b.identityOf payload) (b.delivered calls) calls.length (g.after calls {}) := by
  induction calls using List.reverseRecOn with
  | nil => exact Progress.empty k b _
  | append_singleton calls c ih =>
    have hp := ih ha.of_append (hk.mono (Batch.traffic_subset_append [c]))
    have hfs : ∀ f ∈ b.fragments, f ∈ b.traffic (calls ++ [c]) := fun f hf => .inl hf
    rw [Ingestor.after, List.foldl_append, List.length_append]
    simp only [List.foldl_cons, List.foldl_nil, List.length_singleton]
    by_cases hc : c.2 ∈ b.fragments
    · obtain ⟨r, s', hr, hp', -⟩ := hp.ingest hcut hk hfs hg httl hdedupe hc c.1
      rw [Ingestor.after] at hr
      rw [Batch.delivered_append_of_mem hc, hr]
      exact hp'
    · rw [Batch.delivered_append_of_not_mem hc]
      refine (hp.ingest_other hcut hk hfs hg (fun hgen => ?_) Faults.none c.1 ()).mono
        (Nat.le_succ _)
      rcases ha c (by simp) with h | h | h
      · exact absurd h hc
      · exact absurd hgen h
      · exact ⟨.inr ⟨hgen, c, by simp, rfl⟩, h⟩

theorem not_completesAt_of_not_mem {c : Call} {i : Identity} {n : Nat} (hn : calls[n]? = some c)
    (hc : ¬ c.2.Genuine ∨ ¬ c.2.BelongsTo i) : ¬ g.CompletesAt calls i n := by
  rintro ⟨c', r, hc', hi, hr, -⟩
  rw [hn] at hc'
  cases hc'
  obtain ⟨e, he⟩ := Ingestor.ingest_of_not_genuine g (hc.resolve_right (not_not.2 hi))
  rw [he] at hr
  cases hr

/-- A call for a fragment of the batch completes its operation if its index was the last one
lacking. -/
theorem completesAt_of_mem_iff {c : Call} {n : Nat} (hn : calls[n]? = some c) (hcut : b.Cut payload)
    (hg : g.keys = k) (httl : g.ttl = none) (hdedupe : g.dedupe = true) {fs : Set Fragment}
    (hk : k.Collisionless fs) (hfs : ∀ f ∈ b.fragments, f ∈ fs) {D : Finset UInt32} {m : Nat}
    (hp : Progress k b (b.identityOf payload) D m (g.after (calls.take n) {}))
    (hc : c.2 ∈ b.fragments) :
    g.CompletesAt calls (b.identityOf payload) n ↔ D ≠ b.indices ∧
    insert c.2.index D = b.indices := by
  obtain ⟨r, s', hr, hp', hres⟩ := hp.ingest hcut hk hfs hg httl hdedupe hc c.1
  have hcompletes : g.CompletesAt calls (b.identityOf payload) n ↔ ∃ a, r = .ok a ∧
      a.completes = true := by
    constructor
    · rintro ⟨c', a, hc', -, ha', hdone⟩
      rw [hn] at hc'
      cases hc'
      rw [hr] at ha'
      exact ⟨a, Outcome.value.inj ha', hdone⟩
    · rintro ⟨a, rfl, hdone⟩
      exact ⟨c, a, hn, hcut.belongsTo hc, by rw [hr], hdone⟩
  rw [hcompletes]
  by_cases hx : c.2.index ∈ D
  · rw [Finset.insert_eq_self.2 hx]
    refine ⟨fun ⟨a, ha', hdone⟩ => ?_, fun h => absurd h.2 h.1⟩
    rcases hres with rfl | ⟨-, -, e, rfl⟩
    · cases ha'
      simp [Ingested.completes, hx] at hdone
    · cases ha'
  · obtain rfl : r = _ := hres.resolve_right fun h => hx h.1
    have hne : D ≠ b.indices := fun he => hx (he ▸ Batch.index_mem_indices hc)
    simp only [Except.ok.injEq, exists_eq_left', Ingested.completes, hx, decide_false,
      Bool.not_false, Bool.true_and, beq_iff_eq, Int.ofNat_inj, ne_eq, hne,
      not_false_eq_true, true_and]
    exact ⟨fun h => hp'.held.eq_indices_of_card hcut h.ge, fun h => by rw [h, hcut.card_indices]⟩

/-- **The call that completes an operation is the one that delivers the last index it lacked.** -/
theorem completesAt_iff (hcut : b.Cut payload) (hg : g.keys = k) (httl : g.ttl = none)
    (hdedupe : g.dedupe = true) (ha : b.Admits payload calls)
    (hk : k.Collisionless (b.traffic calls)) (n : Nat) :
    g.CompletesAt calls (b.identityOf payload) n ↔
      b.delivered (calls.take n) ≠ b.indices ∧ b.delivered (calls.take (n + 1)) = b.indices := by
  cases hn : calls[n]? with
  | none =>
    have hlen := List.getElem?_eq_none_iff.1 hn
    rw [List.take_of_length_le hlen, List.take_of_length_le (Nat.le_succ_of_le hlen)]
    refine ⟨fun ⟨c, r, hc, _⟩ => ?_, fun h => absurd h.2 h.1⟩
    rw [hn] at hc
    cases hc
  | some c =>
    have htake : calls.take (n + 1) = calls.take n ++ [c] := by rw [List.take_add_one, hn]; rfl
    rw [htake]
    by_cases hb : c.2 ∈ b.fragments
    · have hsplit := List.take_append_drop n calls
      have hk' : k.Collisionless (b.traffic (calls.take n)) := by
        rw [← hsplit] at hk
        exact hk.mono (Batch.traffic_subset_append _)
      have hp := progress_after hcut hg httl hdedupe (hsplit.symm ▸ ha).of_append hk'
      rw [Batch.delivered_append_of_mem hb]
      exact completesAt_of_mem_iff hn hcut hg httl hdedupe hk (fun f hf => .inl hf) hp hb
    · rw [Batch.delivered_append_of_not_mem hb]
      refine ⟨fun h => ?_, fun h => absurd h.2 h.1⟩
      exact absurd h
        (not_completesAt_of_not_mem hn ((ha c (List.mem_of_getElem? hn)).resolve_left hb))

theorem existsUnique_completesAt (hcut : b.Cut payload) (hg : g.keys = k) (httl : g.ttl = none)
    (hdedupe : g.dedupe = true) (ha : b.Admits payload calls)
    (hk : k.Collisionless (b.traffic calls)) (hall : b.delivered calls = b.indices) :
    ∃! n, g.CompletesAt calls (b.identityOf payload) n := by
  simp only [completesAt_iff hcut hg httl hdedupe ha hk]
  have hex : ∃ n, b.delivered (calls.take n) = b.indices :=
    ⟨calls.length, by rw [List.take_length, hall]⟩
  have hnil : b.delivered (calls.take 0) ≠ b.indices := by
    have hpos := hcut.positive
    rw [← hcut.cardinality_eq, ← hcut.card_indices] at hpos
    exact (Finset.card_pos.1 hpos).ne_empty.symm
  have hlast : ∀ {m n : Nat}, b.delivered (calls.take m) = b.indices → m ≤ n →
      b.delivered (calls.take n) = b.indices :=
    fun hm hmn => Finset.Subset.antisymm Batch.delivered_subset (hm ▸ Batch.delivered_mono hmn)
  obtain ⟨m, hm⟩ : ∃ m, Nat.find hex = m + 1 :=
    Nat.exists_eq_succ_of_ne_zero fun h₀ => hnil (h₀ ▸ Nat.find_spec hex)
  refine ⟨m, ⟨Nat.find_min hex (by omega), hm ▸ Nat.find_spec hex⟩, fun n ⟨hbefore, hafter⟩ => ?_⟩
  have h₁ : Nat.find hex ≤ n + 1 := Nat.find_min' hex hafter
  have h₂ : n < Nat.find hex := by
    by_contra hle
    exact hbefore (hlast (Nat.find_spec hex) (not_lt.1 hle))
  omega

end Session

/-- **Fragments that arrive in any order make up their payload**, mixed with fragments that are
not genuine and with those of other operations. A call completes the operation exactly if it
delivers the last index that lacked. -/
theorem any_order_round_trip (k : Keyspace) {chunk : Nat} (hpos : 0 < chunk)
    (hmax : chunk ≤ maxChunkSize) (nonce : UInt64) {payload : Octets}
    (hcount : Batch.slotCount chunk payload.length ≤ maxCardinality) :
    ∃ b, Batch.ofPayload chunk nonce payload = .ok b ∧
      ∀ calls : List Call, b.Admits payload calls → k.Collisionless (b.traffic calls) →
        let g : Ingestor := { keys := k }
        let s := g.after calls {}
        let D := b.delivered calls
        (∀ (m : Reassembler) (o : Operation) (now : Instant), m.keys = k → o.header = b.header →
          (D = ∅ → (m.reassemble o).alone now s =
            (.value (.error (.counterMissing nonce (Checksum.compute payload)), o), s)) ∧
          (0 < D.card → D.card < b.header.cardinality.toNat → (m.reassemble o).alone now s =
            (.value (.error (.incomplete D.card b.header.cardinality), o), s)) ∧
          (b.header.cardinality.toNat ≤ D.card → (m.reassemble o).alone now s =
            (.value (.ok (), { o with payload := some payload }), s))) ∧
        (∀ n, g.CompletesAt calls (b.identityOf payload) n ↔
          b.delivered (calls.take n) ≠ b.indices ∧ b.delivered (calls.take (n + 1)) = b.indices) ∧
        (D = b.indices → ∃! n, g.CompletesAt calls (b.identityOf payload) n) := by
  obtain ⟨b, hb, hcut, hnonce⟩ := Batch.ofPayload_cut hpos hmax nonce hcount
  refine ⟨b, hb, fun calls ha hk => ?_⟩
  have hp := progress_after (g := { keys := k }) hcut rfl rfl rfl ha hk
  refine ⟨fun m o now hm ho => ⟨fun hD => ?_, fun h₀ hlt => ?_, fun hle => ?_⟩, ?_, ?_⟩
  · rw [hp.held.reassemble_none hcut hm ho hD now, hnonce]
  · exact hp.held.reassemble_some hcut hm ho h₀ hlt now
  · exact hp.held.reassemble_all hcut hm ho hle now
  · exact completesAt_iff hcut rfl rfl rfl ha hk
  · exact existsUnique_completesAt hcut rfl rfl rfl ha hk

/-- A fragment of another operation. -/
def strangeFragment : Fragment := Batch.slot (Batch.headerOf 6 1 [4]) [4] 0

/-- A fragment of the batch with its bytes changed. -/
def brokenFragment : Fragment :=
  { Batch.slot (Batch.headerOf 5 2 [1, 2, 3]) [1, 2] 0 with payload := [1, 9] }

/-- The last fragment of the batch comes first and twice, and the others in between. -/
def mixedCalls : List Call :=
  [(0, Batch.slot (Batch.headerOf 5 2 [1, 2, 3]) [3] 1), (1, strangeFragment),
    (1, Batch.slot (Batch.headerOf 5 2 [1, 2, 3]) [3] 1), (2, brokenFragment),
    (3, Batch.slot (Batch.headerOf 5 2 [1, 2, 3]) [1, 2] 0)]

theorem brokenFragment_not_genuine : ¬ brokenFragment.Genuine := fun h =>
  absurd h.own_eq (by decide +kernel)

theorem mixedCalls_admitted : Batch.smallBatch.Admits [1, 2, 3] mixedCalls := by
  intro c hc
  simp only [mixedCalls, List.mem_cons, List.not_mem_nil, or_false] at hc
  rcases hc with rfl | rfl | rfl | rfl | rfl
  · exact .inl (by simp [Batch.smallBatch])
  · exact .inr (.inr fun hi => absurd hi.nonce_eq (by decide))
  · exact .inl (by simp [Batch.smallBatch])
  · exact .inr (.inl brokenFragment_not_genuine)
  · exact .inl (by simp [Batch.smallBatch])

theorem mixedCalls_collisionless :
    Keyspace.Collisionless ⟨"relay"⟩ (Batch.smallBatch.traffic mixedCalls) := by
  have hnodup : ((Batch.smallTexts ⟨"relay"⟩ ++
      [(⟨"relay"⟩ : Keyspace).encoded 6 (Checksum.compute [4]) none,
        (⟨"relay"⟩ : Keyspace).encoded 6 (Checksum.compute [4]) (some 0)]).map
      Keyspace.digest).Nodup := by
    decide +kernel
  refine Keyspace.Collisionless.of_nodup (fun f hf t ht => ?_) hnodup
  rcases hf with hf | ⟨hgen, c, hc, rfl⟩
  · exact List.mem_append_left _ (Batch.mem_smallTexts hf ht)
  · simp only [mixedCalls, List.mem_cons, List.not_mem_nil, or_false] at hc
    rcases hc with rfl | rfl | rfl | rfl | rfl
    · exact List.mem_append_left _ (Batch.mem_smallTexts (by simp [Batch.smallBatch]) ht)
    · refine List.mem_append_right _ ?_
      rcases (Keyspace.mem_texts (i := { nonce := 6, checksum := Checksum.compute [4] })
          ⟨rfl, rfl⟩).1 ht with
        rfl | rfl <;>
        simp [strangeFragment, Batch.slot]
    · exact List.mem_append_left _ (Batch.mem_smallTexts (by simp [Batch.smallBatch]) ht)
    · exact absurd hgen brokenFragment_not_genuine
    · exact List.mem_append_left _ (Batch.mem_smallTexts (by simp [Batch.smallBatch]) ht)

theorem mixedCalls_round_trip :
    (Reassembler.reassemble { keys := ⟨"relay"⟩ } { header := Batch.smallBatch.header }).alone 4
        (Ingestor.after { keys := ⟨"relay"⟩ } mixedCalls {}) =
      (.value (.ok (), { header := Batch.smallBatch.header, payload := some [1, 2, 3] }),
        Ingestor.after { keys := ⟨"relay"⟩ } mixedCalls {}) := by
  obtain ⟨b, hb, h⟩ := any_order_round_trip ⟨"relay"⟩ (by decide : 0 < 2) (by decide) 5
    (by decide : Batch.slotCount 2 ([1, 2, 3] : Octets).length ≤ maxCardinality)
  obtain rfl : Batch.smallBatch = b := Except.ok.inj hb
  exact ((h mixedCalls mixedCalls_admitted mixedCalls_collisionless).1 { keys := ⟨"relay"⟩ }
    { header := Batch.smallBatch.header } 4 rfl rfl).2.2 (by decide +kernel)

end FragmentRelay
