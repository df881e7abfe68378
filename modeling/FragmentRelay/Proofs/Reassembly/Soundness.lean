import FragmentRelay.Batch
import FragmentRelay.Proofs.Store.Attempts
import FragmentRelay.Reassembly
import Mathlib.Tactic.Common

/-!
# Soundness: what a reassembled payload is made of

The store may hold anything under any key, and reads may fail in any pattern. A reassembly that
succeeds has seen, under the persistence key of every index, a record that fits its slot (`Stored`),
and the payload is made of exactly those records (`Assembled`); one that fails leaves the operation
as it was. Either way the store is only read. Where no read fails, the same conditions are enough.

* `openRecord_ok_iff`: a record is accepted exactly if it fits its slot.
* `collectFrom_ok`, `collectFrom_of_filled`: the loop over the slots, in both directions.
* `payloadOf_ok`, `payloadOf_of_assembled`: the same for whole payloads.
* `attaches_of_mayEnd`: when an operation gets a payload, whatever the requests are answered.
* `reassemble_sound_complete`: the two directions and what stays as it was, in one statement.
-/

namespace FragmentRelay.Reassembler

variable {σ : Type} {m : Reassembler} {h : Header} {i : Identity} {index : UInt32} {f : Fragment}
  {now : Instant} {s : Store}

/-! ### Slots -/

/-- A fragment is the one that a header has at an index, and is intact. -/
structure Fits (h : Header) (index : UInt32) (f : Fragment) : Prop where
  sound : ∃ sums, f.validate = .ok sums
  index_eq : f.index = index
  nonce_eq : f.nonce = h.nonce
  cardinality_eq : f.cardinality = h.cardinality
  whole_eq : f.reassembledChecksum = h.checksum
  own_eq : (Checksum.compute f.payload).octets = f.checksum

/-- The record under the persistence key of an index is one that fits the slot. -/
structure Stored (m : Reassembler) (now : Instant) (s : Store) (h : Header) (i : Identity)
    (index : UInt32) (f : Fragment) : Prop where
  record : ∃ raw, s.get now (m.keys.persistenceKey i index) = some raw ∧
    Wire.decode Fragment raw = .ok f
  fits : Fits h index f

theorem belongs_iff (hi : h.identity = .ok i) {sums : FragmentChecksums}
    (hs : f.validate = .ok sums) :
    belongs i h index f sums.reassembled = true ↔
      f.index = index ∧ f.nonce = h.nonce ∧ f.cardinality = h.cardinality ∧
      f.reassembledChecksum = h.checksum := by
  obtain ⟨hv, hn, -⟩ := Header.identity_ok_iff.1 hi
  have hc := (Header.validate_ok_iff.1 hv).1
  have hw := (Fragment.validate_ok_iff.1 hs).whole_octets
  have hsum : sums.reassembled = i.checksum ↔ f.reassembledChecksum = h.checksum := by
    rw [← hw, ← hc]
    exact ⟨congrArg _, Checksum.ext_octets⟩
  simp only [belongs, Bool.and_eq_true, beq_iff_eq, hsum, hn, and_assoc]

theorem verify_own_iff {sums : FragmentChecksums} (hs : f.validate = .ok sums) :
    sums.fragment.verify f.payload = true ↔ (Checksum.compute f.payload).octets = f.checksum := by
  have ho := (Fragment.validate_ok_iff.1 hs).own_octets
  rw [Checksum.verify_iff, ← ho]
  exact ⟨congrArg _, Checksum.ext_octets⟩

/-- **A record is accepted exactly if it decodes to a fragment that fits the slot.** -/
theorem openRecord_ok_iff (hi : h.identity = .ok i) {raw : Octets} :
    openRecord i h index raw = .ok f ↔ Wire.decode Fragment raw = .ok f ∧ Fits h index f := by
  unfold openRecord
  cases hd : Wire.decode Fragment raw with
  | error fault => simp
  | ok g =>
    cases hv : g.validate with
    | error d =>
      simp only [hv, reduceCtorEq, false_iff, Except.ok.injEq]
      rintro ⟨rfl, hf⟩
      obtain ⟨sums, hs⟩ := hf.sound
      rw [hv] at hs
      cases hs
    | ok sums =>
      have hb : belongs i h index g sums.reassembled = true ↔ _ := belongs_iff hi hv
      have ho := verify_own_iff hv
      simp only [hv, Except.ok.injEq]
      by_cases h₁ : belongs i h index g sums.reassembled = false
      · rw [if_pos h₁]
        simp only [reduceCtorEq, false_iff]
        rintro ⟨rfl, hf⟩
        rw [hb.2 ⟨hf.index_eq, hf.nonce_eq, hf.cardinality_eq, hf.whole_eq⟩] at h₁
        cases h₁
      · rw [if_neg h₁]
        obtain ⟨e₁, e₂, e₃, e₄⟩ := hb.1 (by simpa using h₁)
        by_cases h₂ : sums.fragment.verify g.payload = false
        · rw [if_pos h₂]
          simp only [reduceCtorEq, false_iff]
          rintro ⟨rfl, hf⟩
          rw [ho.2 hf.own_eq] at h₂
          cases h₂
        · rw [if_neg h₂]
          simp only [Except.ok.injEq]
          constructor
          · rintro rfl
            exact ⟨rfl, ⟨sums, hv⟩, e₁, e₂, e₃, e₄, ho.1 (by simpa using h₂)⟩
          · exact fun e => e.1

/-! ### Reading one slot -/

theorem run_get_ok {α : Type} {faults : Faults σ} {w w' : σ} {s' : Store} {key : Key}
    {next : Except StoreError (Option Octets) → Access α} {a : α}
    (hr : (Access.get key next).run faults now w s = (.value a, w', s'))
    (hfail : ∀ e w₁ w₂ s₂, (next (.error e)).run faults now w₁ s ≠ (.value a, w₂, s₂)) :
    ∃ w₁, (next (.ok (s.get now key))).run faults now w₁ s = (.value a, w', s') := by
  simp only [Access.run] at hr
  split at hr
  · exact ⟨_, hr⟩
  · exact absurd hr (hfail _ _ _ _)
  · cases hr

theorem run_get_of_pass {α : Type} {faults : Faults σ} {key : Key} {w : σ}
    (hp : (faults w (.get key)).1 = .pass) (next : Except StoreError (Option Octets) → Access α) :
    (Access.get key next).run faults now w s =
      (next (.ok (s.get now key))).run faults now (faults w (.get key)).2 s := by
  simp only [Access.run]
  split <;> simp_all

theorem loadFragment_readOnly (m : Reassembler) (i : Identity) (h : Header) (index : UInt32) :
    (m.loadFragment i h index).ReadOnly := by
  refine Access.WritesOnly.bind (fun _ => trivial) fun r => ?_
  rcases r with _ | _ | _ <;> trivial

theorem loadFragment_ok (hi : h.identity = .ok i) {faults : Faults σ} {w w' : σ} {s' : Store}
    (hr : (m.loadFragment i h index).run faults now w s = (.value (.ok f), w', s')) :
    m.Stored now s h i index f := by
  simp only [loadFragment, Access.bind_eq, Access.read_bind] at hr
  obtain ⟨w₁, hr⟩ := run_get_ok hr (fun e w₁ w₂ s₂ h => by cases h)
  cases hg : s.get now (m.keys.persistenceKey i index) with
  | none => rw [hg] at hr; cases hr
  | some raw =>
    rw [hg] at hr
    simp only [Access.pure_eq, Access.run, Prod.mk.injEq, Outcome.value.injEq] at hr
    obtain ⟨hd, hf⟩ := (openRecord_ok_iff hi).1 hr.1
    exact ⟨⟨raw, hg, hd⟩, hf⟩

theorem loadFragment_of_stored (hi : h.identity = .ok i) {faults : Faults σ}
    (hp : ∀ w key, (faults w (.get key)).1 = .pass) (hs : m.Stored now s h i index f) (w : σ) :
    ∃ w', (m.loadFragment i h index).run faults now w s = (.value (.ok f), w', s) := by
  obtain ⟨raw, hg, hd⟩ := hs.record
  refine ⟨(faults w (.get (m.keys.persistenceKey i index))).2, ?_⟩
  simp only [loadFragment, Access.bind_eq, Access.read_bind]
  rw [run_get_of_pass (hp _ _), hg]
  simp only [Access.pure_eq, Access.run, (openRecord_ok_iff hi).2 ⟨hd, hs.fits⟩]

/-! ### The loop over the slots -/

/-- The payloads of some fragments, put together. -/
def joined (fs : List Fragment) : Octets := (fs.map (·.payload)).flatten

/-- Fragments that fill the slots of a header from an index on. -/
def Filled (m : Reassembler) (now : Instant) (s : Store) (h : Header) (i : Identity) (index : Nat)
    (fs : List Fragment) : Prop :=
  ∀ n f, fs[n]? = some f → m.Stored now s h i (UInt32.ofNat (index + n)) f

theorem filled_cons {index : Nat} {fs : List Fragment} :
    m.Filled now s h i index (f :: fs) ↔
      m.Stored now s h i (UInt32.ofNat index) f ∧ m.Filled now s h i (index + 1) fs := by
  constructor
  · intro hf
    refine ⟨hf 0 f rfl, fun n g hg => ?_⟩
    have := hf (n + 1) g (by simpa using hg)
    rwa [show index + (n + 1) = index + 1 + n by omega] at this
  · rintro ⟨h₀, hr⟩ n g hg
    cases n with
    | zero =>
      cases hg
      exact h₀
    | succ n =>
      have := hr n g (by simpa using hg)
      rwa [show index + 1 + n = index + (n + 1) by omega] at this

theorem reverse_cons_flatten (parts : List Octets) (fs : List Fragment) :
    (f.payload :: parts).reverse.flatten ++ joined fs =
      parts.reverse.flatten ++ joined (f :: fs) := by
  simp [joined]

theorem collectFrom_readOnly (m : Reassembler) (i : Identity) (h : Header) (remaining : Nat) :
    ∀ index held parts, (m.collectFrom i h remaining index held parts).ReadOnly := by
  induction remaining with
  | zero =>
    intro index held parts
    simp only [collectFrom]
    split <;> trivial
  | succ remaining ih =>
    intro index held parts
    refine Access.WritesOnly.bind (loadFragment_readOnly m i h _) fun r => ?_
    cases r with
    | error e => trivial
    | ok f =>
      simp only
      split
      · trivial
      · exact ih _ _ _

theorem collectFrom_ok (hi : h.identity = .ok i) {faults : Faults σ} {w' : σ} {s' : Store}
    {payload : Octets} {remaining : Nat} :
    ∀ {index held : Nat} {parts : List Octets} {w : σ},
      (m.collectFrom i h remaining index held parts).run faults now w s =
        (.value (.ok payload), w', s') →
      ∃ fs, fs.length = remaining ∧ m.Filled now s h i index fs ∧
        held + (joined fs).length = h.size.toNat ∧
        payload = parts.reverse.flatten ++ joined fs := by
  induction remaining with
  | zero =>
    intro index held parts w hr
    simp only [collectFrom] at hr
    split at hr
    · rename_i hheld
      cases hr
      exact ⟨[], rfl, fun n f hn => by simp at hn, by simpa [joined] using hheld, by simp [joined]⟩
    · cases hr
  | succ remaining ih =>
    intro index held parts w hr
    simp only [collectFrom, Access.bind_eq, Access.run_bind] at hr
    rcases hl : (m.loadFragment i h (UInt32.ofNat index)).run faults now w s
      with ⟨(_ | f) | text, w₁, s₁⟩
    · rw [hl] at hr; cases hr
    · rw [hl] at hr
      have hs₁ : s₁ = s := by
        have := congrArg (fun r => r.2.2) hl
        rwa [Access.ReadOnly.run_store (loadFragment_readOnly m i h _), eq_comm] at this
      subst hs₁
      simp only at hr
      split at hr
      · cases hr
      · obtain ⟨fs, hlen, hfs, hsize, hpay⟩ := ih hr
        refine ⟨f :: fs, by simp [hlen], filled_cons.2 ⟨loadFragment_ok hi hl, hfs⟩, ?_, ?_⟩
        · rw [← hsize]
          simp [joined, Nat.add_assoc]
        · rw [hpay, reverse_cons_flatten]
    · rw [hl] at hr; cases hr

theorem collectFrom_of_filled (hi : h.identity = .ok i) {faults : Faults σ}
    (hp : ∀ w key, (faults w (.get key)).1 = .pass) {fs : List Fragment} :
    ∀ (index held : Nat) (parts : List Octets) (w : σ), m.Filled now s h i index fs →
      held + (joined fs).length = h.size.toNat →
      ∃ w', (m.collectFrom i h fs.length index held parts).run faults now w s =
        (.value (.ok (parts.reverse.flatten ++ joined fs)), w', s) := by
  induction fs with
  | nil =>
    intro index held parts w _ hsize
    have hheld : held = h.size.toNat := by simpa [joined] using hsize
    exact ⟨w, by simp [collectFrom, hheld, joined, Access.run]⟩
  | cons f fs ih =>
    intro index held parts w hfs hsize
    obtain ⟨hf, hrest⟩ := filled_cons.1 hfs
    obtain ⟨w₁, hl⟩ := loadFragment_of_stored hi hp hf w
    have hsize' : held + f.payload.length + (joined fs).length = h.size.toNat := by
      rw [← hsize]
      simp [joined, Nat.add_assoc]
    obtain ⟨w', hr⟩ := ih (index + 1) (held + f.payload.length) (f.payload :: parts) w₁ hrest hsize'
    refine ⟨w', ?_⟩
    simp only [List.length_cons, collectFrom, Access.bind_eq, Access.run_bind, hl]
    rw [if_neg (by omega), hr, reverse_cons_flatten]

/-! ### Whole payloads -/

/-- A payload that the records of an operation make up: its header is sound, the records fill its
slots, and the payload they hold has the size and the checksum that the header announces. -/
structure Assembled (m : Reassembler) (now : Instant) (s : Store) (h : Header)
    (payload : Octets) : Prop where
  slots : ∃ i fs, h.identity = .ok i ∧ fs.length = h.cardinality.toNat ∧ m.Filled now s h i 0 fs ∧
    payload = joined fs
  size_eq : payload.length = h.size.toNat
  checksum_eq : (Checksum.compute payload).octets = h.checksum

/-- The counter of an operation has reached its cardinality. -/
def Counted (m : Reassembler) (now : Instant) (s : Store) (h : Header) : Prop :=
  ∃ i raw v, h.identity = .ok i ∧ s.get now (m.keys.countKey i) = some raw ∧
    Counter.decode raw = some v ∧
    (h.cardinality.toNat : Int) ≤ v

theorem compute_eq_iff (hi : h.identity = .ok i) (payload : Octets) :
    Checksum.compute payload = i.checksum ↔ (Checksum.compute payload).octets = h.checksum := by
  have hc := (Header.validate_ok_iff.1 (Header.identity_ok_iff.1 hi).1).1
  rw [← hc]
  exact ⟨congrArg _, Checksum.ext_octets⟩

theorem ingestedCount_readOnly (m : Reassembler) (i : Identity) : (m.ingestedCount i).ReadOnly := by
  refine Access.WritesOnly.bind (fun _ => trivial) fun r => ?_
  rcases r with _ | _ | raw
  · trivial
  · trivial
  · simp only
    split <;> trivial

theorem payloadOf_readOnly (m : Reassembler) (h : Header) : (m.payloadOf h).ReadOnly := by
  unfold payloadOf
  cases h.identity with
  | error d => trivial
  | ok i =>
    refine Access.WritesOnly.bind (ingestedCount_readOnly m i) fun r => ?_
    cases r with
    | error e => trivial
    | ok v =>
      simp only
      split
      · trivial
      split
      · trivial
      refine Access.WritesOnly.bind (collectFrom_readOnly m i h _ _ _ _) fun r => ?_
      cases r with
      | error e => trivial
      | ok payload =>
        simp only
        split <;> trivial

theorem reassemble_readOnly (m : Reassembler) (o : Operation) : (m.reassemble o).ReadOnly := by
  refine Access.WritesOnly.bind (payloadOf_readOnly m o.header) fun r => ?_
  cases r <;> trivial

theorem cachedHeader_readOnly (m : Reassembler) (i : Identity) : (m.cachedHeader i).ReadOnly := by
  refine Access.WritesOnly.bind (fun _ => trivial) fun r => ?_
  rcases r with _ | _ | raw
  · trivial
  · trivial
  · simp only
    split <;> trivial

theorem cacheHeader_writesOnly (m : Reassembler) (h : Header) :
    (m.cacheHeader h).WritesOnly fun key => ∃ i, key = m.keys.headerKey i := by
  unfold Reassembler.cacheHeader
  cases h.identity with
  | error d => trivial
  | ok i =>
    refine ⟨⟨i, rfl⟩, fun r => ?_⟩
    cases r <;> trivial

theorem ingestedCount_ok {faults : Faults σ} {w w' : σ} {s' : Store} {v : Int}
    (hr : (m.ingestedCount i).run faults now w s = (.value (.ok v), w', s')) :
    ∃ raw, s.get now (m.keys.countKey i) = some raw ∧ Counter.decode raw = some v := by
  simp only [ingestedCount, Access.bind_eq, Access.read_bind] at hr
  obtain ⟨w₁, hr⟩ := run_get_ok hr (fun e w₁ w₂ s₂ h => by cases h)
  cases hg : s.get now (m.keys.countKey i) with
  | none => rw [hg] at hr; cases hr
  | some raw =>
    rw [hg] at hr
    cases hv : Counter.decode raw with
    | none => simp only [hv] at hr; cases hr
    | some u =>
      simp only [hv] at hr
      cases hr
      exact ⟨raw, rfl, hv⟩

theorem ingestedCount_of_pass {faults : Faults σ}
    (hp : ∀ w key, (faults w (.get key)).1 = .pass) {raw : Octets} {v : Int}
    (hg : s.get now (m.keys.countKey i) = some raw) (hv : Counter.decode raw = some v) (w : σ) :
    ∃ w', (m.ingestedCount i).run faults now w s = (.value (.ok v), w', s) := by
  refine ⟨(faults w (.get (m.keys.countKey i))).2, ?_⟩
  simp only [ingestedCount, Access.bind_eq, Access.read_bind]
  rw [run_get_of_pass (hp _ _), hg]
  simp only [hv, Access.pure_eq, Access.run]

theorem payloadOf_ok {faults : Faults σ} {w w' : σ} {s' : Store} {payload : Octets}
    (hr : (m.payloadOf h).run faults now w s = (.value (.ok payload), w', s')) :
    m.Assembled now s h payload ∧ m.Counted now s h := by
  unfold payloadOf at hr
  cases hi : h.identity with
  | error d => rw [hi] at hr; cases hr
  | ok i =>
    simp only [hi, Access.bind_eq, Access.run_bind] at hr
    rcases hc : (m.ingestedCount i).run faults now w s with ⟨(_ | v) | text, w₁, s₁⟩
    · rw [hc] at hr; cases hr
    · have hs₁ : s₁ = s := by
        have := Access.ReadOnly.run_store (ingestedCount_readOnly m i) faults now w s
        rwa [hc] at this
      subst hs₁
      simp only [hc] at hr
      split at hr
      · cases hr
      split at hr
      · cases hr
      rename_i hle
      rw [Access.run_bind] at hr
      rcases hl : (m.collect i h).run faults now w₁ s₁ with ⟨(_ | whole) | text, w₂, s₂⟩
      · rw [hl] at hr; cases hr
      · simp only [hl] at hr
        split at hr
        · cases hr
        · rename_i hsum
          cases hr
          obtain ⟨fs, hlen, hfs, hsize, rfl⟩ := collectFrom_ok hi hl
          have hj : ([] : List Octets).reverse.flatten ++ joined fs = joined fs := rfl
          rw [hj] at hsum ⊢
          obtain ⟨raw, hg, hv⟩ := ingestedCount_ok hc
          refine ⟨⟨⟨i, fs, hi, hlen, hfs, rfl⟩, ?_, (compute_eq_iff hi _).1 (not_not.1 hsum)⟩,
            i, raw, v, hi, hg, hv, Int.not_lt.1 hle⟩
          rw [← hsize, Nat.zero_add]
      · rw [hl] at hr; cases hr
    · rw [hc] at hr; cases hr

theorem payloadOf_of_assembled {faults : Faults σ} (hp : ∀ w key, (faults w (.get key)).1 = .pass)
    {payload : Octets} (ha : m.Assembled now s h payload) (hc : m.Counted now s h) (w : σ) :
    ∃ w', (m.payloadOf h).run faults now w s = (.value (.ok payload), w', s) := by
  obtain ⟨i, fs, hi, hlen, hfs, rfl⟩ := ha.slots
  obtain ⟨i', raw, v, hi', hg, hv, hle⟩ := hc
  rw [hi] at hi'
  cases hi'
  obtain ⟨w₁, h₁⟩ := ingestedCount_of_pass hp hg hv w
  obtain ⟨w₂, h₂⟩ := collectFrom_of_filled hi hp 0 0 [] w₁ hfs
    (by rw [Nat.zero_add, ha.size_eq])
  have hcollect : (m.collect i h).run faults now w₁ s = (.value (.ok (joined fs)), w₂, s) := by
    rw [collect, ← hlen, h₂]
    rfl
  refine ⟨w₂, ?_⟩
  simp only [payloadOf, hi, Access.bind_eq, Access.run_bind, h₁]
  rw [if_neg (by have : Counter.highest = 9223372036854775807 := rfl; omega), if_neg (by omega),
    Access.run_bind, hcollect]
  simp only [(compute_eq_iff hi _).2 ha.checksum_eq, ne_eq, not_true_eq_false, if_false,
    Access.pure_eq, Access.run]

/-! ### Whole operations -/

/-- **A reassembly attaches a payload exactly if it ends well, and leaves its operation alone
otherwise**, whatever its requests are answered. -/
theorem attaches_of_mayEnd {o o' : Operation} {r : Except ReassemblyError Unit}
    (h : (m.reassemble o).MayEnd (.value (r, o'))) :
    (r = .ok () ∧ ∃ payload, o' = { o with payload := some payload }) ∨
    ((∃ e, r = .error e) ∧ o' = o) := by
  obtain ⟨e | payload, -, hend⟩ := Access.MayEnd.of_bind h
  · cases hend.of_done
    exact .inr ⟨⟨e, rfl⟩, rfl⟩
  · cases hend.of_done
    exact .inl ⟨rfl, payload, rfl⟩

theorem reassemble_ok {o o' : Operation} {faults : Faults σ} {w w' : σ} {s' : Store}
    (hr : (m.reassemble o).run faults now w s = (.value (.ok (), o'), w', s')) :
    ∃ payload, m.Assembled now s o.header payload ∧ m.Counted now s o.header ∧
      o' = { o with payload := some payload } := by
  simp only [reassemble, Access.bind_eq, Access.run_bind] at hr
  rcases hp : (m.payloadOf o.header).run faults now w s with ⟨(_ | payload) | text, w₁, s₁⟩
  · rw [hp] at hr; cases hr
  · rw [hp] at hr
    cases hr
    obtain ⟨ha, hc⟩ := payloadOf_ok hp
    exact ⟨payload, ha, hc, rfl⟩
  · rw [hp] at hr; cases hr

theorem reassemble_of_assembled {o : Operation} {payload : Octets}
    (ha : m.Assembled now s o.header payload) (hc : m.Counted now s o.header) :
    (m.reassemble o).alone now s = (.value (.ok (), { o with payload := some payload }), s) := by
  have hpass : ∀ w key, (Faults.none w (.get key)).1 = .pass := fun _ _ => rfl
  obtain ⟨w, hr⟩ := payloadOf_of_assembled hpass ha hc ()
  have hp : (m.payloadOf o.header).alone now s = (.value (.ok payload), s) := by
    rw [Access.alone, hr]
  simp only [reassemble, Access.bind_eq, Access.alone_bind, hp, Access.pure_eq, Access.alone_done]

/-- **A reassembly is sound and atomic on every store, and complete where no read fails.** Only
records that make the payload up, and a counter that has reached the cardinality, give an
operation its payload. -/
theorem reassemble_sound_complete (m : Reassembler) (o : Operation) (faults : Faults σ)
    (now : Instant) (w : σ) (s : Store) :
    ((m.reassemble o).run faults now w s).2.2 = s ∧
    (∀ o' w' s', (m.reassemble o).run faults now w s = (.value (.ok (), o'), w', s') →
      ∃ payload, m.Assembled now s o.header payload ∧ m.Counted now s o.header ∧
        o' = { o with payload := some payload }) ∧
    (∀ e o' w' s', (m.reassemble o).run faults now w s = (.value (.error e, o'), w', s') → o' = o) ∧
    ((∀ w key, (faults w (.get key)).1 = .pass) →
      ∀ payload, m.Assembled now s o.header payload → m.Counted now s o.header →
        ∃ w', (m.reassemble o).run faults now w s =
          (.value (.ok (), { o with payload := some payload }), w', s)) := by
  refine ⟨(reassemble_readOnly m o).run_store faults now w s, fun o' w' s' hr =>
    reassemble_ok hr, ?_, ?_⟩
  · intro e o' w' s' hr
    simp only [reassemble, Access.bind_eq, Access.run_bind] at hr
    rcases hp : (m.payloadOf o.header).run faults now w s with ⟨(_ | payload) | text, w₁, s₁⟩
    · rw [hp] at hr; cases hr; rfl
    · rw [hp] at hr; cases hr
    · rw [hp] at hr; cases hr
  · intro hpass payload ha hc
    obtain ⟨w', hr⟩ := payloadOf_of_assembled hpass ha hc w
    exact ⟨w', by simp only [reassemble, Access.bind_eq, Access.run_bind, hr,
      Access.pure_eq, Access.run]⟩

/-- A store that holds the one fragment of a payload of one byte and counts it. -/
def octetStore : Store :=
  let k : Keyspace := ⟨"octet"⟩
  let i : Identity := { nonce := 5, checksum := Checksum.compute [7] }
  (({} : Store).insert (k.persistenceKey i 0)
    ⟨Wire.encode (Batch.slot (Batch.headerOf 5 1 [7]) [7] 0), none⟩).insert
    (k.countKey i) ⟨Counter.encode 1, none⟩

theorem octetStore_assembled :
    Assembled { keys := ⟨"octet"⟩ } 0 octetStore (Batch.headerOf 5 1 [7]) [7] := by
  refine ⟨⟨{ nonce := 5, checksum := Checksum.compute [7] },
    [Batch.slot (Batch.headerOf 5 1 [7]) [7] 0], by decide +kernel, rfl,
    filled_cons.2 ⟨⟨?_, ?_⟩, fun n f hf => by simp at hf⟩, rfl⟩, by decide +kernel, rfl⟩
  · exact ⟨Wire.encode (Batch.slot (Batch.headerOf 5 1 [7]) [7] 0), by decide +kernel,
      by decide +kernel⟩
  · exact ⟨⟨⟨Checksum.compute [7], Checksum.compute [7]⟩, by decide +kernel⟩, rfl,
      rfl, rfl, rfl, rfl⟩

theorem reassemble_octetStore :
    ∃ w', (reassemble { keys := ⟨"octet"⟩ } { header := Batch.headerOf 5 1 [7] }).run Faults.none
      0 () octetStore =
      (.value (.ok (), { header := Batch.headerOf 5 1 [7], payload := some [7] }), w',
        octetStore) := by
  have h := reassemble_sound_complete { keys := ⟨"octet"⟩ } { header := Batch.headerOf 5 1 [7] }
    Faults.none 0 ()
    octetStore
  exact h.2.2.2 (fun _ _ => rfl) [7] octetStore_assembled
    ⟨{ nonce := 5, checksum := Checksum.compute [7] }, Counter.encode 1, 1, by decide +kernel,
      by decide +kernel, by decide +kernel, by decide⟩

end FragmentRelay.Reassembler
