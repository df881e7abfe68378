import FragmentRelay.Proofs.Key.Separation
import FragmentRelay.Proofs.Reassembly.Soundness

/-!
# Gate: what the counter lets through

A reassembly reads the counter of its operation before any record. Without a counter, or with one
below the cardinality, it stops there, whatever the records are, and the operation stays as it was.
Whether the counter is below is read off the number of missing fragments, a difference of two words:
it fits its own word unless the counter is so far below zero that even adding the largest word
leaves it below the cardinality, and then the reassembly crashes.

* `missing`, `missingWord`: the number of missing fragments, as an integer and as the word that is
  computed. `missingWord_eq_iff`: the two agree exactly if the number is at most the largest word;
  `missingWord_neg`: if it is larger, the word is below zero.
* `reassemble_of_uncounted`, `reassemble_of_below`, `reassemble_of_overflow`: the three ways to stop
  at the counter.
* `requests_of_stopped`, `mem_requests_of_reached`: up to the counter nothing else is read, and
  behind it the slots are.
* `ready_of_reached`: behind the counter, no error says that fragments are still to be ingested.
* `gate_exact_where_fits`: the gate lets through exactly the counters that reach the cardinality, as
  long as the difference fits its word; `lowest_counter_crashes`: it does not always.
-/

namespace FragmentRelay.Reassembler

variable {m : Reassembler} {h : Header} {o : Operation} {i : Identity} {now : Instant} {s : Store}
  {raw : Octets} {v : Int}

/-! ### The number of missing fragments -/

/-- The number of fragments that a counter leaves to be ingested. -/
def missing (h : Header) (v : Int) : Int := h.cardinality.toNat - v

/-- The same number as a difference of signed 64-bit words. -/
def missingWord (h : Header) (v : Int) : Int64 := Int64.ofInt h.cardinality.toNat - Int64.ofInt v

theorem toInt_missingWord (h : Header) (h₁ : Counter.lowest ≤ v) (h₂ : v ≤ Counter.highest) :
    (missingWord h v).toInt = (missing h v).bmod 18446744073709551616 := by
  have hlow : Counter.lowest = -9223372036854775808 := rfl
  have hhigh : Counter.highest = 9223372036854775807 := rfl
  have hcard := h.cardinality.toNat_lt
  have hc : (Int64.ofInt h.cardinality.toNat).toInt = h.cardinality.toNat :=
    Int64.toInt_ofInt_of_le (by omega) (by omega)
  have hv : (Int64.ofInt v).toInt = v := Int64.toInt_ofInt_of_le (by omega) (by omega)
  rw [missingWord, Int64.toInt_sub, hc, hv]
  rfl

/-- **The word is the number exactly if the number is at most the largest word**; it never is below
the smallest. -/
theorem missingWord_eq_iff (h : Header) (h₁ : Counter.lowest ≤ v) (h₂ : v ≤ Counter.highest) :
    (missingWord h v).toInt = missing h v ↔ missing h v ≤ Counter.highest := by
  have hlow : Counter.lowest = -9223372036854775808 := rfl
  have hhigh : Counter.highest = 9223372036854775807 := rfl
  rw [toInt_missingWord h h₁ h₂, Int.bmod_def, missing]
  omega

theorem missingWord_neg (h₁ : Counter.lowest ≤ v) (hover : Counter.highest < missing h v) :
    (missingWord h v).toInt < 0 := by
  have hlow : Counter.lowest = -9223372036854775808 := rfl
  have hhigh : Counter.highest = 9223372036854775807 := rfl
  have hcard := h.cardinality.toNat_lt
  have h₂ : v ≤ Counter.highest := by
    rw [missing] at hover
    omega
  rw [toInt_missingWord h h₁ h₂, Int.bmod_def]
  rw [missing] at hover ⊢
  omega

/-! ### Up to the counter -/

theorem ingestedCount_alone (hg : s.get now (m.keys.countKey i) = some raw)
    (hv : Counter.decode raw = some v) : (m.ingestedCount i).alone now s = (.value (.ok v), s) := by
  simp only [ingestedCount, Access.bind_eq, Access.read_bind, Access.alone_get, hg,
    hv, Access.pure_eq, Access.alone_done]

theorem ingestedCount_requests (hg : s.get now (m.keys.countKey i) = some raw)
    (hv : Counter.decode raw = some v) :
    (m.ingestedCount i).requests now s = [.get (m.keys.countKey i)] := by
  simp only [ingestedCount, Access.bind_eq, Access.read_bind, Access.requests, hg,
    hv, Access.pure_eq]

/-- **Without a counter there is nothing to reassemble yet.** -/
theorem reassemble_of_uncounted (hi : o.header.identity = .ok i)
    (hg : s.get now (m.keys.countKey i) = none) :
    (m.reassemble o).alone now s =
      (.value (.error (.counterMissing i.nonce i.checksum), o), s) := by
  simp only [reassemble, payloadOf, hi, ingestedCount, Access.bind_eq, Access.read_bind,
    Access.alone_bind, Access.alone_get, hg]
  rfl

/-- A counter below the cardinality is reported as it stands, if the difference fits its word. -/
theorem reassemble_of_below (hi : o.header.identity = .ok i)
    (hg : s.get now (m.keys.countKey i) = some raw) (hv : Counter.decode raw = some v)
    (hfit : missing o.header v ≤ Counter.highest) (hlt : v < o.header.cardinality.toNat) :
    (m.reassemble o).alone now s =
      (.value (.error (.incomplete v o.header.cardinality), o), s) := by
  rw [missing] at hfit
  simp only [reassemble, payloadOf, hi, Access.bind_eq, Access.alone_bind,
    ingestedCount_alone hg hv]
  rw [if_neg (Int.not_lt.2 hfit), if_pos hlt]
  rfl

/-- **A counter below the cardinality is reported as it stands.** -/
theorem reassemble_of_few (hi : o.header.identity = .ok i)
    (hg : s.get now (m.keys.countKey i) = some raw) (hv : Counter.decode raw = some v) (h₀ : 0 ≤ v)
    (hlt : v < o.header.cardinality.toNat) :
    (m.reassemble o).alone now s =
      (.value (.error (.incomplete v o.header.cardinality), o), s) := by
  have hhigh : Counter.highest = 9223372036854775807 := rfl
  have hcard := o.header.cardinality.toNat_lt
  exact reassemble_of_below hi hg hv (by rw [missing]; omega) hlt

theorem reassemble_of_overflow (hi : o.header.identity = .ok i)
    (hg : s.get now (m.keys.countKey i) = some raw) (hv : Counter.decode raw = some v)
    (hover : Counter.highest < missing o.header v) :
    (m.reassemble o).alone now s = (.crashed overflowText, s) := by
  rw [missing] at hover
  simp only [reassemble, payloadOf, hi, Access.bind_eq, Access.alone_bind,
    ingestedCount_alone hg hv]
  rw [if_pos hover]
  rfl

theorem requests_of_stopped (hi : o.header.identity = .ok i)
    (hg : s.get now (m.keys.countKey i) = some raw) (hv : Counter.decode raw = some v)
    (hlt : v < o.header.cardinality.toNat) :
    (m.reassemble o).requests now s = [.get (m.keys.countKey i)] := by
  simp only [reassemble, payloadOf, hi, Access.bind_eq, Access.requests_bind, Access.alone_bind,
    ingestedCount_requests hg hv, ingestedCount_alone hg hv]
  split <;> rfl

/-! ### Behind the counter -/

theorem openRecord_ready {index : UInt32} {e : ReassemblyError}
    (he : openRecord i h index raw = .error e) : e.notReady = false := by
  unfold openRecord at he
  split at he
  · cases he; rfl
  split at he
  · cases he; rfl
  split at he
  · cases he; rfl
  split at he
  · cases he; rfl
  · cases he

theorem loadFragment_ready {index : UInt32} {e : ReassemblyError} {s' : Store}
    (hr : (m.loadFragment i h index).alone now s = (.value (.error e), s')) :
    e.notReady = false := by
  simp only [loadFragment, Access.bind_eq, Access.read_bind, Access.alone_get] at hr
  cases hg : s.get now (m.keys.persistenceKey i index) with
  | none => rw [hg] at hr; cases hr; rfl
  | some raw =>
    rw [hg] at hr
    simp only [Access.pure_eq, Access.alone_done, Prod.mk.injEq, Outcome.value.injEq] at hr
    exact openRecord_ready hr.1

theorem collectFrom_ready {remaining : Nat} {e : ReassemblyError} {s' : Store} :
    ∀ {index held : Nat} {parts : List Octets} {s : Store},
      (m.collectFrom i h remaining index held parts).alone now s = (.value (.error e), s') →
      e.notReady = false := by
  induction remaining with
  | zero =>
    intro index held parts s hr
    simp only [collectFrom] at hr
    split at hr
    · cases hr
    · cases hr; rfl
  | succ remaining ih =>
    intro index held parts s hr
    simp only [collectFrom, Access.bind_eq, Access.alone_bind] at hr
    rcases hl : (m.loadFragment i h (UInt32.ofNat index)).alone now s with ⟨(_ | f) | text, s₁⟩
    · rw [hl] at hr
      cases hr
      exact loadFragment_ready hl
    · simp only [hl] at hr
      split at hr
      · cases hr; rfl
      · exact ih hr
    · rw [hl] at hr; cases hr

/-- **Behind the counter, no error says that fragments are still to be ingested.** -/
theorem ready_of_reached (hi : o.header.identity = .ok i)
    (hg : s.get now (m.keys.countKey i) = some raw) (hv : Counter.decode raw = some v)
    (hle : (o.header.cardinality.toNat : Int) ≤ v) {e : ReassemblyError} {o' : Operation}
    {s' : Store} (hr : (m.reassemble o).alone now s = (.value (.error e, o'), s')) :
    e.notReady = false := by
  have hhigh : Counter.highest = 9223372036854775807 := rfl
  simp only [reassemble, payloadOf, hi, Access.bind_eq, Access.alone_bind,
    ingestedCount_alone hg hv] at hr
  rw [if_neg (by omega), if_neg (by omega), Access.alone_bind] at hr
  rcases hl : (m.collect i o.header).alone now s with ⟨(_ | payload) | text, s₁⟩
  · rw [hl] at hr
    cases hr
    exact collectFrom_ready hl
  · simp only [hl] at hr
    split at hr
    · rename_i hsplit
      split at hsplit
      · cases hsplit; cases hr; rfl
      · cases hsplit; cases hr
    · cases hr
  · rw [hl] at hr; cases hr

theorem mem_requests_collect (hpos : h.cardinality ≠ 0) :
    .get (m.keys.persistenceKey i 0) ∈ (m.collect i h).requests now s := by
  have hne : h.cardinality.toNat ≠ 0 := fun he => hpos (UInt32.toNat.inj he)
  obtain ⟨r, hr⟩ := Nat.exists_eq_succ_of_ne_zero hne
  rw [collect, hr, collectFrom, Access.bind_eq, Access.requests_bind]
  exact List.mem_append_left _ List.mem_cons_self

theorem mem_requests_of_reached (hi : o.header.identity = .ok i)
    (hg : s.get now (m.keys.countKey i) = some raw) (hv : Counter.decode raw = some v)
    (hle : (o.header.cardinality.toNat : Int) ≤ v) :
    .get (m.keys.persistenceKey i 0) ∈ (m.reassemble o).requests now s := by
  have hhigh : Counter.highest = 9223372036854775807 := rfl
  have hpos := (Header.validate_ok_iff.1 (Header.identity_ok_iff.1 hi).1).2
  simp only [reassemble, payloadOf, hi, Access.bind_eq, Access.requests_bind,
    ingestedCount_alone hg hv]
  rw [if_neg (by omega), if_neg (by omega), Access.requests_bind]
  exact List.mem_append_left
    _ (List.mem_append_right _ (List.mem_append_left _ (mem_requests_collect hpos)))

/-! ### The gate -/

/-- **The gate is exact wherever the number of missing fragments fits its word, and nowhere
else.** Otherwise the word is below zero, and the reassembly crashes after it has read the counter
alone. -/
theorem gate_exact_where_fits (hi : o.header.identity = .ok i)
    (hg : s.get now (m.keys.countKey i) = some raw) (hv : Counter.decode raw = some v) :
    ((missingWord o.header v).toInt = missing o.header v ↔ missing o.header v ≤ Counter.highest) ∧
    (missing o.header v ≤ Counter.highest →
      ((∃ x, .get (m.keys.persistenceKey i x) ∈ (m.reassemble o).requests now s) ↔
        (o.header.cardinality.toNat : Int) ≤ v) ∧
      ((m.reassemble o).alone now s = (.value (.error (.incomplete v o.header.cardinality), o), s) ↔
        v < o.header.cardinality.toNat)) ∧
    (Counter.highest < missing o.header v →
      (missingWord o.header v).toInt < 0 ∧
      (m.reassemble o).requests now s = [.get (m.keys.countKey i)] ∧
      (m.reassemble o).alone now s = (.crashed overflowText, s)) ∧
    ∀ e o' s', (m.reassemble o).alone now s = (.value (.error e, o'), s') → e.notReady = true →
      e = .incomplete v o.header.cardinality ∧
      e.message =
        s!"{v} of {o.header.cardinality.toNat} fragments ingested; {(missingWord o.header v).toInt} still missing" := by
  obtain ⟨h₁, h₂⟩ := Counter.bounds_of_decode hv
  have hhigh : Counter.highest = 9223372036854775807 := rfl
  have hword := missingWord_eq_iff o.header h₁ h₂
  refine ⟨hword, fun hfit => ⟨⟨?_, fun hle => ⟨0, mem_requests_of_reached hi hg hv hle⟩⟩, ?_,
    reassemble_of_below hi hg hv hfit⟩, fun hover => ⟨missingWord_neg h₁ hover, ?_,
    reassemble_of_overflow hi hg hv hover⟩, ?_⟩
  · -- A reassembly that stops has read the counter, and that is no slot.
    rintro ⟨x, hx⟩
    by_contra hlt
    rw [requests_of_stopped hi hg hv (Int.not_le.1 hlt), List.mem_singleton,
      Request.get.injEq] at hx
    exact m.keys.countKey_ne_persistenceKey i i x hx.symm
  · intro hr
    by_contra hle
    have := ready_of_reached hi hg hv (Int.not_lt.1 hle) hr
    cases this
  · rw [missing] at hover
    exact requests_of_stopped hi hg hv (by omega)
  · intro e o' s' hr hready
    have hlt : v < o.header.cardinality.toNat := by
      by_contra hle
      rw [ready_of_reached hi hg hv (Int.not_lt.1 hle) hr] at hready
      cases hready
    rcases le_or_gt (missing o.header v) Counter.highest with hfit | hover
    · rw [reassemble_of_below hi hg hv hfit hlt] at hr
      cases hr
      rw [hword.2 hfit]
      exact ⟨rfl, rfl⟩
    · rw [reassemble_of_overflow hi hg hv hover] at hr
      cases hr

/-! ### Both sides of the edge -/

/-- An operation with two fragments. -/
def twoSlots : Operation := { header := Batch.headerOf 5 2 [1, 2, 3] }

/-- A store that holds a counter of this operation and nothing else. -/
def countedStore (v : Int) : Store :=
  ({} : Store).insert
    ((⟨"relay"⟩ : Keyspace).countKey { nonce := 5, checksum := Checksum.compute [1, 2, 3] })
    ⟨Counter.encode v, none⟩

theorem twoSlots_identity :
    twoSlots.header.identity = .ok { nonce := 5, checksum := Checksum.compute [1, 2, 3] } :=
  Header.identity_ok_iff.2 ⟨Header.validate_ok_iff.2 ⟨rfl, by decide⟩, rfl, rfl⟩

theorem get_countedStore (now : Instant) (v : Int) :
    (countedStore v).get now
      ((⟨"relay"⟩ : Keyspace).countKey { nonce := 5, checksum := Checksum.compute [1, 2, 3] }) =
      some (Counter.encode v) :=
  Store.get_of_find?_some (Store.find?_insert_self _ _ _)

/-- The lowest counter that two fragments allow is still reported. -/
theorem twoSlots_incomplete :
    missing twoSlots.header (-9223372036854775805) = Counter.highest ∧
    (({ keys := ⟨"relay"⟩ } : Reassembler).reassemble twoSlots).alone 0
      (countedStore (-9223372036854775805)) =
      (.value (.error (.incomplete (-9223372036854775805) 2), twoSlots),
        countedStore (-9223372036854775805)) := by
  have hv : Counter.decode (Counter.encode (-9223372036854775805)) = some (-9223372036854775805) :=
    Counter.decode_encode (by decide) (by decide)
  have hgate :=
    gate_exact_where_fits (m := { keys := ⟨"relay"⟩ }) twoSlots_identity (get_countedStore 0 _) hv
  exact ⟨rfl, (hgate.2.1 (by decide)).2.2 (by decide)⟩

/-- The counter may lie far below the cardinality, and the reassembly crashes instead of saying
so. -/
theorem lowest_counter_crashes :
    twoSlots.header.identity = .ok { nonce := 5, checksum := Checksum.compute [1, 2, 3] } ∧
    Counter.decode (Counter.encode Counter.lowest) = some Counter.lowest ∧
    Counter.lowest < twoSlots.header.cardinality.toNat ∧
    (({ keys := ⟨"relay"⟩ } : Reassembler).reassemble twoSlots).alone 0
      (countedStore Counter.lowest) =
      (.crashed overflowText, countedStore Counter.lowest) := by
  have hv : Counter.decode (Counter.encode Counter.lowest) = some Counter.lowest :=
    Counter.decode_encode (by decide) (by decide)
  exact ⟨twoSlots_identity, hv, by decide,
    reassemble_of_overflow twoSlots_identity (get_countedStore 0 _) hv (by decide)⟩

end FragmentRelay.Reassembler
