import FragmentRelay.Proofs.Batch.Cut
import FragmentRelay.Proofs.Ingest.Points
import FragmentRelay.Proofs.Store.Deadlines

/-!
# Account: an ingestion changes what its answer says

The answer of an ingestion comes out of a path on which five requests can fail, the counter and the
marker can hold anything, and a count can follow where the counter was lost. `Accounts` says what
the answer promises about the counter of the operation, and every way to the end keeps the promise:
the counter is written by one request only, and no answer but that of a new fragment follows once it
is carried out. What an answer promises depends on the entry under the counter alone, so requests
for other keys can come before.

* `Accounts`: what an answer says about the counter before and after.
* `accounts_ingest`: every ingestion keeps to it, whatever fails.
* `Store.stand_of_increment`: an increment that is carried out adds one to where the counter stands.
* `Accounts.get_ne_iff`: the live value changes exactly if a new fragment was counted.
* `ingest_changes_as_answered`: all of this for one ingestion on any store.
-/

namespace FragmentRelay

theorem Fragment.belongsTo_of_identity {f : Fragment} {i : Identity} (h : f.identity = .ok i) :
    f.BelongsTo i := by
  unfold identity at h
  split at h
  · cases h
  · rename_i whole hwhole
    cases h
    exact ⟨rfl, (ofRole?_ok_iff.1 hwhole).symm⟩

/-! ### Where a counter stands -/

namespace Store

variable {s s' t : Store} {now : Instant} {key : Key} {v : Int}

/-- The number at which a counter stands: zero where nothing is live, and none where something else
is. -/
def stand? (s : Store) (now : Instant) (key : Key) : Option Int :=
  match s.get now key with
  | none => some 0
  | some bytes => Counter.decode bytes

theorem stand?_of_decode (h : (s.get now key).bind Counter.decode = some v) :
    s.stand? now key = some v := by
  cases hg : s.get now key with
  | none => simp [hg] at h
  | some bytes => simpa [stand?, hg] using h

theorem get_of_find?_eq (h : t.find? key = s.find? key) : t.get now key = s.get now key := by
  rw [get, get, live?, live?, h]

theorem get_insert_self {bytes : Octets} {e : Entry} (h : s.live? now key = some e) :
    (s.insert key ⟨bytes, e.deadline⟩).get now key = some bytes := by
  have hlive : e.live now = true := (Option.filter_eq_some_iff.1 h).2
  have hsame : (⟨bytes, e.deadline⟩ : Entry).live now = true := hlive
  rw [get, live?, find?_insert_self, Option.filter_some_pos hsame]
  rfl

/-- **An increment that is carried out adds one to where the counter stands.** -/
theorem stand_of_increment (h : s.increment now key = .ok (v, s')) :
    s.stand? now key = some (v - 1) ∧ s'.get now key = some (Counter.encode v) ∧
      Counter.decode (Counter.encode v) = some v := by
  unfold increment at h
  split at h
  · rename_i hnone
    cases h
    have hget : s.get now key = none := by rw [get, hnone]; rfl
    refine ⟨by rw [stand?, hget]; rfl, get_of_find?_some (find?_insert_self _ _ _), ?_⟩
    exact Counter.decode_encode (by decide) (by decide)
  · rename_i e hlive
    split at h
    · cases h
    · rename_i u hu
      obtain ⟨hlow, -⟩ := Counter.bounds_of_decode hu
      split at h
      · rename_i hhigh
        cases h
        have hget : s.get now key = some e.bytes := by rw [get, hlive]; rfl
        refine ⟨by rw [stand?, hget, Int.add_sub_cancel]; exact hu, get_insert_self hlive, ?_⟩
        exact Counter.decode_encode (by omega) (by omega)
      · cases h

end Store

namespace Ingestor

open Store

variable {σ : Type} {g : Ingestor} {i : Identity} {f : Fragment} {now : Instant}
  {marker counter key : Key} {s s' t : Store} {o : Outcome (Except IngestError Ingested)}

/-! ### What an answer says about the counter -/

/-- What the end of an ingestion says about the counter of its operation, before and after: a new
fragment was counted by an increment, a known one reports the counter as it is, and otherwise the
counter is not said to have changed. -/
inductive Accounts (now : Instant) (counter : Key) (s t : Store) :
    Outcome (Except IngestError Ingested) → Prop
  | counted {a : Ingested} {s' : Store} (hnew : a.duplicate = false)
    (hcount : s.increment now counter = .ok (a.ingested, s'))
    (hkept : t.find? counter = s'.find? counter) :
    Accounts now counter s t (.value (.ok a))
  | repeated {a : Ingested} (hknown : a.duplicate = true)
    (hread : (s.get now counter).bind Counter.decode = some a.ingested)
    (hkept : t.find? counter = s.find? counter) :
    Accounts now counter s t (.value (.ok a))
  | refused {e : IngestError} (hkept : t.find? counter = s.find? counter) :
      Accounts now counter s t (.value (.error e))
  | crashed {text : String} (hkept : t.find? counter = s.find? counter) :
      Accounts now counter s t (.crashed text)

namespace Accounts

theorem of_find?_eq (h : Accounts now counter s' t o) (he : s'.find? counter = s.find? counter) :
    Accounts now counter s t o := by
  cases h with
  | counted hnew hcount hkept =>
    have hagree : AgreeOn (fun key => key = counter) s' s := by
      rintro key rfl
      exact he
    rcases (indistinct_agreeOn _ now).increment hagree rfl with ⟨e, hs, -⟩ | ⟨v, t₁, t₂, hs, ht, hR⟩
    · rw [hs] at hcount
      cases hcount
    · rw [hs] at hcount
      cases hcount
      exact .counted hnew ht (hkept.trans (hR counter rfl))
  | repeated hknown hread hkept =>
    rw [get_of_find?_eq he] at hread
    exact .repeated hknown hread (hkept.trans he)
  | refused hkept => exact .refused (hkept.trans he)
  | crashed hkept => exact .crashed (hkept.trans he)

theorem find?_eq_of_not_new (h : Accounts now counter s t o)
    (hnew : ¬ ∃ a : Ingested, o = .value (.ok a) ∧ a.duplicate = false) :
    t.find? counter = s.find? counter := by
  cases h with
  | counted hfalse => exact absurd ⟨_, rfl, hfalse⟩ hnew
  | repeated _ _ hkept => exact hkept
  | refused hkept => exact hkept
  | crashed hkept => exact hkept

theorem stand_of_new {a : Ingested} (h : Accounts now counter s t o) (ho : o = .value (.ok a))
    (hnew : a.duplicate = false) :
    s.stand? now counter = some (a.ingested - 1) ∧
    t.get now counter = some (Counter.encode a.ingested) ∧
      t.stand? now counter = some a.ingested := by
  subst ho
  cases h with
  | repeated hknown => exact absurd (hnew.symm.trans hknown) Bool.noConfusion
  | counted _ hcount hkept =>
    obtain ⟨hbefore, hafter, hread⟩ := stand_of_increment hcount
    have hget : t.get now counter = some (Counter.encode a.ingested) :=
      (get_of_find?_eq hkept).trans hafter
    exact ⟨hbefore, hget, by rw [stand?, hget]; exact hread⟩

theorem stand_of_known {a : Ingested} (h : Accounts now counter s t o) (ho : o = .value (.ok a))
    (hknown : a.duplicate = true) :
    s.stand? now counter = some a.ingested ∧ t.find? counter = s.find? counter := by
  subst ho
  cases h with
  | counted hnew => exact absurd (hnew.symm.trans hknown) Bool.noConfusion
  | repeated _ hread hkept => exact ⟨stand?_of_decode hread, hkept⟩

/-- **The live value of the counter changes exactly if a new fragment was counted.** -/
theorem get_ne_iff (h : Accounts now counter s t o) :
    t.get now counter ≠ s.get now counter ↔ ∃ a : Ingested, o = .value (.ok a) ∧
    a.duplicate = false := by
  constructor
  · intro hne
    by_contra hnew
    exact hne (get_of_find?_eq (h.find?_eq_of_not_new hnew))
  · rintro ⟨a, rfl, hnew⟩ hsame
    obtain ⟨hbefore, -, hafter⟩ := h.stand_of_new rfl hnew
    rw [stand?, hsame] at hafter
    rw [stand?, hafter] at hbefore
    have := Option.some.inj hbefore
    omega

end Accounts

/-! ### Every ingestion keeps to its answer -/

/-- Whatever fails, a computation that ends an ingestion keeps to its answer. -/
def Accountable (now : Instant) (counter : Key) (a : Access (Except IngestError Ingested)) : Prop :=
  ∀ (σ : Type) (faults : Faults σ) (w : σ) (s : Store),
    Accounts now counter s (a.run faults now w s).2.2 (a.run faults now w s).1

namespace Accountable

theorem error (e : IngestError) :
    Accountable now counter (.done (.error e)) := fun _ _ _ _ => .refused rfl

/-- A write under another key can come before. -/
theorem set {bytes : Octets} {ttl : Option Span}
    {next : Except StoreError Unit → Access (Except IngestError Ingested)} (hne : key ≠ counter)
    (h : ∀ r, Accountable now counter (next r)) :
    Accountable now counter (.set key bytes ttl next) := by
  intro σ faults w s
  simp only [Access.run]
  split
  · split
    · rename_i hs
      exact (h _ σ faults _ _).of_find?_eq (find?_of_set hs hne.symm)
    · exact .crashed rfl
  · exact h _ σ faults _ _
  · exact .crashed rfl

/-- An increment of another key can come before. -/
theorem increment {next : Except StoreError Int → Access (Except IngestError Ingested)}
    (hne : key ≠ counter) (h : ∀ r, Accountable now counter (next r)) :
    Accountable now counter (.increment key next) := by
  intro σ faults w s
  simp only [Access.run]
  split
  · split
    · rename_i hi
      exact (h _ σ faults _ _).of_find?_eq (find?_of_increment hi hne.symm)
    · exact h _ σ faults _ _
  · exact h _ σ faults _ _
  · exact .crashed rfl

/-- An increment of the counter itself answers with its number, or goes on to fail. -/
theorem count {next : Except StoreError Int → Access (Except IngestError Ingested)}
    (hok : ∀ v, next (.ok v) = .done (answer f (.ok (v, false))))
    (h : ∀ e, Accountable now counter (next (.error e))) :
    Accountable now counter (.increment counter next) := by
  intro σ faults w s
  simp only [Access.run]
  split
  · split
    · rename_i hi
      rw [hok]
      exact .counted rfl hi rfl
    · exact h _ σ faults _ _
  · exact h _ σ faults _ _
  · exact .crashed rfl

end Accountable

section Stages

variable (g : Ingestor) (i : Identity) (f : Fragment) (now : Instant)

theorem accounts_release (e : StoreError) :
    Accountable now (g.keys.countKey i) (g.toRelease i f e) :=
  .set (g.keys.countKey_ne_markerKey i i f.index).symm fun _ => .error _

theorem accounts_count : Accountable now (g.keys.countKey i) (g.toCount i f) := by
  rw [toCount_eq_increment]
  exact .count (fun _ => rfl) fun e => accounts_release g i f now e

theorem accounts_tally : Accountable now (g.keys.countKey i) (g.toTally i f) :=
  .count (fun _ => rfl) fun _ => .error _

theorem accounts_look : Accountable now (g.keys.countKey i) (g.toLook i f) := by
  intro σ faults w s
  simp only [toLook, Access.run]
  split
  · cases hv : (s.get now (g.keys.countKey i)).bind Counter.decode with
    | none => exact accounts_count g i f now σ faults _ s
    | some v => exact .repeated rfl hv rfl
  · exact .refused rfl
  · exact .crashed rfl

theorem accounts_mark : Accountable now (g.keys.countKey i) (g.toMark i f) := by
  rw [toMark_eq_increment]
  refine .increment (g.keys.countKey_ne_markerKey i i f.index).symm fun r => ?_
  rcases r with e | deliveries
  · exact .error _
  · simp only
    split
    · exact accounts_look g i f now
    · exact accounts_count g i f now

/-- **Every ingestion keeps to its answer, whatever fails.** -/
theorem accounts_ingest {i : Identity} (hi : f.BelongsTo i) :
    Accountable now (g.keys.countKey i) (g.ingest f) := by
  by_cases hf : f.Genuine
  · rw [ingest_eq_write hf hi]
    refine .set (g.keys.countKey_ne_persistenceKey i i f.index).symm fun r => ?_
    rcases r with e | u
    · exact .error _
    · simp only
      split
      · exact accounts_mark g i f now
      · exact accounts_tally g i f now
  · obtain ⟨e, he⟩ := ingest_of_not_genuine g hf
    rw [he]
    exact .error e

end Stages

/-! ### What an ingestion answers -/

section Answers

variable {faults : Faults σ} {w w' : σ}

theorem rest_eq_bind (g : Ingestor) (i : Identity) (f : Fragment) :
    (if g.dedupe then g.toMark i f else g.toTally i f) =
      (if g.dedupe then countOnce (g.keys.markerKey i f.index) (g.keys.countKey i)
        else countAlways (g.keys.countKey i)).bind fun c => .done (answer f c) := by
  by_cases hdedupe : g.dedupe
  · simp only [hdedupe, if_true, toMark]
  · simp only [hdedupe, if_false, Bool.false_eq_true, toTally, countAlways, Access.bind_eq,
      Access.count_bind, Access.bind, Access.increment.injEq, true_and]
    funext c
    rcases c with e | v <;> rfl

theorem exists_answer (hf : f.Genuine) (hi : f.BelongsTo i) {r : Except IngestError Ingested}
    (h : (g.ingest f).run faults now w s = (.value r, w', s')) : ∃ c, r = answer f c := by
  rw [ingest_eq_write hf hi] at h
  simp only [Access.run] at h
  split at h
  · split at h
    · simp only [rest_eq_bind, Access.run_bind] at h
      split at h
      · cases h
        exact ⟨_, rfl⟩
      · cases h
    · cases h
  · cases h
    exact ⟨.error _, rfl⟩
  · cases h

theorem run_of_record_failed (hf : f.Genuine) (hi : f.BelongsTo i)
    (hfail : (faults w (.set (g.keys.persistenceKey i f.index))).1 ≠ .pass ∨
      s.set now (g.keys.persistenceKey i f.index) (Wire.encode f) g.ttl = none) :
    ((∃ e, ((g.ingest f).run faults now w s).1 = .value (.error (.store e))) ∨
      ∃ text, ((g.ingest f).run faults now w s).1 = .crashed text) ∧
      ((g.ingest f).run faults now w s).2.2 = s := by
  rw [ingest_eq_write hf hi]
  rcases hv : faults w (.set (g.keys.persistenceKey i f.index)) with ⟨_ | e | text, w₁⟩
  · rw [hv] at hfail
    have hset := hfail.resolve_left fun h => h rfl
    simp only [Access.run, hv, hset]
    exact ⟨.inr ⟨_, rfl⟩, trivial⟩
  · simp only [Access.run, hv]
    exact ⟨.inl ⟨e, rfl⟩, trivial⟩
  · simp only [Access.run, hv]
    exact ⟨.inr ⟨_, rfl⟩, trivial⟩

/-- Only a store can turn a genuine fragment away, so whoever is turned away otherwise has changed
nothing. -/
theorem unchanged_of_rejected {e : IngestError}
    (h : ((g.ingest f).run faults now w s).1 = .value (.error e)) (he : ∀ x, e ≠ .store x) :
    ((g.ingest f).run faults now w s).2.2 = s := by
  by_cases hf : f.Genuine
  · obtain ⟨i, hi⟩ := hf.exists_belongsTo
    rcases hrun : (g.ingest f).run faults now w s with ⟨r, w', s'⟩
    rw [hrun] at h
    obtain rfl : r = _ := h
    obtain ⟨c | c, hc⟩ := exists_answer hf hi hrun
    · exact absurd (Except.error.inj hc) (he c)
    · cases hc
  · obtain ⟨e', he'⟩ := ingest_of_not_genuine g hf
    rw [he']
    rfl

end Answers

end Ingestor

/-- **An ingestion changes what its answer says**, on a store that holds anything and while
requests fail or crash in any pattern: the live value of the counter changes exactly if a new
fragment was counted, and then to the number in the answer. -/
theorem ingest_changes_as_answered (g : Ingestor) (f : Fragment) {σ : Type} (faults : Faults σ)
    (now : Instant) (w : σ) (s : Store) :
    let ended := (g.ingest f).run faults now w s
    (∀ e, ended.1 = .value (.error e) → (∀ x, e ≠ .store x) → ended.2.2 = s) ∧
    (∀ key, ¬ g.keys.Owns f key → ended.2.2.find? key = s.find? key) ∧
    ∀ i, f.identity = .ok i →
      ((faults w (.set (g.keys.persistenceKey i f.index))).1 ≠ .pass → ended.2.2 = s) ∧
      (ended.2.2.get now (g.keys.countKey i) ≠ s.get now (g.keys.countKey i) ↔
        ∃ a : Ingested, ended.1 = .value (.ok a) ∧ a.duplicate = false) ∧
      ((¬ ∃ a : Ingested, ended.1 = .value (.ok a) ∧ a.duplicate = false) →
        ended.2.2.find? (g.keys.countKey i) = s.find? (g.keys.countKey i)) ∧
      ∀ a : Ingested, ended.1 = .value (.ok a) →
        (a.duplicate = false → ∃ v, s.stand? now (g.keys.countKey i) = some v ∧ a.ingested = v + 1 ∧
          ended.2.2.get now (g.keys.countKey i) = some (Counter.encode (v + 1))) ∧
        (a.duplicate = true → s.stand? now (g.keys.countKey i) = some a.ingested) := by
  intro ended
  refine ⟨fun e => Ingestor.unchanged_of_rejected,
    fun key hkey => Ingestor.find?_ingest_of_not_owned (fun _ => hkey) _ _, fun i hid => ?_⟩
  have hi : f.BelongsTo i := Fragment.belongsTo_of_identity hid
  have haccounts := Ingestor.accounts_ingest g f now hi σ faults w s
  refine ⟨fun hfail => ?_, haccounts.get_ne_iff, haccounts.find?_eq_of_not_new, fun a ha =>
    ⟨fun hnew => ?_, fun hknown => ?_⟩⟩
  · by_cases hf : f.Genuine
    · exact (Ingestor.run_of_record_failed hf hi (.inl hfail)).2
    · obtain ⟨e, he⟩ := Ingestor.ingest_of_not_genuine g hf
      simp only [ended, he]
      rfl
  · obtain ⟨hbefore, hafter, -⟩ := haccounts.stand_of_new ha hnew
    refine ⟨_, hbefore, (Int.sub_add_cancel _ _).symm, ?_⟩
    rw [Int.sub_add_cancel]
    exact hafter
  · exact (haccounts.stand_of_known ha hknown).1

/-- The name of the first fragment of the small batch. -/
def smallFirstIdentity : Identity :=
  { nonce := 5, checksum := Checksum.compute [1, 2, 3], index := some 0 }

/-- A store in which the counter of the small batch has blanks and a sign and will vanish, and the
marker of its first fragment is below zero. -/
def oddStore : Store where
  entries := [
    ((⟨"relay"⟩ : Keyspace).countKey smallFirstIdentity, ⟨Octets.ofText " +41", some 9⟩),
    ((⟨"relay"⟩ : Keyspace).markerKey smallFirstIdentity 0, ⟨Octets.ofText "-7", none⟩)]

theorem oddStore_counted :
    let g : Ingestor := { keys := ⟨"relay"⟩ }
    let ended := (g.ingest Batch.smallFirst).run Faults.none 5 () oddStore
    ended.1 = .value (.ok ⟨0, 42, 2, false⟩) ∧
      ended.2.2.get 5 (g.keys.countKey smallFirstIdentity) = some (Counter.encode 42) := by
  intro g ended
  have hid : Batch.smallFirst.identity = .ok smallFirstIdentity := by decide +kernel
  have hend : ended.1 = .value (.ok ⟨0, 42, 2, false⟩) := by decide +kernel
  obtain ⟨-, -, -, hanswer⟩ :=
    (ingest_changes_as_answered g Batch.smallFirst Faults.none 5 () oddStore).2.2 _ hid
  obtain ⟨v, -, hv, hget⟩ := (hanswer _ hend).1 rfl
  have hnext : v + 1 = 42 := hv.symm
  rw [hnext] at hget
  exact ⟨hend, by simpa only [ended] using hget⟩

end FragmentRelay
