import FragmentRelay.Proofs.Batch.Cut
import FragmentRelay.Proofs.Reassembly.Gate

/-!
# First fault: the slot at which a reassembly stops

The slots of an operation are loaded in the order of their indices, and the payload grows by what
they hold. There are two faults that a slot can have: it cannot be loaded (`Unloadable`), or the
slots up to it hold more bytes than the header announces. The first slot with a fault decides, and
no later slot is looked at. Without a fault the payload can only be too short.

The store may hold anything, so may the header. At no point does the loop hold more bytes than the
header announces (`exists_loaded_of_reaches`).

* `openRecord_of_corrupt`, `loadFragment_of_unloadable`: what is said of a slot that cannot be
  loaded.
* `loopAfter`: the loop behind some slots; `attempt_loopAfter`, `alone_loopAfter_of_stored`: one
  slot more.
* `collect_first_fault`: the answer of the whole loop.
* `reassemble_of_error`: a whole operation that is counted.
* `Batch.Cut.collect_missing`: a batch of which the record at an index is the first that is missing.
-/

namespace FragmentRelay

namespace Reassembler

variable {m : Reassembler} {h : Header} {i : Identity} {index : UInt32} {f : Fragment}
  {fs : List Fragment} {now : Instant} {s : Store} {e : ReassemblyError}

/-! ### Slots that cannot be loaded -/

/-- A fragment names the slot of an operation as its own. -/
def Placed (h : Header) (index : UInt32) (f : Fragment) : Prop :=
  f.index = index ∧ f.nonce = h.nonce ∧ f.cardinality = h.cardinality ∧
  f.reassembledChecksum = h.checksum

/-- Why a fragment is not the one that a header has at an index. The first reason counts. -/
inductive Corrupt (h : Header) (index : UInt32) (f : Fragment) : String → Prop
  | unsound {d : Defect} (hv : f.validate = .error d) : Corrupt h index f d.message
  | foreign {sums : FragmentChecksums} (hv : f.validate = .ok sums) (hplace : ¬ Placed h index f) :
    Corrupt h index f (foreignReason f sums.reassembled)
  | damaged {sums : FragmentChecksums} (hv : f.validate = .ok sums) (hplace : Placed h index f)
    (hown : (Checksum.compute f.payload).octets ≠ f.checksum) : Corrupt h index f
      "payload does not match its checksum"

/-- Why no fragment can be loaded from a slot. -/
inductive Unloadable (m : Reassembler) (now : Instant) (s : Store) (h : Header) (i : Identity)
    (index : UInt32) :
    ReassemblyError → Prop
  | missing (hg : s.get now (m.keys.persistenceKey i index) = none) :
    Unloadable m now s h i index (.fragmentMissing index)
  | undecodable {raw : Octets} {fault : Wire.Fault}
      (hg : s.get now (m.keys.persistenceKey i index) = some raw)
    (hd : Wire.decode Fragment raw = .error fault) : Unloadable m now s h i index
      (.decode index fault)
  | corrupt {raw : Octets} {f : Fragment} {reason : String}
    (hg : s.get now (m.keys.persistenceKey i index) = some raw)
    (hd : Wire.decode Fragment raw = .ok f)
    (hc : Corrupt h index f reason) : Unloadable m now s h i index (.fragmentCorrupt index reason)

theorem exists_corrupt_or_fits (h : Header) (index : UInt32) (f : Fragment) :
    (∃ reason, Corrupt h index f reason) ∨ Fits h index f := by
  cases hv : f.validate with
  | error d => exact .inl ⟨_, .unsound hv⟩
  | ok sums =>
    by_cases hplace : Placed h index f
    · by_cases hown : (Checksum.compute f.payload).octets = f.checksum
      · obtain ⟨hindex, hnonce, hcard, hwhole⟩ := hplace
        exact .inr ⟨⟨sums, hv⟩, hindex, hnonce, hcard, hwhole, hown⟩
      · exact .inl ⟨_, .damaged hv hplace hown⟩
    · exact .inl ⟨_, .foreign hv hplace⟩

theorem exists_unloadable_or_stored (m : Reassembler) (now : Instant) (s : Store)
    (h : Header) (i : Identity) (index : UInt32) :
    (∃ e, m.Unloadable now s h i index e) ∨ ∃ f, m.Stored now s h i index f := by
  cases hg : s.get now (m.keys.persistenceKey i index) with
  | none => exact .inl ⟨_, .missing hg⟩
  | some raw =>
    cases hd : Wire.decode Fragment raw with
    | error fault => exact .inl ⟨_, .undecodable hg hd⟩
    | ok f =>
      rcases exists_corrupt_or_fits h index f with ⟨reason, hc⟩ | hfits
      · exact .inl ⟨_, .corrupt hg hd hc⟩
      · exact .inr ⟨f, ⟨raw, hg, hd⟩, hfits⟩

/-- **A record is refused for the first reason that it gives.** -/
theorem openRecord_of_corrupt (hi : h.identity = .ok i) {raw : Octets} {reason : String}
    (hd : Wire.decode Fragment raw = .ok f) (hc : Corrupt h index f reason) :
    openRecord i h index raw = .error (.fragmentCorrupt index reason) := by
  cases hc with
  | unsound hv => simp only [openRecord, hd, hv]
  | foreign hv hplace =>
    have hfalse := Bool.eq_false_iff.2 (mt (belongs_iff hi hv).1 hplace)
    simp only [openRecord, hd, hv, hfalse, if_true]
  | damaged hv hplace hown =>
    have htrue := (belongs_iff hi hv).2 hplace
    have hfalse := Bool.eq_false_iff.2 (mt (verify_own_iff hv).1 hown)
    simp only [openRecord, hd, hv, htrue, hfalse, if_true, Bool.true_eq_false, if_false]

theorem loadFragment_eq_openRecord {raw : Octets}
    (hg : s.get now (m.keys.persistenceKey i index) = some raw) :
    (m.loadFragment i h index).alone now s = (.value (openRecord i h index raw), s) := by
  simp only [loadFragment, Access.bind_eq, Access.read_bind, Access.alone_get, hg, Access.pure_eq,
    Access.alone_done]

theorem loadFragment_alone (hi : h.identity = .ok i) (hs : m.Stored now s h i index f) :
    (m.loadFragment i h index).alone now s = (.value (.ok f), s) := by
  obtain ⟨raw, hg, hd⟩ := hs.record
  rw [loadFragment_eq_openRecord hg, (openRecord_ok_iff hi).2 ⟨hd, hs.fits⟩]

/-- **A slot that cannot be loaded is reported as what it is.** -/
theorem loadFragment_of_unloadable (hi : h.identity = .ok i) (hu : m.Unloadable now s h i index e) :
    (m.loadFragment i h index).alone now s = (.value (.error e), s) := by
  cases hu with
  | missing hg =>
    simp only [loadFragment, Access.bind_eq, Access.read_bind, Access.alone_get, hg, Access.pure_eq,
      Access.alone_done]
  | undecodable hg hd => simp only [loadFragment_eq_openRecord hg, openRecord, hd]
  | corrupt hg hd hc => rw [loadFragment_eq_openRecord hg, openRecord_of_corrupt hi hd hc]

/-! ### Slots that are filled -/

theorem Stored.unique {g : Fragment} (hf : m.Stored now s h i index f)
    (hg : m.Stored now s h i index g) : f = g := by
  obtain ⟨raw, hget, hdecode⟩ := hf.record
  obtain ⟨raw', hget', hdecode'⟩ := hg.record
  obtain rfl : raw = raw' := Option.some.inj (hget.symm.trans hget')
  exact Except.ok.inj (hdecode.symm.trans hdecode')

theorem filled_concat : m.Filled now s h i 0 (fs ++ [f]) ↔
    m.Filled now s h i 0 fs ∧ m.Stored now s h i (UInt32.ofNat fs.length) f := by
  simp only [Filled, Nat.zero_add]
  constructor
  · intro hfill
    refine ⟨fun n g hn => hfill n g ?_, hfill _ f List.getElem?_concat_length⟩
    rwa [List.getElem?_append_left (List.getElem?_eq_some_iff.1 hn).1]
  · rintro ⟨hfill, hf⟩ n g hn
    rcases Nat.lt_trichotomy n fs.length with hlt | rfl | hgt
    · exact hfill n g (by rwa [List.getElem?_append_left hlt] at hn)
    · rw [List.getElem?_concat_length] at hn
      cases hn
      exact hf
    · have hbound := (List.getElem?_eq_some_iff.1 hn).1
      rw [List.length_append, List.length_singleton] at hbound
      omega

theorem Filled.unique {gs : List Fragment} (hf : m.Filled now s h i 0 fs)
    (hg : m.Filled now s h i 0 gs) (hlength : fs.length = gs.length) : fs = gs :=
  List.ext_getElem hlength fun n hn hn' =>
    (hf n _ (List.getElem?_eq_getElem hn)).unique (hg n _ (List.getElem?_eq_getElem hn'))

@[simp] theorem joined_concat (fs : List Fragment) (f : Fragment) :
    joined (fs ++ [f]) = joined fs ++ f.payload := by
  simp [joined]

/-! ### One slot more -/

/-- The loop over the slots behind some fragments that it has loaded. -/
def loopAfter (m : Reassembler) (i : Identity) (h : Header) (fs : List Fragment) :
    Access (Except ReassemblyError Octets) :=
  m.collectFrom i h (h.cardinality.toNat - fs.length) fs.length (joined fs).length
    (fs.map (·.payload)).reverse

theorem loopAfter_concat {r : Nat} (hr : h.cardinality.toNat - fs.length = r + 1) (f : Fragment) :
    m.loopAfter i h (fs ++ [f]) = m.collectFrom i h r (fs.length + 1)
    ((joined fs).length + f.payload.length)
      (f.payload :: (fs.map (·.payload)).reverse) := by
  have hrest : h.cardinality.toNat - (fs.length + 1) = r := by omega
  simp [loopAfter, hrest]

theorem loopAfter_full (hlength : fs.length = h.cardinality.toNat) :
    m.loopAfter i h fs = .done (if (joined fs).length = h.size.toNat then .ok (joined fs)
      else .error (.sizeMismatch h.size.toNat (joined fs).length)) := by
  rw [loopAfter, hlength, Nat.sub_self, collectFrom, List.reverse_reverse, ← joined]
  split <;> rfl

theorem alone_loopAfter_of_error (hlt : fs.length < h.cardinality.toNat)
    (hload : (m.loadFragment i h (UInt32.ofNat fs.length)).alone now s = (.value (.error e), s)) :
    (m.loopAfter i h fs).alone now s = (.value (.error e), s) := by
  obtain ⟨r, hr⟩ := Nat.exists_eq_succ_of_ne_zero (Nat.sub_ne_zero_of_lt hlt)
  simp only [loopAfter, hr, collectFrom, Access.bind_eq, Access.alone_bind, hload, Access.pure_eq,
    Access.alone_done]

theorem alone_loopAfter_of_stored (hi : h.identity = .ok i) (hlt : fs.length < h.cardinality.toNat)
    (hf : m.Stored now s h i (UInt32.ofNat fs.length) f) :
    (m.loopAfter i h fs).alone now s =
      if h.size.toNat < (joined (fs ++ [f])).length then
        (.value (.error (.sizeMismatch h.size.toNat (joined (fs ++ [f])).length)), s)
      else (m.loopAfter i h (fs ++ [f])).alone now s := by
  obtain ⟨r, hr⟩ := Nat.exists_eq_succ_of_ne_zero (Nat.sub_ne_zero_of_lt hlt)
  rw [loopAfter_concat hr, loopAfter, hr, joined_concat, List.length_append]
  simp only [collectFrom, Access.bind_eq, Access.alone_bind, loadFragment_alone hi hf]
  split <;> rfl

/-- The one request of a load ends it, with the fragment that is stored or with an error. -/
theorem attempt_loadFragment (hi : h.identity = .ok i) (m : Reassembler) (index : UInt32)
    (fault : Option StoreError) (now : Instant) (s : Store) :
    ∃ r, (∀ f, r = .ok f → m.Stored now s h i index f) ∧
      (m.loadFragment i h index).attempt fault now s = some (.done r, s) := by
  cases fault with
  | some e => exact ⟨.error (.store e), fun f hf => (by cases hf), rfl⟩
  | none =>
    simp only [loadFragment, Access.bind_eq, Access.read_bind, Access.attempt_none, Access.step]
    cases hg : s.get now (m.keys.persistenceKey i index) with
    | none => exact ⟨.error (.fragmentMissing index), fun f hf => (by cases hf), rfl⟩
    | some raw =>
      refine ⟨openRecord i h index raw, fun f hf => ?_, rfl⟩
      obtain ⟨hd, hfits⟩ := (openRecord_ok_iff hi).1 hf
      exact ⟨⟨raw, hg, hd⟩, hfits⟩

/-- **One request of the loop ends it with an error, or loads the next fragment**, which still has
room. -/
theorem attempt_loopAfter (hi : h.identity = .ok i) (hlt : fs.length < h.cardinality.toNat)
    {fault : Option StoreError} {a : Access (Except ReassemblyError Octets)} {s' : Store}
    (ha : (m.loopAfter i h fs).attempt fault now s = some (a, s')) :
    (∃ e, a = .done (.error e)) ∨ ∃ f, m.Stored now s h i (UInt32.ofNat fs.length) f ∧
      (joined (fs ++ [f])).length ≤ h.size.toNat ∧ a = m.loopAfter i h (fs ++ [f]) := by
  obtain ⟨n, hn⟩ := Nat.exists_eq_succ_of_ne_zero (Nat.sub_ne_zero_of_lt hlt)
  obtain ⟨r, hstored, hload⟩ := attempt_loadFragment hi m (UInt32.ofNat fs.length) fault now s
  simp only [loopAfter, hn, collectFrom, Access.bind_eq, Access.attempt_bind hload] at ha
  cases ha
  cases r with
  | error e => exact .inl ⟨e, rfl⟩
  | ok f =>
    by_cases hover : h.size.toNat < (joined fs).length + f.payload.length
    · refine .inl ⟨.sizeMismatch h.size.toNat ((joined fs).length + f.payload.length), ?_⟩
      simp only [Access.bind, if_pos hover, Access.pure_eq]
    · refine .inr ⟨f, hstored f rfl, ?_, ?_⟩
      · rw [joined_concat, List.length_append]
        exact Nat.le_of_not_lt hover
      · rw [loopAfter_concat hn]
        simp only [Access.bind, if_neg hover]

/-! ### All points of the loop -/

/-- Fragments of the first slots, each of them stored where and when its own request was made. -/
inductive Loaded (m : Reassembler) (h : Header) (i : Identity) :
    List (Instant × Store) → List Fragment → Prop
  | nil : Loaded m h i [] []
  | concat {seen : List (Instant × Store)} {fs : List Fragment} {now : Instant}
      {s : Store} {f : Fragment}
    (hseen : Loaded m h i seen fs) (hf : m.Stored now s h i (UInt32.ofNat fs.length) f) :
    Loaded m h i (seen ++ [(now, s)]) (fs ++ [f])

/-- **At every point the loop has ended with an error, or it stands behind the fragments that it has
loaded**, and they have room in what the header announces. -/
theorem exists_loaded_of_reaches (hi : h.identity = .ok i) {seen : List (Instant × Store)}
    {a : Access (Except ReassemblyError Octets)} (ha : (m.collect i h).Reaches seen a) :
    (∃ e, a = .done (.error e)) ∨ ∃ fs, m.Loaded h i seen fs ∧ fs.length ≤ h.cardinality.toNat ∧
      (joined fs).length ≤ h.size.toNat ∧ a = m.loopAfter i h fs := by
  induction ha with
  | start => exact .inr ⟨[], .nil, Nat.zero_le _, Nat.zero_le _, rfl⟩
  | request _ hc ih =>
    rcases ih with ⟨e, rfl⟩ | ⟨fs, hseen, hle, -, rfl⟩
    · cases Access.answered_of_attempt hc
    rcases Nat.lt_or_eq_of_le hle with hlt | heq
    · rcases attempt_loopAfter hi hlt hc with hend | ⟨f, hf, hsize, rfl⟩
      · exact .inl hend
      · refine .inr ⟨fs ++ [f], .concat hseen hf, ?_, hsize, rfl⟩
        rwa [List.length_append, List.length_singleton, Nat.succ_le_iff]
    · -- Behind the last slot there is no request left.
      rw [loopAfter_full heq] at hc
      cases Access.answered_of_attempt hc

/-! ### The answer of the loop -/

theorem alone_collect_of_filled (hi : h.identity = .ok i) (hle : fs.length ≤ h.cardinality.toNat)
    (hfill : m.Filled now s h i 0 fs) (hsize : (joined fs).length ≤ h.size.toNat) :
    (m.collect i h).alone now s = (m.loopAfter i h fs).alone now s := by
  induction fs using List.reverseRecOn with
  | nil => rfl
  | append_singleton fs f ih =>
    obtain ⟨hbefore, hf⟩ := filled_concat.1 hfill
    rw [List.length_append, List.length_singleton] at hle
    have hsize' : (joined fs).length ≤ h.size.toNat := by
      rw [joined_concat, List.length_append] at hsize
      exact Nat.le_of_add_right_le hsize
    rw [ih (Nat.le_of_succ_le hle) hbefore hsize', alone_loopAfter_of_stored hi hle hf,
      if_neg (Nat.not_lt.2 hsize)]

/-- **The first slot that cannot be loaded decides**, if the slots before it do not hold too
much. -/
theorem collect_of_error (hi : h.identity = .ok i) (hlt : fs.length < h.cardinality.toNat)
    (hfill : m.Filled now s h i 0 fs) (hsize : (joined fs).length ≤ h.size.toNat)
    (hload : (m.loadFragment i h (UInt32.ofNat fs.length)).alone now s = (.value (.error e), s)) :
    (m.collect i h).alone now s = (.value (.error e), s) := by
  rw [alone_collect_of_filled hi hlt.le hfill hsize, alone_loopAfter_of_error hlt hload]

/-- A fault of the slot at an index: it cannot be loaded, or the slots up to it are filled and hold
more bytes than the header announces. -/
inductive FaultAt (m : Reassembler) (now : Instant) (s : Store) (h : Header)
    (i : Identity) (n : Nat) :
    ReassemblyError → Prop
  | unloadable {e : ReassemblyError} (hu : m.Unloadable now s h i (UInt32.ofNat n) e) :
      FaultAt m now s h i n e
  | overfull {fs : List Fragment} (hlength : fs.length = n + 1) (hfill : m.Filled now s h i 0 fs)
    (hover : h.size.toNat < (joined fs).length) :
    FaultAt m now s h i n (.sizeMismatch h.size.toNat (joined fs).length)

theorem exists_filled {n : Nat} (hnone : ∀ k < n, ∀ e, ¬ m.FaultAt now s h i k e) :
    ∃ fs, fs.length = n ∧ m.Filled now s h i 0 fs ∧ (joined fs).length ≤ h.size.toNat := by
  induction n with
  | zero => exact ⟨[], rfl, fun n f hn => by simp at hn, Nat.zero_le _⟩
  | succ n ih =>
    obtain ⟨fs, hlength, hfill, -⟩ := ih fun k hk => hnone k (Nat.lt_succ_of_lt hk)
    rcases exists_unloadable_or_stored m now s h i (UInt32.ofNat n) with ⟨e, hu⟩ | ⟨f, hf⟩
    · exact absurd (.unloadable hu) (hnone n n.lt_succ_self e)
    · have hlength' : (fs ++ [f]).length = n + 1 := by
        rw [List.length_append, hlength, List.length_singleton]
      have hfill' : m.Filled now s h i 0 (fs ++ [f]) := filled_concat.2 ⟨hfill, hlength ▸ hf⟩
      refine ⟨fs ++ [f], hlength', hfill', Nat.le_of_not_lt fun hover => ?_⟩
      exact hnone n n.lt_succ_self _ (.overfull hlength' hfill' hover)

theorem collect_of_fault (hi : h.identity = .ok i) {n : Nat} (hlt : n < h.cardinality.toNat)
    (hfault : m.FaultAt now s h i n e) (hnone : ∀ k < n, ∀ e', ¬ m.FaultAt now s h i k e') :
    (m.collect i h).alone now s = (.value (.error e), s) := by
  obtain ⟨fs, rfl, hfill, hsize⟩ := exists_filled hnone
  cases hfault with
  | unloadable hu => exact collect_of_error hi hlt hfill hsize (loadFragment_of_unloadable hi hu)
  | @overfull gs hlength hfill' hover =>
    -- The slots up to this one are the slots before it, which are known, and one more.
    rcases List.eq_nil_or_concat' gs with rfl | ⟨gs, f, rfl⟩
    · cases hlength
    · rw [List.length_append, List.length_singleton] at hlength
      obtain ⟨hbefore, hf⟩ := filled_concat.1 hfill'
      obtain rfl := hbefore.unique hfill (Nat.succ_injective hlength)
      rw [alone_collect_of_filled hi hlt.le hfill hsize,
        alone_loopAfter_of_stored hi hlt hf, if_pos hover]

theorem collect_of_no_fault (hi : h.identity = .ok i)
    (hnone : ∀ k < h.cardinality.toNat, ∀ e, ¬ m.FaultAt now s h i k e) :
    ∃ fs, fs.length = h.cardinality.toNat ∧ m.Filled now s h i 0 fs ∧
      (((joined fs).length < h.size.toNat ∧
        (m.collect i h).alone now s =
          (.value (.error (.sizeMismatch h.size.toNat (joined fs).length)), s)) ∨
      ((joined fs).length = h.size.toNat ∧
        (m.collect i h).alone now s = (.value (.ok (joined fs)), s))) := by
  obtain ⟨fs, hlength, hfill, hsize⟩ := exists_filled hnone
  have hanswer := alone_collect_of_filled hi hlength.le hfill hsize
  rw [loopAfter_full hlength, Access.alone_done] at hanswer
  refine ⟨fs, hlength, hfill, ?_⟩
  rcases Nat.lt_or_eq_of_le hsize with hlt | heq
  · exact .inl ⟨hlt, by rw [hanswer, if_neg hlt.ne]⟩
  · exact .inr ⟨heq, by rw [hanswer, if_pos heq]⟩

/-- **The first fault is the answer, and the payload never outgrows its header.** The bound on the
bytes held so far stands at every point of the loop, whatever happens to the store between its
requests. -/
theorem collect_first_fault (m : Reassembler) (now : Instant) (s : Store)
    (hi : h.identity = .ok i) :
    (∀ n < h.cardinality.toNat, ∀ e, m.FaultAt now s h i n e →
      (∀ k < n, ∀ e', ¬ m.FaultAt now s h i k e') →
      (m.collect i h).alone now s = (.value (.error e), s)) ∧
    ((∀ k < h.cardinality.toNat, ∀ e, ¬ m.FaultAt now s h i k e) →
      ∃ fs, fs.length = h.cardinality.toNat ∧ m.Filled now s h i 0 fs ∧
        (((joined fs).length < h.size.toNat ∧
          (m.collect i h).alone now s =
            (.value (.error (.sizeMismatch h.size.toNat (joined fs).length)), s)) ∨
        ((joined fs).length = h.size.toNat ∧
          (m.collect i h).alone now s = (.value (.ok (joined fs)), s)))) ∧
    ∀ seen a, (m.collect i h).Reaches seen a → (∃ e, a = .done (.error e)) ∨
      ∃ fs parts, m.Loaded h i seen fs ∧ parts.reverse.flatten = joined fs ∧
        (joined fs).length ≤ h.size.toNat ∧
        a = m.collectFrom i h (h.cardinality.toNat - fs.length) fs.length
          (joined fs).length parts := by
  refine ⟨fun n hlt e hfault hnone => collect_of_fault hi hlt hfault hnone,
    collect_of_no_fault hi, ?_⟩
  intro seen a ha
  rcases exists_loaded_of_reaches hi ha with hend | ⟨fs, hseen, -, hsize, rfl⟩
  · exact .inl hend
  · exact .inr ⟨fs, _, hseen, by rw [List.reverse_reverse, joined], hsize, rfl⟩

/-- The header of the small batch, but announcing a single byte. -/
def shortHeader : Header := { Batch.smallBatch.header with size := 1 }

/-- A store with the first fragment of the small batch and no other. -/
def firstOnly : Store :=
  ({} : Store).insert (Keyspace.persistenceKey ⟨"relay"⟩ (Batch.smallBatch.identityOf [1, 2, 3]) 0)
    ⟨Wire.encode Batch.smallFirst, none⟩

/-- The first slot holds too much and the second one nothing. The first is reported. -/
theorem collect_shortHeader :
    let m : Reassembler := { keys := ⟨"relay"⟩ }
    let i := Batch.smallBatch.identityOf [1, 2, 3]
    shortHeader.identity = .ok i ∧ m.FaultAt 0 firstOnly shortHeader i 1 (.fragmentMissing 1) ∧
      (m.collect i shortHeader).alone 0 firstOnly =
        (.value (.error (.sizeMismatch 1 2)), firstOnly) := by
  intro m i
  have hid : shortHeader.identity = .ok i := by decide +kernel
  have hfits := Batch.smallBatch_cut.fits 0 Batch.smallFirst rfl
  have hrecord : firstOnly.get 0 (m.keys.persistenceKey i 0) =
      some (Wire.encode Batch.smallFirst) :=
    Store.get_of_find?_some (Store.find?_insert_self _ _ _)
  have hstored : m.Stored 0 firstOnly shortHeader i 0 Batch.smallFirst :=
    ⟨⟨_, hrecord, Batch.smallBatch_cut.decode_encode Batch.smallFirst_mem⟩, hfits.sound,
      hfits.index_eq, hfits.nonce_eq, hfits.cardinality_eq, hfits.whole_eq, hfits.own_eq⟩
  have hfill : m.Filled 0 firstOnly shortHeader i 0 [Batch.smallFirst] :=
    filled_cons.2 ⟨hstored, fun n f hn => by simp at hn⟩
  have hfault := FaultAt.overfull (n := 0) rfl hfill (by decide)
  exact ⟨hid, .unloadable (.missing (by decide +kernel)),
    (collect_first_fault m 0 firstOnly hid).1 0 (by decide) _ hfault fun k hk =>
      absurd hk k.not_lt_zero⟩

/-- **The error at which the slots of a counted operation stop is the answer**, and the operation
stays as it was. -/
theorem reassemble_of_error {o : Operation} (hi : o.header.identity = .ok i)
    (hc : m.Counted now s o.header)
    (hl : (m.collect i o.header).alone now s = (.value (.error e), s)) :
    (m.reassemble o).alone now s = (.value (.error e, o), s) := by
  obtain ⟨i', raw, v, hi', hg, hv, hle⟩ := hc
  rw [hi] at hi'
  cases hi'
  have hhigh : Counter.highest = 9223372036854775807 := rfl
  simp only [reassemble, payloadOf, hi, Access.bind_eq, Access.alone_bind,
    ingestedCount_alone hg hv]
  rw [if_neg (by omega), if_neg (by omega)]
  simp only [Access.alone_bind, hl, Access.pure_eq, Access.alone_done]

end Reassembler

open Reassembler in
/-- **The first index of a batch whose record is missing** is the one that is reported. -/
theorem Batch.Cut.collect_missing {b : Batch} {payload : Octets} {m : Reassembler}
    {now : Instant} {s : Store} {f : Fragment} (hcut : b.Cut payload) (hf : f ∈ b.fragments)
    (hbefore : ∀ g ∈ b.fragments, g.index < f.index →
      m.Stored now s b.header (b.identityOf payload) g.index g)
    (hmissing : s.get now (m.keys.persistenceKey (b.identityOf payload) f.index) = none) :
    (m.collect (b.identityOf payload) b.header).alone now s =
      (.value (.error (.fragmentMissing f.index)), s) := by
  have hlt := (List.getElem?_eq_some_iff.1 (hcut.getElem?_index hf)).1
  have hlen : (b.fragments.take f.index.toNat).length = f.index.toNat := by
    rw [List.length_take]
    omega
  have hfill :
      m.Filled now s b.header (b.identityOf payload) 0 (b.fragments.take f.index.toNat) := by
    intro n g hn
    have hbelow : n < f.index.toNat := hlen ▸ (List.getElem?_eq_some_iff.1 hn).1
    have hgn : b.fragments[n]? = some g := by rwa [List.getElem?_take_of_lt hbelow] at hn
    have hindex := (hcut.fits n g hgn).index_eq
    have hword := f.index.toNat_lt
    rw [Nat.zero_add, ← hindex]
    refine hbefore g (List.mem_of_getElem? hgn) ?_
    rw [hindex, UInt32.lt_iff_toNat_lt, UInt32.toNat_ofNat', Nat.mod_eq_of_lt (by omega)]
    exact hbelow
  have hsize : (joined (b.fragments.take f.index.toNat)).length ≤ b.header.size.toNat := by
    have hsplit : joined (b.fragments.take f.index.toNat) ++
        joined (b.fragments.drop f.index.toNat) = payload := by
      rw [← hcut.joined_eq, joined, joined, ← List.flatten_append, ← List.map_append,
        List.take_append_drop, joined]
    rw [hcut.size_eq, ← hsplit, List.length_append]
    exact Nat.le_add_right _ _
  refine collect_of_error hcut.identity_ok (by rwa [hlen, hcut.cardinality_eq]) hfill hsize ?_
  rw [hlen, UInt32.ofNat_toNat]
  exact loadFragment_of_unloadable hcut.identity_ok (.missing hmissing)

end FragmentRelay
