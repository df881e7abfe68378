import FragmentRelay.Proofs.Ingest.Account
import FragmentRelay.Proofs.Reassembly.Soundness
import FragmentRelay.Proofs.Service.Demands
import FragmentRelay.Deployment.Basic

/-!
# Logbook: demands that are served and tallied

Demands are served one after the other at given times, under any failure rule, and each reply is
tallied as it comes. The tally is kept from the replies alone, so its totals are totals of replies,
whatever the store holds. A demand gets a reply if no request crashes it, the clock can show the
deadlines, and the counter of the operation is not so far below zero that the number of missing
fragments has no word.

* `Tally.ingestions`, `Tally.reassemblies`: the totals over all ends of an ingestion and of a
  reassembly.
* `Logbook.Counted`, `Service.counted_log`: the totals are those of the replies.
* `Service.exists_reply`: when a demand gets a reply.
* `Service.moves_record`: all that a demand does to the counters and to the total of new fragments.
* `Logbook.Of.ingest`, `Logbook.Of.reassemble`: the calls of a deployment are served and tallied so.
-/

namespace FragmentRelay

/-! ### Totals -/

namespace Tally

/-- The ingestions that were turned away, for all reasons together. -/
def rejected (t : Tally) : Nat :=
  t.rejectedMalformed + t.rejectedChecksum + t.rejectedEncode + t.rejectedStore + t.rejectedDecode

/-- The ends of ingestions: new fragments, known ones, and those that were turned away. -/
def ingestions (t : Tally) : Nat := t.ingested + t.duplicate + t.rejected

/-- The ends of reassemblies, with all outcomes together. -/
def reassemblies (t : Tally) : Nat := t.complete + t.incomplete + t.checksum + t.failed

theorem ingestions_addIngest (t : Tally) (r : Except IngestError Ingested) :
    (t.addIngest r).ingestions = t.ingestions + 1 := by
  rcases r with e | a
  · cases e <;> simp only [addIngest, ingestions, rejected] <;> omega
  · cases hd : a.duplicate <;>
      simp only [addIngest, hd, ingestions, rejected, if_true, if_false, Bool.false_eq_true] <;>
        omega

theorem reassemblies_addIngest (t : Tally) (r : Except IngestError Ingested) :
    (t.addIngest r).reassemblies = t.reassemblies ∧ (t.addIngest r).complete = t.complete := by
  rcases r with e | a
  · cases e <;> exact ⟨rfl, rfl⟩
  · cases hd : a.duplicate <;> simp [addIngest, hd, reassemblies]

theorem ingested_addIngest_error (t : Tally) (e : IngestError) :
    (t.addIngest (.error e)).ingested = t.ingested := by
  cases e <;> rfl

theorem ingested_addIngest_ok (t : Tally) (a : Ingested) :
    (t.addIngest (.ok a)).ingested = if a.duplicate then t.ingested else t.ingested + 1 := by
  cases hd : a.duplicate <;> simp [addIngest, hd]

theorem reassemblies_addReassembly {α : Type} (t : Tally) (r : Except ReassemblyError α) :
    (t.addReassembly r).reassemblies = t.reassemblies + 1 := by
  rcases r with e | a
  · cases e <;> simp only [addReassembly, ReassemblyError.notReady, reassemblies, if_true, if_false,
      Bool.false_eq_true] <;> omega
  · simp only [addReassembly, reassemblies]
    omega

theorem ingestions_addReassembly {α : Type} (t : Tally) (r : Except ReassemblyError α) :
    (t.addReassembly r).ingestions = t.ingestions ∧ (t.addReassembly r).ingested = t.ingested := by
  rcases r with e | a
  · cases e <;> exact ⟨rfl, rfl⟩
  · exact ⟨rfl, rfl⟩

theorem complete_addReassembly_error {α : Type} (t : Tally) (e : ReassemblyError) :
    (t.addReassembly (.error e : Except ReassemblyError α)).complete = t.complete := by
  cases e <;> rfl

end Tally

/-! ### Serving and tallying -/

namespace Demand

/-- Whether a fragment is to be ingested. -/
def isIngest : Demand → Bool
  | .ingest _ => true
  | _ => false

/-- Whether an operation is to be reassembled. -/
def isReassemble : Demand → Bool
  | .reassemble _ => true
  | _ => false

end Demand

namespace Reply

/-- Whether an ingestion has ended. -/
def isIngested : Reply → Bool
  | .ingested _ => true
  | _ => false

/-- Whether a reassembly has ended. -/
def isReassembled : Reply → Bool
  | .reassembled _ => true
  | _ => false

/-- Whether a reassembly has ended well. -/
def isComplete : Reply → Bool
  | .reassembled (.ok _, _) => true
  | _ => false

end Reply

/-- What a computation ended with, passed on. -/
def Outcome.map {α β : Type} (g : α → β) : Outcome α → Outcome β
  | .value a => .value (g a)
  | .crashed text => .crashed text

/-- Whether there is a value, and of what kind. -/
def Outcome.holds {α : Type} (p : α → Bool) : Outcome α → Bool
  | .value a => p a
  | .crashed _ => false

/-- Counts the end of a demand. A crash is not counted. -/
def Tally.addReply (t : Tally) : Outcome Reply → Tally
  | .value (.ingested r) => t.addIngest r
  | .value (.reassembled r) => t.addReassembly r.1
  | _ => t

/-- What is known of some demands that were served: the replies, the tally, the state of the failure
rule, and the store. -/
structure Logbook (σ : Type) where
  replies : List (Demand × Outcome Reply) := []
  tally : Tally := {}
  state : σ
  store : Store := {}

namespace Service

variable {σ : Type}

/-- Serves a demand at an instant under a failure rule, and counts its end. -/
def record (v : Service) (faults : Faults σ) (x : Logbook σ)
    (call : Instant × Demand) : Logbook σ :=
  let ended := (v.perform call.2).run faults call.1 x.state x.store
  { replies := x.replies ++ [(call.2, ended.1)]
    tally := x.tally.addReply ended.1
    state := ended.2.1
    store := ended.2.2 }

/-- Serves demands one after the other. -/
def log (v : Service) (faults : Faults σ) (calls : List (Instant × Demand))
    (x : Logbook σ) : Logbook σ :=
  calls.foldl (v.record faults) x

end Service

/-! ### What a demand replies -/

section Replies

variable {α β σ : Type} {faults : Faults σ} {now : Instant} {w : σ} {s : Store}

theorem Access.run_map (g : α → β) (a : Access α) :
    (g <$> a).run faults now w s = ((a.run faults now w s).1.map g, (a.run faults now w s).2) := by
  change (a.bind fun x => .done (g x)).run faults now w s = _
  rw [run_bind]
  rcases a.run faults now w s with ⟨x | text, w', s'⟩
  · rfl
  · rfl

theorem Outcome.map_eq_value {g : α → β} {o : Outcome α} {b : β} (h : o.map g = .value b) :
    ∃ a, o = .value a ∧ g a = b := by
  cases o with
  | value a =>
    cases h
    exact ⟨a, rfl, rfl⟩
  | crashed text => cases h

variable (v : Service)

theorem Service.run_ingest (f : Fragment) : (v.perform (.ingest f)).run faults now w s =
    (((v.ingestor.ingest f).run faults now w s).1.map .ingested,
      ((v.ingestor.ingest f).run faults now w s).2) :=
  Access.run_map _ _

theorem Service.run_reassemble (o : Operation) : (v.perform (.reassemble o)).run faults now w s =
    (((v.reassembler.reassemble o).run faults now w s).1.map .reassembled,
      ((v.reassembler.reassemble o).run faults now w s).2) :=
  Access.run_map _ _

theorem Service.kind_of_reply {v : Service} {d : Demand} {r : Reply}
    (h : ((v.perform d).run faults now w s).1 = .value r) :
    r.isIngested = d.isIngest ∧ r.isReassembled = d.isReassemble := by
  cases d <;>
  · rw [perform, Access.run_map] at h
    obtain ⟨a, -, rfl⟩ := Outcome.map_eq_value h
    exact ⟨rfl, rfl⟩

end Replies

/-! ### The totals are those of the replies -/

namespace Tally

theorem ingestions_addReply (t : Tally) (o : Outcome Reply) :
    (t.addReply o).ingestions = t.ingestions + if o.holds Reply.isIngested then 1 else 0 := by
  rcases o with (r | r | r | r | r) | text
  · exact t.ingestions_addIngest r
  · rfl
  · exact (t.ingestions_addReassembly r.1).1
  · rfl
  · rfl
  · rfl

theorem reassemblies_addReply (t : Tally) (o : Outcome Reply) :
    (t.addReply o).reassemblies = t.reassemblies + if o.holds Reply.isReassembled
      then 1 else 0 := by
  rcases o with (r | r | r | r | r) | text
  · exact (t.reassemblies_addIngest r).1
  · rfl
  · exact t.reassemblies_addReassembly r.1
  · rfl
  · rfl
  · rfl

theorem complete_addReply (t : Tally) (o : Outcome Reply) :
    (t.addReply o).complete = t.complete + if o.holds Reply.isComplete then 1 else 0 := by
  rcases o with (r | r | ⟨e | u, o'⟩ | r | r) | text
  · exact (t.reassemblies_addIngest r).2
  · rfl
  · exact t.complete_addReassembly_error e
  · rfl
  · rfl
  · rfl
  · rfl

end Tally

/-- The totals of a logbook are those of its replies. -/
structure Logbook.Counted {σ : Type} (x : Logbook σ) : Prop where
  ingestions_eq : x.tally.ingestions = x.replies.countP fun p => p.2.holds Reply.isIngested
  reassemblies_eq : x.tally.reassemblies = x.replies.countP fun p => p.2.holds Reply.isReassembled
  complete_eq : x.tally.complete = x.replies.countP fun p => p.2.holds Reply.isComplete
  attached : ∀ d r o', (d, .value (.reassembled (r, o'))) ∈ x.replies → ∃ o, d = .reassemble o ∧
    ((r = .ok () ∧ ∃ payload, o' = { o with payload := some payload }) ∨
      ((∃ e, r = .error e) ∧ o' = o))

namespace Service

variable {σ : Type} {v : Service} {faults : Faults σ} {x : Logbook σ}

theorem counted_record (h : x.Counted) (call : Instant × Demand) :
    (v.record faults x call).Counted where
  ingestions_eq := by
    rw [record, Tally.ingestions_addReply, h.ingestions_eq, List.countP_append,
      List.countP_singleton]
  reassemblies_eq := by
    rw [record, Tally.reassemblies_addReply, h.reassemblies_eq, List.countP_append,
      List.countP_singleton]
  complete_eq := by
    rw [record, Tally.complete_addReply, h.complete_eq, List.countP_append, List.countP_singleton]
  attached d r o' hmem := by
    rcases List.mem_append.1 hmem with hold | hnew
    · exact h.attached d r o' hold
    · obtain ⟨rfl, hreply⟩ := Prod.mk.inj (List.mem_singleton.1 hnew)
      have hkind := (kind_of_reply hreply.symm).2
      cases hd : call.2 with
      | reassemble o =>
        rw [hd, run_reassemble] at hreply
        obtain ⟨p, hp, he⟩ := Outcome.map_eq_value hreply.symm
        cases he
        exact ⟨o, rfl, Reassembler.attaches_of_mayEnd
          (hp ▸ Access.mayEnd_run faults call.1 _ x.state x.store)⟩
      | ingest | cacheHeader | ingestedCount | cachedHeader =>
        rw [hd] at hkind
        cases hkind

/-- **The totals are those of the replies**, whatever the store holds and whatever fails. -/
theorem counted_log (h : x.Counted) (calls : List (Instant × Demand)) :
    (v.log faults calls x).Counted := by
  induction calls generalizing x with
  | nil => exact h
  | cons call rest ih => exact ih (counted_record h call)

end Service

/-! ### Demands that get a reply -/

namespace Store

variable {s : Store} {now : Instant} {key : Key} {bytes : Octets}

theorem exists_of_get (h : s.get now key = some bytes) :
    ∃ e, s.find? key = some e ∧ e.bytes = bytes := by
  obtain ⟨e, he, hbytes⟩ := Option.map_eq_some_iff.1 h
  exact ⟨e, (Option.filter_eq_some_iff.1 he).1, hbytes⟩

/-- What an operation lacks is a number that a word holds, whatever its counter says. -/
def Countable (s : Store) (k : Keyspace) : Prop := ∀ i e v,
  s.find? (k.countKey i) = some e → Counter.decode e.bytes = some v →
  (maxCardinality : Int) - v ≤ Counter.highest

theorem countable_empty (k : Keyspace) : ({} : Store).Countable k := fun _ _ _ he => by cases he

end Store

namespace Ingestor

open Access

variable {g : Ingestor} {i : Identity} {f : Fragment} {now : Instant}

theorem toCount_sure (g : Ingestor) (i : Identity) (f : Fragment) (now : Instant) :
    (g.toCount i f).Sure now := by
  rw [toCount_eq_increment]
  intro r
  rcases r with e | v
  · exact ⟨fun span hspan => absurd hspan (Option.not_mem_none span), fun _ => trivial⟩
  · trivial

theorem toMark_sure (g : Ingestor) (i : Identity) (f : Fragment) (now : Instant) :
    (g.toMark i f).Sure now := by
  rw [toMark_eq_increment]
  intro r
  rcases r with e | deliveries
  · trivial
  · simp only
    split
    · intro r
      rcases r with e | raw
      · trivial
      · simp only
        split
        · trivial
        · exact toCount_sure g i f now
    · exact toCount_sure g i f now

theorem ingest_sure (hshown : ∀ span ∈ g.ttl, now + span.nanos < Instant.horizon) (f : Fragment) :
    (g.ingest f).Sure now := by
  by_cases hf : f.Genuine
  · obtain ⟨i, hi⟩ := hf.exists_belongsTo
    rw [ingest_eq_write hf hi]
    refine ⟨hshown, fun r => ?_⟩
    rcases r with e | u
    · trivial
    · simp only
      split
      · exact toMark_sure g i f now
      · intro r
        rcases r with e | v <;> trivial
  · obtain ⟨e, he⟩ := ingest_of_not_genuine g hf
    rw [he]
    trivial

end Ingestor

namespace Reassembler

open Access

variable {m : Reassembler} {i : Identity} {h : Header} {now : Instant}

theorem ingestedCount_sure (m : Reassembler) (i : Identity) (now : Instant) :
    (m.ingestedCount i).Sure now := by
  intro r
  rcases r with e | _ | raw
  · trivial
  · trivial
  · simp only [done_bind]
    split <;> trivial

theorem cachedHeader_sure (m : Reassembler) (i : Identity) (now : Instant) :
    (m.cachedHeader i).Sure now := by
  intro r
  rcases r with e | _ | raw
  · trivial
  · trivial
  · simp only [done_bind]
    split <;> trivial

theorem cacheHeader_sure (hshown : ∀ span ∈ m.ttl, now + span.nanos < Instant.horizon)
    (h : Header) : (m.cacheHeader h).Sure now := by
  unfold cacheHeader
  split
  · trivial
  · refine ⟨hshown, fun r => ?_⟩
    cases r <;> trivial

theorem collectFrom_sure (m : Reassembler) (i : Identity) (h : Header) (now : Instant)
    (remaining : Nat) :
    ∀ index held parts, (m.collectFrom i h remaining index held parts).Sure now := by
  induction remaining with
  | zero =>
    intro index held parts
    simp only [collectFrom]
    split <;> trivial
  | succ remaining ih =>
    intro index held parts
    have hload : (m.loadFragment i h (UInt32.ofNat index)).Sure now := by
      intro r
      rcases r with e | _ | raw <;> trivial
    refine Sure.bind hload fun r => ?_
    rcases r with e | f
    · trivial
    · simp only
      split
      · trivial
      · exact ih _ _ _

variable {σ : Type} {faults : Faults σ} {w : σ} {s : Store}

theorem exists_payloadOf (hfaults : faults.Lenient) (hs : s.Countable m.keys) (h : Header) :
    ∃ r, ((m.payloadOf h).run faults now w s).1 = .value r := by
  unfold payloadOf
  cases hi : h.identity with
  | error d => exact ⟨_, rfl⟩
  | ok i =>
    simp only [bind_eq, run_bind]
    obtain ⟨c, hc⟩ := (ingestedCount_sure m i now).exists_value hfaults w s
    have hkept := (ingestedCount_readOnly m i).run_store faults now w s
    rcases hrun : (m.ingestedCount i).run faults now w s with ⟨o, w', s'⟩
    rw [hrun] at hc hkept
    obtain rfl : o = _ := hc
    obtain rfl : s' = s := hkept
    rcases c with e | v
    · exact ⟨_, rfl⟩
    · obtain ⟨raw, hget, hread⟩ := ingestedCount_ok hrun
      obtain ⟨e, he, rfl⟩ := Store.exists_of_get hget
      have hlow := hs i e v he hread
      have hcard : (h.cardinality.toNat : Int) ≤ maxCardinality :=
        Int.ofNat_le.2 (Nat.le_pred_of_lt h.cardinality.toNat_lt)
      simp only [not_lt.2 (le_trans (Int.sub_le_sub_right hcard v) hlow), if_false]
      split
      · exact ⟨_, rfl⟩
      · refine Sure.exists_value (Sure.bind (collectFrom_sure m i h now _ _ _ _) fun r =>
          ?_) hfaults w' s'
        rcases r with e | payload
        · trivial
        · simp only
          split <;> trivial

end Reassembler

namespace Service

variable {σ : Type} {v : Service} {faults : Faults σ} {now : Instant} {w : σ} {s : Store}

/-- The clock can show the deadlines of what is written at an instant. -/
structure Shows (v : Service) (now : Instant) : Prop where
  record : ∀ span ∈ v.recordTtl, now + span.nanos < Instant.horizon
  header : ∀ span ∈ v.headerTtl, now + span.nanos < Instant.horizon

theorem shows_of_unbounded (hrecord : v.recordTtl = none) (hheader : v.headerTtl = none)
    (now : Instant) :
    v.Shows now where
  record span hspan := absurd (hrecord ▸ hspan) (Option.not_mem_none span)
  header span hspan := absurd (hheader ▸ hspan) (Option.not_mem_none span)

/-- **A demand gets a reply** where requests fail without effect only. -/
theorem exists_reply (hfaults : faults.Lenient) (hshown : v.Shows now)
    (hs : s.Countable v.keys) (d : Demand) :
    ∃ r, ((v.perform d).run faults now w s).1 = .value r := by
  have hof : ∀ {α : Type} {a : Access α} (g : α → Reply),
    (∃ x, (a.run faults now w s).1 = .value x) →
      ∃ r, ((g <$> a).run faults now w s).1 = .value r := by
    rintro α a g ⟨x, hx⟩
    exact ⟨g x, by rw [Access.run_map, hx]; rfl⟩
  cases d with
  | ingest f => exact hof _ ((Ingestor.ingest_sure hshown.record f).exists_value hfaults w s)
  | cacheHeader h =>
    exact hof _ ((Reassembler.cacheHeader_sure hshown.header h).exists_value hfaults w s)
  | reassemble o =>
    refine hof _ ?_
    obtain ⟨r, hr⟩ : ∃ r, ((v.reassembler.payloadOf o.header).run faults now w s).1 = .value r :=
      Reassembler.exists_payloadOf (m := v.reassembler) hfaults hs o.header
    simp only [Reassembler.reassemble, Access.bind_eq, Access.run_bind]
    rcases hrun : (v.reassembler.payloadOf o.header).run faults now w s with ⟨o', w', s'⟩
    rw [hrun] at hr
    obtain rfl : o' = _ := hr
    rcases r with e | payload
    · exact ⟨_, rfl⟩
    · exact ⟨_, rfl⟩
  | ingestedCount i =>
    exact hof _ ((Reassembler.ingestedCount_sure v.reassembler i now).exists_value hfaults w s)
  | cachedHeader i =>
    exact hof _ ((Reassembler.cachedHeader_sure v.reassembler i now).exists_value hfaults w s)

end Service

/-! ### What a demand does to the counters -/

namespace Tally

theorem ingested_addReply_other (t : Tally) {o : Outcome Reply}
    (h : o.holds Reply.isIngested = false) : (t.addReply o).ingested = t.ingested := by
  rcases o with (r | r | r | r | r) | text
  · cases h
  · rfl
  · exact (t.ingestions_addReassembly r.1).2
  · rfl
  · rfl
  · rfl

end Tally

namespace Service

variable {σ : Type} {v : Service} {faults : Faults σ}

theorem perform_readOnly (v : Service) {d : Demand} (hd : d.isIngest = false)
    (hne : ∀ h, d ≠ .cacheHeader h) : (v.perform d).ReadOnly := by
  cases d with
  | ingest f => cases hd
  | cacheHeader h => exact absurd rfl (hne h)
  | reassemble o =>
    exact Access.WritesOnly.bind (Reassembler.reassemble_readOnly _ o) fun _ => trivial
  | ingestedCount i =>
    exact Access.WritesOnly.bind (Reassembler.ingestedCount_readOnly _ i) fun _ => trivial
  | cachedHeader i =>
    exact Access.WritesOnly.bind (Reassembler.cachedHeader_readOnly _ i) fun _ => trivial

theorem perform_writesOnly (v : Service) {d : Demand} (hd : d.isIngest = false) :
    (v.perform d).WritesOnly fun key => ∃ i, key = v.keys.headerKey i := by
  by_cases hcache : ∃ h, d = .cacheHeader h
  · obtain ⟨h, rfl⟩ := hcache
    exact Access.WritesOnly.bind (Reassembler.cacheHeader_writesOnly v.reassembler h) fun _ =>
      trivial
  · rw [not_exists] at hcache
    exact (v.perform_readOnly hd hcache).mono fun _ => False.elim

/-- All that a demand does to the counters of operations and to the total of new fragments: either
both go up by one, the counter by an increment, or both stay as they are. -/
inductive Moves (k : Keyspace) (call : Instant × Demand) (x x' : Logbook σ) : Prop
  | new {f : Fragment} {i : Identity} {n : Int} {t : Store} (hd : call.2 = .ingest f)
      (hi : f.identity = .ok i)
    (hcount : x.store.increment call.1 (k.countKey i) = .ok (n, t))
    (hself : x'.store.find? (k.countKey i) = t.find? (k.countKey i))
    (hother : ∀ j, k.countKey j ≠ k.countKey i →
      x'.store.find? (k.countKey j) = x.store.find? (k.countKey j))
    (htotal : x'.tally.ingested = x.tally.ingested + 1) : Moves k call x x'
  | same (hkept : ∀ j, x'.store.find? (k.countKey j) = x.store.find? (k.countKey j))
    (htotal : x'.tally.ingested = x.tally.ingested) : Moves k call x x'

theorem moves_of_other (faults : Faults σ) (x : Logbook σ) {call : Instant × Demand}
    (hd : call.2.isIngest = false) : Moves v.keys call x (v.record faults x call) := by
  refine .same (fun j => ?_) (Tally.ingested_addReply_other _ ?_)
  · refine Access.find?_run (v.perform_writesOnly hd) ?_ faults call.1 x.state x.store
    rintro ⟨i, he⟩
    exact Keyspace.derive_ne_of_purpose (by decide) he
  · cases hr : ((v.perform call.2).run faults call.1 x.state x.store).1 with
    | value r => exact (kind_of_reply hr).1.trans hd
    | crashed text => rfl

theorem moves_of_ingest (faults : Faults σ) (x : Logbook σ) (now : Instant) (f : Fragment) :
    Moves v.keys (now, .ingest f) x (v.record faults x (now, .ingest f)) := by
  have hstore : (v.record faults x (now, .ingest f)).store =
      ((v.ingestor.ingest f).run faults now x.state x.store).2.2 := by rw [record, run_ingest]
  have htally : (v.record faults x (now, .ingest f)).tally =
      x.tally.addReply
        (((v.ingestor.ingest f).run faults now x.state x.store).1.map .ingested) := by
    rw [record, run_ingest]
  cases hid : f.identity with
  | error d =>
    have hnot : ¬ f.Genuine := fun hf => by
      obtain ⟨i, hi⟩ := hf.exists_belongsTo
      rw [hi.identity_eq] at hid
      cases hid
    obtain ⟨e, he⟩ := Ingestor.ingest_of_not_genuine v.ingestor hnot
    rw [he] at hstore htally
    exact .same (fun j => congrArg (Store.find? · _) hstore)
      ((congrArg Tally.ingested htally).trans (x.tally.ingested_addIngest_error e))
  | ok i =>
    have hi := Fragment.belongsTo_of_identity hid
    have hother : ∀ j, v.keys.countKey j ≠ v.keys.countKey i →
        (v.record faults x (now, .ingest f)).store.find? (v.keys.countKey j) =
          x.store.find? (v.keys.countKey j) := by
      intro j hne
      rw [hstore]
      refine Ingestor.find?_ingest_of_not_owned (fun _ => ?_) faults x.state
      rintro ⟨l, hl, he | he | he⟩
      · exact hne (he.trans (hl.countKey_eq hi _))
      · exact v.keys.countKey_ne_persistenceKey j l _ he
      · exact v.keys.countKey_ne_markerKey j l _ he
    have hsame : (v.record faults x (now, .ingest f)).store.find? (v.keys.countKey i) =
        x.store.find? (v.keys.countKey i) → ∀ j,
        (v.record faults x (now, .ingest f)).store.find? (v.keys.countKey j) =
          x.store.find? (v.keys.countKey j) := by
      intro hkept j
      by_cases he : v.keys.countKey j = v.keys.countKey i
      · rw [he, hkept]
      · exact hother j he
    have haccounts := Ingestor.accounts_ingest v.ingestor f now hi σ faults x.state x.store
    rw [← hstore] at haccounts
    generalize ((v.ingestor.ingest f).run faults now x.state x.store).1 = o at haccounts htally
    have htotal := congrArg Tally.ingested htally
    cases haccounts with
    | counted hnew hcount hkept =>
      refine .new rfl hid hcount hkept hother
        (htotal.trans ((x.tally.ingested_addIngest_ok _).trans ?_))
      rw [hnew]
      rfl
    | repeated hknown _ hkept =>
      refine .same (hsame hkept) (htotal.trans ((x.tally.ingested_addIngest_ok _).trans ?_))
      rw [hknown]
      rfl
    | refused hkept => exact .same (hsame hkept) (htotal.trans (x.tally.ingested_addIngest_error _))
    | crashed hkept => exact .same (hsame hkept) htotal

/-- **A demand moves a counter and the total of new fragments together**, or neither. -/
theorem moves_record (faults : Faults σ) (x : Logbook σ) (call : Instant × Demand) :
    Moves v.keys call x (v.record faults x call) := by
  obtain ⟨now, d⟩ := call
  cases d with
  | ingest f => exact moves_of_ingest faults x now f
  | cacheHeader | reassemble | ingestedCount | cachedHeader => exact moves_of_other faults x rfl

end Service

/-! ### Calls of a deployment -/

/-- A logbook has the tally, the outage and the store of a deployment. -/
structure Logbook.Of (d : Deployment) (x : Logbook Outage) : Prop where
  tally_eq : x.tally = d.tally
  state_eq : x.state = d.outage
  store_eq : x.store = d.store

namespace Logbook.Of

variable {v : Service} {d : Deployment} {x : Logbook Outage}

/-- An ingestion of a deployment is served and tallied as in a logbook. -/
theorem ingest (h : x.Of d) (hv : v.ingestor = d.ingestor) (f : Fragment) :
    (v.record Outage.rule x (d.now, .ingest f)).Of (d.ingest f).2 := by
  obtain ⟨htally, hstate, hstore⟩ := h
  rw [Service.record, Service.run_ingest, hv, htally, hstate, hstore]
  simp only [Deployment.ingest, Deployment.call]
  rcases (d.ingestor.ingest f).run Outage.rule d.now d.outage d.store with ⟨r | text, w, s⟩
  · exact ⟨rfl, rfl, rfl⟩
  · exact ⟨rfl, rfl, rfl⟩

/-- A reassembly of a deployment is served and tallied as in a logbook. -/
theorem reassemble (h : x.Of d) (hv : v.reassembler = d.reassembler) (o : Operation) :
    (v.record Outage.rule x (d.now, .reassemble o)).Of (d.reassemble o).2 := by
  obtain ⟨htally, hstate, hstore⟩ := h
  rw [Service.record, Service.run_reassemble, hv, htally, hstate, hstore]
  simp only [Deployment.reassemble, Deployment.call]
  rcases (d.reassembler.reassemble o).run Outage.rule d.now d.outage d.store with ⟨r | text, w, s⟩
  · exact ⟨rfl, rfl, rfl⟩
  · exact ⟨rfl, rfl, rfl⟩

end Logbook.Of

end FragmentRelay
