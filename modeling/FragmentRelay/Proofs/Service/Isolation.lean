import FragmentRelay.Proofs.Batch.Cut
import FragmentRelay.Proofs.Concurrency.Schedule
import FragmentRelay.Proofs.Service.Demands

/-!
# Isolation: operations do not interfere

Two operations share a service and its store. What is asked about the one does not depend on what is
asked about the other: each demand gets the same reply as if nothing had been asked about the other
operation, and the values and deadlines under its keys are the same. This holds where the demands
are served one after the other, and where they are served at the same time and take turns with their
requests.

* `Apart.run`: computations that touch different keys, in every schedule.
* `Service.serve_agree`: demands that are served one after the other.
* `operations_do_not_interfere`: both for two operations.
-/

namespace FragmentRelay

open Store

/-! ### Taking turns -/

namespace Concurrent

variable {α : Type} {K L : Key → Prop} {c d : Concurrent α} {mine : Nat → Bool}

/-- Two runs in which the same computations of mine stand at the same points and find the same under
their keys. The others touch other keys. -/
structure Apart (mine : Nat → Bool) (K L : Key → Prop) (c d : Concurrent α) : Prop where
  agree : AgreeOn K c.store d.store
  calls_eq : ∀ n, mine n = true → c.calls[n]? = d.calls[n]?
  own : ∀ n a, mine n = true → c.calls[n]? = some a → a.TouchesOnly K
  other : ∀ n a, mine n = false → c.calls[n]? = some a → a.TouchesOnly L

namespace Apart

theorem step_mine (h : Apart mine K L c d) {n : Nat} (hn : mine n = true) (now : Instant) :
    Apart mine K L (c.step now n) (d.step now n) := by
  cases ha : c.calls[n]? with
  | none => rwa [step_of_absent ha, step_of_absent (h.calls_eq n hn ▸ ha)]
  | some a =>
    have hd : d.calls[n]? = some a := h.calls_eq n hn ▸ ha
    rcases Access.step_agree (h.own n a hn ha) h.agree now with ⟨hs, ht⟩ |
      ⟨a', s', t', hs, ht, hagree⟩
    · rwa [step_of_ended ha hs, step_of_ended hd ht]
    · rw [step_of_some ha hs, step_of_some hd ht]
      refine ⟨hagree, fun m hm => ?_, fun m b hm hb => ?_, fun m b hm hb => ?_⟩
      · by_cases hmn : n = m
        · subst hmn
          rw [List.getElem?_set_self (List.getElem?_eq_some_iff.1 ha).1,
            List.getElem?_set_self (List.getElem?_eq_some_iff.1 hd).1]
        · rw [List.getElem?_set_ne hmn, List.getElem?_set_ne hmn]
          exact h.calls_eq m hm
      · rcases cases_of_getElem?_set hb with ⟨rfl, rfl⟩ | ⟨-, hb⟩
        · exact (h.own m a hm ha).of_step hs
        · exact h.own m b hm hb
      · rcases cases_of_getElem?_set hb with ⟨rfl, rfl⟩ | ⟨-, hb⟩
        · exact absurd (hn.symm.trans hm) Bool.noConfusion
        · exact h.other m b hm hb

theorem step_other (h : Apart mine K L c d) (hKL : ∀ key, K key → ¬ L key) {n : Nat}
    (hn : mine n = false) (now : Instant) : Apart mine K L (c.step now n) d := by
  cases ha : c.calls[n]? with
  | none => rwa [step_of_absent ha]
  | some a =>
    cases hs : a.step now c.store with
    | none => rwa [step_of_ended ha hs]
    | some p =>
      rw [step_of_some ha hs]
      have hne : ∀ m, mine m = true → n ≠ m := by
        rintro m hm rfl
        exact absurd (hm.symm.trans hn) Bool.noConfusion
      refine ⟨fun key hk => ?_, fun m hm => ?_, fun m b hm hb => ?_, fun m b hm hb => ?_⟩
      · exact (Access.step_elsewhere (h.other n a hn ha) hs (hKL key hk)).trans (h.agree key hk)
      · rw [List.getElem?_set_ne (hne m hm)]
        exact h.calls_eq m hm
      · rw [List.getElem?_set_ne (hne m hm)] at hb
        exact h.own m b hm hb
      · rcases cases_of_getElem?_set hb with ⟨rfl, rfl⟩ | ⟨-, hb⟩
        · exact (h.other m a hm ha).of_step hs
        · exact h.other m b hm hb

/-- **In every schedule my computations go as they do when the others get no turn.** -/
theorem run (h : Apart mine K L c d) (hKL : ∀ key, K key → ¬ L key)
    (schedule : List (Instant × Nat)) :
    Apart mine K L (c.run schedule) (d.run (schedule.filter fun turn => mine turn.2)) := by
  induction schedule generalizing c d with
  | nil => exact h
  | cons turn rest ih =>
    cases hturn : mine turn.2 with
    | true =>
      simp only [List.filter_cons, hturn, if_true]
      exact ih (h.step_mine hturn turn.1)
    | false =>
      simp only [List.filter_cons, hturn, Bool.false_eq_true, if_false]
      exact ih (h.step_other hKL hturn turn.1)

end Apart

end Concurrent

/-! ### One after the other -/

namespace Service

variable {v : Service} {K L : Key → Prop} {s t : Store} {mine : Demand → Bool}

/-- Serves demands at given times one after the other: the replies, and the store afterwards. -/
def serve (v : Service) : List (Instant × Demand) → Store → List (Demand × Outcome Reply) × Store
  | [], s => ([], s)
  | (now, d) :: rest, s =>
    let (reply, s) := (v.perform d).alone now s
    let (replies, s) := v.serve rest s
    ((d, reply) :: replies, s)

/-- Starts to serve demands at the same time. -/
def start (v : Service) (ds : List Demand) (s : Store) : Concurrent Reply := ⟨ds.map v.perform, s⟩

/-- **My demands are served as they are without the others.** -/
theorem serve_agree (mine : Demand → Bool) {calls : List (Instant × Demand)}
    (hKL : ∀ key, K key → ¬ L key)
    (hmine : ∀ call ∈ calls, mine call.2 = true → (v.perform call.2).TouchesOnly K)
    (hother : ∀ call ∈ calls, mine call.2 = false → (v.perform call.2).TouchesOnly L)
    (h : AgreeOn K s t) :
    (v.serve calls s).1.filter (fun reply => mine reply.1) =
      (v.serve (calls.filter fun call => mine call.2) t).1 ∧
      AgreeOn K (v.serve calls s).2 (v.serve (calls.filter fun call => mine call.2) t).2 := by
  induction calls generalizing s t with
  | nil => exact ⟨rfl, h⟩
  | cons call rest ih =>
    obtain ⟨now, d⟩ := call
    rw [List.forall_mem_cons] at hmine hother
    cases hd : mine d with
    | true =>
      obtain ⟨hreply, hagree⟩ := Access.alone_agree (hmine.1 hd) h now
      obtain ⟨hreplies, hrest⟩ := ih hmine.2 hother.2 hagree
      simp only [List.filter_cons, hd, if_true, serve]
      exact ⟨by rw [hreply, hreplies], hrest⟩
    | false =>
      have hagree : AgreeOn K ((v.perform d).alone now s).2 t := fun key hk =>
        (Access.find?_alone (hother.1 hd).writesOnly (hKL key hk) now s).trans (h key hk)
      obtain ⟨hreplies, hrest⟩ := ih hmine.2 hother.2 hagree
      simp only [List.filter_cons, hd, Bool.false_eq_true, if_false, serve]
      exact ⟨hreplies, hrest⟩

theorem apart_start (ds : List Demand) (s : Store)
    (hmine : ∀ d ∈ ds, mine d = true → (v.perform d).TouchesOnly K)
    (hother : ∀ d ∈ ds, mine d = false → (v.perform d).TouchesOnly L) :
    Concurrent.Apart (fun n => (ds[n]?).any mine) K L (v.start ds s) (v.start ds s) where
  agree _ _ := rfl
  calls_eq _ _ := rfl
  own n a hn ha := by
    obtain ⟨d, hd, rfl⟩ := Option.map_eq_some_iff.1 ((List.getElem?_map ..).symm.trans ha)
    rw [hd] at hn
    exact hmine d (List.mem_of_getElem? hd) hn
  other n a hn ha := by
    obtain ⟨d, hd, rfl⟩ := Option.map_eq_some_iff.1 ((List.getElem?_map ..).symm.trans ha)
    rw [hd] at hn
    exact hother d (List.mem_of_getElem? hd) hn

end Service

/-! ### Two operations -/

/-- **Operations do not interfere.** Leaving out all demands about the second operation changes
neither the replies about the first one nor the entries under its keys, whether demands are served
in a row or take turns with their requests. -/
theorem operations_do_not_interfere {v : Service} {i j : Identity} {calls : List (Instant × Demand)}
    {watched : Set UInt32} (hne : ¬ (i.nonce = j.nonce ∧ i.checksum = j.checksum))
    (hfor : ∀ call ∈ calls, call.2.isFor i = true ∨ call.2.isFor j = true)
    (hk : Set.InjOn Keyspace.digest
      (v.keys.textsOf i (watched ∪ Demand.indicesFor i (calls.map (·.2))) ∪
      v.keys.textsOf j (Demand.indicesFor j (calls.map (·.2)))))
    (s : Store) :
    let alone := v.serve (calls.filter fun call => call.2.isFor i) s
    (v.serve calls s).1.filter (fun reply => reply.1.isFor i) = alone.1 ∧
    (∀ key, v.keys.IsKeyOf i watched key → (v.serve calls s).2.find? key = alone.2.find? key) ∧
    ∀ schedule : List (Instant × Nat),
      let demands := calls.map (·.2)
      let mine (n : Nat) := (demands[n]?).any fun d : Demand => d.isFor i
      let both := (v.start demands s).run schedule
      let alone := (v.start demands s).run (schedule.filter fun turn => mine turn.2)
      (∀ n, mine n = true → both.calls[n]? = alone.calls[n]?) ∧
      ∀ key, v.keys.IsKeyOf i watched key → both.store.find? key = alone.store.find? key := by
  let ds := calls.map (·.2)
  let K := v.keys.IsKeyOf i (watched ∪ Demand.indicesFor i ds)
  let L := v.keys.IsKeyOf j (Demand.indicesFor j ds)
  have hKL : ∀ key, K key → ¬ L key := fun key h => h.not_other hk hne
  have hwatched : ∀ key, v.keys.IsKeyOf i watched key →
    K key := fun key h => h.mono Set.subset_union_left
  have hmine : ∀ d ∈ ds, d.isFor i = true → (v.perform d).TouchesOnly K := fun d hd hi =>
    (v.touchesOnly_perform hi).mono fun key h =>
      h.mono ((Demand.indices_subset hd hi).trans Set.subset_union_right)
  have hother : ∀ d ∈ ds, d.isFor i = false → (v.perform d).TouchesOnly L := by
    intro d hd hi
    obtain ⟨call, hcall, rfl⟩ := List.mem_map.1 hd
    have hj : call.2.isFor j = true := (hfor call hcall).resolve_left (by simp [hi])
    exact (v.touchesOnly_perform hj).mono fun key h => h.mono (Demand.indices_subset hd hj)
  have hmem : ∀ call ∈ calls, call.2 ∈ ds := fun call hcall => List.mem_map_of_mem hcall
  obtain ⟨hreplies, hstore⟩ := Service.serve_agree (fun d => d.isFor i) hKL
    (fun call hcall => hmine call.2 (hmem call hcall))
    (fun call hcall => hother call.2 (hmem call hcall))
    (fun _ _ => rfl : AgreeOn K s s)
  refine ⟨hreplies, fun key h => hstore key (hwatched key h), fun schedule => ?_⟩
  have hapart := (Service.apart_start ds s hmine hother).run hKL schedule
  exact ⟨hapart.calls_eq, fun key h => hapart.agree key (hwatched key h)⟩

/-! ### Two small operations -/

/-- A fragment of another operation than the small batch. -/
def otherFragment : Fragment := Batch.slot (Batch.headerOf 6 1 [9]) [9] 0

/-- The name of that operation. -/
def otherIdentity : Identity := { nonce := 6, checksum := Checksum.compute [9] }

/-- Demands about the small batch and about the other operation. -/
def mixedDemands : List (Instant × Demand) := [
  (0, .ingest Batch.smallFirst),
  (1, .ingest otherFragment),
  (2, .ingest Batch.smallSecond),
  (3, .cachedHeader otherIdentity),
  (4, .reassemble Batch.smallBatch.operation)]

theorem indices_of_small {x : UInt32} {watched : Set UInt32} (hw : watched ⊆ {0, 1})
    (hx : x ∈ watched ∪ Demand.indicesFor (Batch.smallBatch.identityOf [1, 2, 3])
      (mixedDemands.map (·.2))) :
    x = 0 ∨ x = 1 := by
  rcases hx with hx | ⟨d, hd, hi, hx⟩
  · exact hw hx
  · simp only [mixedDemands, List.map_cons, List.map_nil, List.mem_cons,
      List.not_mem_nil, or_false] at hd
    rcases hd with rfl | rfl | rfl | rfl | rfl
    · exact .inl hx
    · exact absurd hi (by decide +kernel)
    · exact .inr hx
    · exact absurd hi (by decide +kernel)
    · have hlt : x.toNat < 2 := UInt32.lt_iff_toNat_lt.1 hx
      rcases (by omega : x.toNat = 0 ∨ x.toNat = 1) with h | h
      · exact .inl (UInt32.toNat_inj.1 h)
      · exact .inr (UInt32.toNat_inj.1 h)

theorem indices_of_other {x : UInt32}
    (hx : x ∈ Demand.indicesFor otherIdentity (mixedDemands.map (·.2))) : x = 0 := by
  obtain ⟨d, hd, hi, hx⟩ := hx
  simp only [mixedDemands, List.map_cons, List.map_nil, List.mem_cons,
    List.not_mem_nil, or_false] at hd
  rcases hd with rfl | rfl | rfl | rfl | rfl
  · exact absurd hi (by decide +kernel)
  · exact hx
  · exact absurd hi (by decide +kernel)
  · exact absurd hx (Set.notMem_empty x)
  · exact absurd hi (by decide +kernel)

/-- The texts under the keys of both operations. -/
def mixedTexts : List (List Char) :=
  Batch.smallTexts ⟨"relay"⟩ ++
    [Keyspace.encoded ⟨"relay"⟩ 6 (Checksum.compute [9]) none,
      Keyspace.encoded ⟨"relay"⟩ 6 (Checksum.compute [9]) (some 0)]

theorem nodup_mixedTexts : (mixedTexts.map Keyspace.digest).Nodup := by
  decide +kernel

theorem mixedDemands_isolated :
    let v : Service := { keys := ⟨"relay"⟩ }
    let i := Batch.smallBatch.identityOf [1, 2, 3]
    (v.serve mixedDemands {}).1.filter (fun reply => reply.1.isFor i) =
        (v.serve [(0, .ingest Batch.smallFirst), (2, .ingest Batch.smallSecond),
          (4, .reassemble Batch.smallBatch.operation)] {}).1 ∧
      (v.serve mixedDemands {}).2.find? (v.keys.persistenceKey i 1) =
        (v.serve [(0, .ingest Batch.smallFirst), (2, .ingest Batch.smallSecond),
          (4, .reassemble Batch.smallBatch.operation)] {}).2.find? (v.keys.persistenceKey i 1) := by
  have hfilter :
      mixedDemands.filter (fun call => call.2.isFor (Batch.smallBatch.identityOf [1, 2, 3])) =
      [(0, .ingest Batch.smallFirst), (2, .ingest Batch.smallSecond),
        (4, .reassemble Batch.smallBatch.operation)] := by
    decide +kernel
  let texts := Keyspace.textsOf ⟨"relay"⟩ (Batch.smallBatch.identityOf [1, 2, 3])
      ({1} ∪ Demand.indicesFor (Batch.smallBatch.identityOf [1, 2, 3]) (mixedDemands.map (·.2))) ∪
    Keyspace.textsOf ⟨"relay"⟩ otherIdentity
      (Demand.indicesFor otherIdentity (mixedDemands.map (·.2)))
  have hmem : ∀ t ∈ texts, t ∈ mixedTexts := by
    rintro t ((rfl | ⟨x, hx, rfl⟩) | (rfl | ⟨x, hx, rfl⟩))
    · exact List.mem_append_left _ List.mem_cons_self
    · refine List.mem_append_left _ (List.mem_cons_of_mem _ ?_)
      rcases indices_of_small (by simp) hx with rfl | rfl
      · exact List.mem_cons_self
      · exact List.mem_cons_of_mem _ List.mem_cons_self
    · exact List.mem_append_right _ List.mem_cons_self
    · obtain rfl := indices_of_other hx
      exact List.mem_append_right _ (List.mem_cons_of_mem _ List.mem_cons_self)
  have hinj : Set.InjOn Keyspace.digest texts := fun t ht u hu he =>
    List.inj_on_of_nodup_map nodup_mixedTexts (hmem t ht) (hmem u hu) he
  have hfor : ∀ call ∈ mixedDemands, call.2.isFor (Batch.smallBatch.identityOf [1, 2, 3]) = true ∨
      call.2.isFor otherIdentity = true := by decide +kernel
  have h :=
    operations_do_not_interfere (v := { keys := ⟨"relay"⟩ }) (by decide +kernel) hfor hinj {}
  rw [hfilter] at h
  exact ⟨h.1, h.2.1 _ (.inr (.inr ⟨1, rfl, .inl rfl⟩))⟩

end FragmentRelay
