import FragmentRelay.Proofs.Ingest.Tallied
import FragmentRelay.Proofs.Reassembly.AnyOrder

/-!
# Sessions: ingestions one after the other while requests fail

Ingestion calls are made one after the other under a failure rule that goes on from call to call.
The rule may let a request fail without effect or cut the call off before it, as when a worker dies
and its message is delivered again. A session keeps the answers beside the store, and the indices
that were counted are read off the answers: those of the accepted fragments that are not reported as
duplicates.

* `Session.Kept`: the invariant. The indices that were counted are all different and are what the
  counter counts.
* `Session.Kept.call`, `Session.Kept.run`: what calls preserve, whatever fails.
* `Session.Kept.index_mem`: if no marker is left behind, every index that was accepted has been
  counted.
-/

namespace FragmentRelay

/-- The answers to the ingestion calls made so far, the state of the failure rule, and the store. -/
structure Session (σ : Type) where
  answers : List (Fragment × Outcome (Except IngestError Ingested)) := []
  failures : σ
  store : Store := {}

namespace Session

/-- One more ingestion call. -/
def call {σ : Type} (g : Ingestor) (faults : Faults σ) (x : Session σ) (c : Call) : Session σ :=
  let r := (g.ingest c.2).run faults c.1 x.failures x.store
  { answers := x.answers ++ [(c.2, r.1)], failures := r.2.1, store := r.2.2 }

/-- Ingestion calls one after the other. -/
def run {σ : Type} (g : Ingestor) (faults : Faults σ) (calls : List Call)
    (x : Session σ) : Session σ :=
  calls.foldl (call g faults) x

/-- What an operation was told of the fragment of a call, if it was accepted. -/
def acceptedOf (i : Identity) : Fragment × Outcome (Except IngestError Ingested) → Option Ingested
  | (f, .value (.ok r)) => if f.BelongsTo i then some r else none
  | _ => none

/-- The answers to the fragments of an operation that were accepted. -/
def accepted {σ : Type} (x : Session σ) (i : Identity) : List Ingested :=
  x.answers.filterMap (acceptedOf i)

/-- The indices of an operation that were counted. -/
def counted {σ : Type} (x : Session σ) (i : Identity) : List UInt32 :=
  ((x.accepted i).filter fun r => !r.duplicate).map (·.index)

variable {σ : Type} {g : Ingestor} {faults : Faults σ} {x : Session σ} {c : Call}
  {calls more : List Call} {fs sent : Set Fragment} {i : Identity} {y : UInt32}

@[simp] theorem run_nil : x.run g faults [] = x := rfl

@[simp] theorem run_append :
    x.run g faults (calls ++ more) = (x.run g faults calls).run g faults more :=
  List.foldl_append

/-! ### What one call adds to the answers -/

theorem accepted_call : (x.call g faults c).accepted i =
    x.accepted i ++
      (acceptedOf i (c.2, ((g.ingest c.2).run faults c.1 x.failures x.store).1)).toList := by
  simp only [accepted, call, List.filterMap_append]
  cases h : acceptedOf i (c.2, ((g.ingest c.2).run faults c.1 x.failures x.store).1) <;> simp [h]

theorem counted_call : (x.call g faults c).counted i = x.counted i ++
    (((acceptedOf i (c.2, ((g.ingest c.2).run faults c.1 x.failures x.store).1)).toList.filter
      fun r => !r.duplicate).map (·.index)) := by
  rw [counted, accepted_call, List.filter_append, List.map_append]
  rfl

theorem acceptedOf_other (g : Ingestor) (faults : Faults σ) (x : Session σ)
    (h : c.2.Genuine → ¬ c.2.BelongsTo i) :
    acceptedOf i (c.2, ((g.ingest c.2).run faults c.1 x.failures x.store).1) = none := by
  by_cases hgen : c.2.Genuine
  · rcases ((g.ingest c.2).run faults c.1 x.failures x.store).1 with (e | r) | text
    · rfl
    · exact if_neg (h hgen)
    · rfl
  · obtain ⟨e, he⟩ := g.ingest_of_not_genuine hgen
    rw [he]
    rfl

end Session

namespace Ingestor.Served

variable {σ : Type} {g : Ingestor} {fs sent : Set Fragment} {i : Identity} {C : Finset UInt32}
  {f : Fragment} {faults : Faults σ} {s s' : Store} {p : Point}
  {o : Outcome (Except IngestError Ingested)}

/-- An ingestion that has stopped was accepted and not as a duplicate exactly if it has counted its
fragment. -/
theorem counted_eq (h : Served g fs sent i C f faults s p o s') (hi : f.BelongsTo i) :
    (((Session.acceptedOf i (f, o)).toList.filter fun r => !r.duplicate).map (·.index)) =
      if p.counted = true then [f.index] else [] := by
  rcases h.outcome with ⟨r, rfl, rfl⟩ | ⟨hp, text, rfl⟩
  · rcases r with e | ⟨v, d⟩
    · rfl
    · cases d <;> simp [Session.acceptedOf, Ingestor.answer, Ingestor.Point.counted, hi]
  · rw [hp]
    rfl

/-- A fragment that was accepted has been counted by now, or is stranded. -/
theorem placed (h : Served g fs sent i C f faults s p o s') (hf : f ∈ sent)
    (hi : f.BelongsTo i) {r : Ingested} (hr : Session.acceptedOf i (f, o) = some r) :
    r.index ∈ p.total f C ∨ Stranded g.keys sent i r.index (p.total f C) s' := by
  rcases h.outcome with ⟨a, rfl, rfl⟩ | ⟨-, text, rfl⟩
  · rcases a with e | ⟨v, d⟩
    · cases hr
    · simp only [Session.acceptedOf, Ingestor.answer, hi, if_true, Option.some.injEq] at hr
      subst hr
      cases d with
      | false => exact .inl (Finset.mem_insert_self _ _)
      | true =>
        by_cases hin : f.index ∈ C
        · exact .inl hin
        · -- It was taken for a duplicate, so its marker stands raised and the counter is there.
          exact .inr ⟨⟨f, hf, hi, rfl⟩, hin, h.nonempty v rfl, h.serving.raised rfl rfl⟩
  · cases hr

end Ingestor.Served

namespace Session

variable {σ : Type} {g : Ingestor} {faults : Faults σ} {x : Session σ} {c : Call}
  {calls more : List Call} {fs sent : Set Fragment} {i : Identity} {y : UInt32}

/-! ### The invariant -/

/-- What the answers and the store of a session have in common. An index that was accepted and has
not been counted is stranded. -/
structure Kept (k : Keyspace) (fs sent : Set Fragment) (i : Identity) (x : Session σ) : Prop where
  nodup : (x.counted i).Nodup
  tallied : Tallied k fs sent i (x.counted i).toFinset x.store
  placed : ∀ r ∈ x.accepted i, r.index ∈ x.counted i ∨
    Stranded k sent i r.index (x.counted i).toFinset x.store

/-- What calls preserve of an operation: the invariant, that no marker is left behind if the failure
rule spares the operation, and that an index is stranded. -/
structure Keeps (k : Keyspace) (fs sent : Set Fragment) (i : Identity) (faults : Faults σ)
    (x x' : Session σ) :
    Prop where
  kept : x'.Kept k fs sent i
  steady : faults.Sparing k i → Steady k fs i (x.counted i).toFinset x.store →
    Steady k fs i (x'.counted i).toFinset x'.store
  stranded : ∀ y, Stranded k sent i y (x.counted i).toFinset x.store →
    Stranded k sent i y (x'.counted i).toFinset x'.store

section Calls

variable (hk : g.keys.Collisionless fs) (hsent : sent ⊆ fs)
include hk hsent

theorem Kept.call_other (h : x.Kept g.keys fs sent i) (hsome : ∃ f ∈ fs, f.BelongsTo i)
    (hc : c.2.Genuine → c.2 ∈ fs ∧ ¬ c.2.BelongsTo i) :
    Keeps g.keys fs sent i faults x (x.call g faults c) := by
  have hframe : ∀ f ∈ fs, f.BelongsTo i → ∀ key, g.keys.Owns f key →
      (x.call g faults c).store.find? key = x.store.find? key := by
    intro f hf hfi key hkey
    refine Ingestor.find?_ingest_of_not_owned (fun hgen => ?_) faults x.failures
    obtain ⟨hmem, hother⟩ := hc hgen
    exact hk.not_owns hf hmem hfi hother hkey
  have hnone := acceptedOf_other g faults x fun hgen => (hc hgen).2
  have haccepted : (x.call g faults c).accepted i = x.accepted i := by
    rw [accepted_call, hnone]
    exact List.append_nil _
  have hcounted : (x.call g faults c).counted i = x.counted i := by rw [counted, haccepted, counted]
  refine ⟨⟨?_, ?_, fun r hr => ?_⟩, fun _ hs => ?_, fun y hy => ?_⟩
  · rw [hcounted]
    exact h.nodup
  · rw [hcounted]
    exact h.tallied.of_find?_eq hsent hsome hframe
  · rw [haccepted] at hr
    rw [hcounted]
    exact (h.placed r hr).imp_right fun hs => hs.of_find?_eq hsent hframe
  · rw [hcounted]
    exact hs.of_find?_eq hframe
  · rw [hcounted]
    exact hy.of_find?_eq hsent hframe

theorem Kept.call_own (h : x.Kept g.keys fs sent i) (httl : g.ttl = none)
    (hdedupe : g.dedupe = true) (hc : c.2 ∈ sent) (hgen : c.2.Genuine) (hi : c.2.BelongsTo i) :
    Keeps g.keys fs sent i faults x (x.call g faults c) := by
  obtain ⟨p, hserved⟩ :=
    Ingestor.exists_served hk hsent hc hi hgen httl hdedupe h.tallied faults c.1 x.failures
  have hcounted : (x.call g faults c).counted i = x.counted i ++ if p.counted = true
      then [c.2.index] else [] := by
    rw [counted_call, hserved.counted_eq hi]
  have htotal : ((x.call g faults c).counted i).toFinset = p.total c.2 (x.counted i).toFinset := by
    rw [hcounted]
    unfold Ingestor.Point.total
    split
    · ext y
      simp
    · simp
  refine ⟨⟨?_, ?_, fun r hr => ?_⟩, fun hspare hs => ?_, fun y hy => ?_⟩
  · rw [hcounted]
    split
    · rename_i hp
      have hnew := hserved.serving.fresh (by rw [hp, Bool.true_or])
      rw [List.mem_toFinset] at hnew
      exact h.nodup.append (List.nodup_singleton _) (List.disjoint_singleton.2 hnew)
    · rw [List.append_nil]
      exact h.nodup
  · rw [htotal]
    exact hserved.serving.tallied
  · rw [← List.mem_toFinset, htotal]
    rw [accepted_call, List.mem_append, Option.mem_toList] at hr
    rcases hr with hr | hr
    · refine (h.placed r hr).imp (fun hin => ?_) (hserved.stranded r.index)
      rw [← htotal, hcounted]
      exact List.mem_toFinset.2 (List.mem_append_left _ hin)
    · exact hserved.placed hc hi hr
  · rw [htotal]
    exact hserved.steady hs hspare
  · rw [htotal]
    exact hserved.stranded y hy

theorem Kept.call (h : x.Kept g.keys fs sent i) (httl : g.ttl = none) (hdedupe : g.dedupe = true)
    (hsome : ∃ f ∈ fs, f.BelongsTo i) (faults : Faults σ)
    (hc : c.2.Genuine → c.2 ∈ fs ∧ (c.2.BelongsTo i → c.2 ∈ sent)) :
    Keeps g.keys fs sent i faults x (x.call g faults c) := by
  by_cases hown : c.2.Genuine ∧ c.2.BelongsTo i
  · obtain ⟨hgen, hi⟩ := hown
    exact h.call_own hk hsent httl hdedupe ((hc hgen).2 hi) hgen hi
  · exact h.call_other hk hsent hsome fun hgen => ⟨(hc hgen).1, fun hi => hown ⟨hgen, hi⟩⟩

/-- **What calls one after the other preserve.** -/
theorem Kept.run (h : x.Kept g.keys fs sent i) (httl : g.ttl = none) (hdedupe : g.dedupe = true)
    (hsome : ∃ f ∈ fs, f.BelongsTo i) (faults : Faults σ)
    (hcalls : ∀ c ∈ calls, c.2.Genuine → c.2 ∈ fs ∧ (c.2.BelongsTo i → c.2 ∈ sent)) :
    Keeps g.keys fs sent i faults x (x.run g faults calls) := by
  induction calls generalizing x with
  | nil => exact ⟨h, fun _ hs => hs, fun _ hy => hy⟩
  | cons c rest ih =>
    have hfirst := h.call hk hsent httl hdedupe hsome faults (hcalls c List.mem_cons_self)
    have hrest := ih hfirst.kept fun d hd => hcalls d (List.mem_cons_of_mem c hd)
    exact ⟨hrest.kept, fun hspare hs => hrest.steady hspare (hfirst.steady hspare hs),
      fun y hy => hrest.stranded y (hfirst.stranded y hy)⟩

end Calls

/-! ### A session from the start -/

theorem Kept.start (k : Keyspace) (fs sent : Set Fragment) (i : Identity) (w : σ) :
    Kept k fs sent i ({ failures := w } : Session σ) where
  nodup := List.nodup_nil
  tallied := .empty k fs sent i
  placed r hr := by cases hr

theorem Kept.index_mem {k : Keyspace} (h : x.Kept k fs sent i) (hsent : sent ⊆ fs)
    (hs : Steady k fs i (x.counted i).toFinset x.store) {r : Ingested} (hr : r ∈ x.accepted i) :
    r.index ∈ x.counted i := by
  refine (h.placed r hr).resolve_right fun hstranded => ?_
  obtain ⟨f, hf, hfi, hindex⟩ := hstranded.covered
  have hraised := hstranded.raised
  rw [← hindex] at hraised
  have hin := hs f (hsent hf) hfi hraised
  rw [hindex] at hin
  exact hstranded.uncounted hin

theorem Kept.counted_ne_nil {k : Keyspace} (h : x.Kept k fs sent i) {r : Ingested}
    (hr : r ∈ x.accepted i) : x.counted i ≠ [] := by
  intro hnil
  rcases h.placed r hr with hin | hstranded
  · rw [hnil] at hin
    cases hin
  · have hsome := hstranded.nonempty
    rw [hnil] at hsome
    exact hsome.ne_empty List.toFinset_nil

end Session

end FragmentRelay
