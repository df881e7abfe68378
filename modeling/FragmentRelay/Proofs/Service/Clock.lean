import FragmentRelay.Deployment.Clock

/-!
# Clock: what the passing of time changes

At one instant tasks start and workers take steps. They change the store, the bus and the outlets
and tally what they did, but the clock stands still, and nothing is counted as published. When time
passes up to an instant, all of that happens on the way, and in the end the clock shows this
instant.

* `Deployment.standing`: the clock and the total of published fragments.
* `Deployment.standing_step`, `Deployment.standing_round`: a step of a worker and a round of all of
  them.
* `Deployment.standing_advanceTo`, `Deployment.now_sleep`: any time that passes.
-/

namespace FragmentRelay

/-! ### Tallies -/

namespace Tally

theorem published_addIngest (t : Tally) (r : Except IngestError Ingested) :
    (t.addIngest r).published = t.published := by
  unfold addIngest
  split
  · split <;> rfl
  all_goals rfl

theorem published_addReassembly {α : Type} (t : Tally) (r : Except ReassemblyError α) :
    (t.addReassembly r).published = t.published := by
  unfold addReassembly
  split
  · rfl
  · rfl
  · split <;> rfl

end Tally

theorem FragmentHandling.published_tally (t : Tally) (h : FragmentHandling) :
    (h.tally t).published = t.published := by
  cases h with
  | undecodable => rfl
  | ingested r => exact t.published_addIngest r

theorem HeaderHandling.published_tally (t : Tally) (h : HeaderHandling) :
    (h.tally t).published = t.published := by
  cases h with
  | undecodable => rfl
  | attempted r p => exact t.published_addReassembly r

namespace Deployment

/-- The fragments that have been counted as published. -/
def published (d : Deployment) : Nat := d.tally.published

/-- What the clock shows, and what has been counted as published. -/
def standing (d : Deployment) : Instant × Nat := (d.now, d.published)

/-! ### One instant -/

theorem standing_of_call {α : Type} {d d' : Deployment} {a : Access α} {r : Outcome α}
    (h : d.call a = (r, d')) :
    d'.standing = d.standing := (congrArg (fun q => q.2.standing) h).symm

theorem standing_of_tally {d : Deployment} (d' : Deployment) {t : Tally}
    (ht : t.published = d'.published) (h : d'.standing = d.standing) :
    ({ d' with tally := t } : Deployment).standing = d.standing :=
  (congrArg (Prod.mk d'.now) ht).trans h

theorem standing_perform (d : Deployment) (t : Task) : (d.perform t).standing = d.standing := by
  unfold perform ingest
  rcases hc : d.call (d.ingestor.ingest t.fragment) with ⟨r | text, d'⟩
  · exact standing_of_tally d' (d'.tally.published_addIngest r) (standing_of_call hc)
  · exact standing_of_call hc

theorem standing_reassemble (d : Deployment) (o : Operation) :
    (d.reassemble o).2.standing = d.standing := by
  unfold reassemble
  rcases hc : d.call (d.reassembler.reassemble o) with ⟨r | text, d'⟩
  · exact standing_of_tally d' (d'.tally.published_addReassembly r.1) (standing_of_call hc)
  · exact standing_of_call hc

theorem standing_take (d : Deployment) (source : Source) :
    (d.take source).2.standing = d.standing := by
  unfold take
  split
  · rfl
  · split
    · rfl
    · split <;> rfl

theorem standing_settle (d : Deployment) (ticket : Nat) (source : Source)
    (disposition : Disposition) : (d.settle ticket source disposition).standing = d.standing := by
  unfold settle
  split <;> rfl

theorem standing_handOn (d : Deployment) (source : Source) (ticket outlet : Nat) (p : Packet) :
    (d.handOn source ticket outlet p).2.standing = d.standing := by
  unfold handOn
  split
  · exact standing_settle _ _ _ _
  · split
    · rfl
    · exact standing_settle _ _ _ _
    · exact standing_settle _ _ _ _

theorem standing_recover (d : Deployment) (w : Worker) (ticket : Nat) :
    (d.recover w ticket).2.standing = d.standing := standing_settle _ _ _ _

theorem standing_handle (d : Deployment) (w : Worker) (x : Bus.Delivery) :
    (d.handle w x).2.standing = d.standing := by
  unfold handle
  split
  · rcases hc : d.call (FragmentHandling.ofBody d.ingestor x.body) with ⟨h | text, d'⟩
    · have htally : { d' with tally := h.tally d'.tally }.standing = d.standing :=
        standing_of_tally d' (h.published_tally d'.tally) (standing_of_call hc)
      exact (standing_settle _ _ _ _).trans htally
    · exact (standing_recover _ _ _).trans (standing_of_call hc)
  · rcases hc : d.call (HeaderHandling.ofBody d.reassembler x.body x.attempt) with ⟨h | text, d'⟩
    · have htally : { d' with tally := h.tally d'.tally }.standing = d.standing :=
        standing_of_tally d' (h.published_tally d'.tally) (standing_of_call hc)
      simp only
      split
      · exact (standing_handOn _ _ _ _ _).trans htally
      · exact (standing_settle _ _ _ _).trans htally
    · exact (standing_recover _ _ _).trans (standing_of_call hc)

/-- **While a worker takes a step the clock stands, and nothing is published.** -/
theorem standing_step (d : Deployment) (i : Nat) : (d.step i).2.standing = d.standing := by
  unfold step
  split
  · rfl
  rename_i w _
  split
  · rfl
  · rename_i outlet p ticket _
    have hkept := d.standing_handOn w.source ticket outlet p
    rcases hh : d.handOn w.source ticket outlet p with ⟨a, d'⟩
    rw [hh] at hkept
    cases a <;> exact hkept
  · have hkept := d.standing_take w.source
    rcases ht : d.take w.source with ⟨a, d'⟩
    rw [ht] at hkept
    cases a with
    | pending => exact hkept
    | closed => exact hkept
    | ready x => exact (d'.standing_handle w x).trans hkept

/-! ### Time -/

theorem standing_performDue (d : Deployment) : d.performDue.standing = d.standing := by
  unfold performDue
  exact List.foldlRecOn (motive := fun e : Deployment => e.standing = d.standing) _ _ rfl
    fun e he t _ => (e.standing_perform t).trans he

/-- **While all workers take a round the clock stands, and nothing is published.** -/
theorem standing_round (d : Deployment) : d.round.2.standing = d.standing := by
  unfold round
  refine List.foldlRecOn (motive := fun q : Bool × Deployment => q.2.standing = d.standing) _ _
    (standing_performDue _) ?_
  rintro ⟨moved, e⟩ he i _
  exact (e.standing_step i).trans he

theorem standing_rounds (n : Nat) (d : Deployment) : (rounds n d).standing = d.standing := by
  induction n generalizing d with
  | zero => rfl
  | succ n ih =>
    have hround := d.standing_round
    rw [rounds]
    rcases hr : d.round with ⟨_ | _, d'⟩
    all_goals rw [hr] at hround
    · exact hround
    · exact (ih d').trans hround

theorem standing_moveTo (d : Deployment) (t : Instant) :
    (d.moveTo t).standing = (max d.now t, d.published) :=
  standing_rounds _ _

theorem standing_advanceWithin {target : Instant} (n : Nat) {d : Deployment} (h : d.now ≤ target) :
    (advanceWithin target n d).standing = (target, d.published) := by
  have hmove : (d.moveTo target).standing = (target, d.published) := by
    rw [standing_moveTo, Nat.max_eq_right h]
  induction n generalizing d with
  | zero => exact hmove
  | succ n ih =>
    rw [advanceWithin]
    split
    · exact hmove
    · rename_i t _
      split
      · rename_i ht
        obtain ⟨hnow, hpublished⟩ := Prod.mk.inj (d.standing_moveTo t)
        have hle : (d.moveTo t).now ≤ target := hnow ▸ Nat.max_le.2 ⟨h, ht⟩
        rw [ih hle (by rw [standing_moveTo, Nat.max_eq_right hle]), hpublished]
      · exact hmove

/-- **When time has passed up to an instant, the clock shows it**, and nothing was published in the
meantime. -/
theorem standing_advanceTo {d : Deployment} {target : Instant} (h : d.now ≤ target) :
    (d.advanceTo target).standing = (target, d.published) := standing_advanceWithin _ h

theorem now_sleep (d : Deployment) (s : Span) : (d.sleep s).now = d.now + s.nanos :=
  congrArg Prod.fst (standing_advanceTo (Nat.le_add_right d.now s.nanos))

end Deployment

end FragmentRelay
