import FragmentRelay.Proofs.Reassembly.Polling
import FragmentRelay.Proofs.Reassembly.Soundness
import FragmentRelay.Proofs.Service.Clock

/-!
# Decisive: a poll while the store changes

Little is known of what a poll runs in. While it sleeps, and between any two requests of an attempt,
the store may change in any way, and every request may fail or crash. All that is asked for is that
an attempt ends as some answers to its requests make it end and takes no time, and that a sleep
takes its span. Then a poll makes its attempts at the instants that the delays add up to and returns
the first outcome that is not a want of fragments, or the last one. An operation that is handed on
from attempt to attempt is as it was unless the poll went well.

* `Surroundings`: what a poll runs in. `Deployment.surroundings`: a deployment is one of them.
* `Surroundings.now_visit`: when the attempts are made.
* `Surroundings.visit_noted`: the operation and the moves of a poll before each attempt.
* `poll_decisive`: how a poll ends.
-/

namespace FragmentRelay

/-! ### Surroundings -/

/-- The operation that a caller has after a trial of one: a crash leaves it as it was. -/
def Outcome.operation (o : Operation) :
    Outcome (Except ReassemblyError Unit × Operation) → Operation
  | .value (_, o') => o'
  | .crashed _ => o

/-- What a poll runs in: a state with a clock, trials of operations and delays. A trial ends as some
answers to its requests make it end and takes no time; a delay takes its span. Nothing else is known
of what they do to the state. -/
structure Surroundings (σ : Type) where
  now : σ → Instant
  reassembler : σ → Reassembler
  attempt : Operation → σ → Outcome (Except ReassemblyError Unit × Operation) × σ
  sleep : Span → σ → σ
  attempt_mayEnd : ∀ o s, ((reassembler s).reassemble o).MayEnd (attempt o s).1
  now_attempt : ∀ o s, now (attempt o s).2 = now s
  now_sleep : ∀ span s, now (sleep span s) = now s + span.nanos

/-- A deployment: while a poll sleeps in it, its workers and tasks run. -/
def Deployment.surroundings : Surroundings Deployment where
  now d := d.now
  reassembler d := d.reassembler
  attempt o d := d.reassemble o
  sleep := sleep
  attempt_mayEnd o d := by
    have hend := Access.mayEnd_run Outage.rule d.now (d.reassembler.reassemble o) d.outage d.store
    unfold reassemble call
    rcases hr : (d.reassembler.reassemble o).run Outage.rule d.now d.outage d.store
      with ⟨r | text, outage, store⟩
    all_goals rw [hr] at hend; exact hend
  now_attempt o d := congrArg Prod.fst (d.standing_reassemble o)
  now_sleep span d := d.now_sleep span

/-- A store that is at every instant as a history says. -/
def Surroundings.ofHistory (m : Reassembler) (history : Instant → Store) : Surroundings Watch where
  now x := x.now
  reassembler _ := m
  attempt o := Watch.attempt fun t => ((m.reassemble o).alone t (history t)).1
  sleep := Watch.sleep
  attempt_mayEnd o x := Access.mayEnd_run Faults.none x.now (m.reassemble o) () (history x.now)
  now_attempt _ _ := rfl
  now_sleep _ _ := rfl

theorem Deployment.poll_eq_surroundings (d : Deployment) (o : Operation) (b : Backoff)
    (attempts : Nat) :
    d.poll o b attempts = b.poll asksAgain (surroundings.attempt o) surroundings.sleep attempts d :=
  rfl

/-! ### Journals -/

/-- What a poll does: an attempt at an instant, or a delay. -/
inductive Backoff.Move where
  | tried (t : Instant)
  | slept (span : Span)
deriving DecidableEq

/-- What a poll did, and the operation as its last attempt left it. -/
structure Journal (σ : Type) where
  state : σ
  operation : Operation
  moves : List Backoff.Move := []
deriving DecidableEq

/-- What a poll does up to the last of some delays: it tries and sleeps in turn. -/
def Backoff.movesBefore (b : Backoff) (start : Instant) : (delays : Nat) → List Move
  | 0 => []
  | n + 1 =>
    b.movesBefore start n ++ [.tried (b.instantAfter start n), .slept (b.delayAfter (n + 1))]

namespace Surroundings

variable {σ : Type} {w : Surroundings σ} {b : Backoff} {o : Operation} {s : σ} {n : Nat}

/-- Tries the operation that the attempt before has left, and notes when. -/
def attemptNoted (w : Surroundings σ) (j : Journal σ) :
    Outcome (Except ReassemblyError Unit × Operation) × Journal σ :=
  match w.attempt j.operation j.state with
  | (r, s) => (r, ⟨s, r.operation j.operation, j.moves ++ [.tried (w.now j.state)]⟩)

/-- Sleeps, and notes how long. -/
def sleepNoted (w : Surroundings σ) (span : Span) (j : Journal σ) : Journal σ :=
  { j with state := w.sleep span j.state, moves := j.moves ++ [.slept span] }

/-- **The attempts are made at the instants that the delays add up to.** -/
theorem now_visit (w : Surroundings σ) (b : Backoff) (o : Operation) (s : σ) (n : Nat) :
    w.now (Backoff.visit (w.attempt o) w.sleep b s n) = b.instantAfter (w.now s) n := by
  induction n with
  | zero => rfl
  | succ n ih => rw [Backoff.visit, w.now_sleep, w.now_attempt, ih, Backoff.instantAfter]

theorem operation_of_error (w : Surroundings σ) {e : ReassemblyError} {o' : Operation}
    (h : (w.attempt o s).1 = .value (.error e, o')) : o' = o := by
  rcases Reassembler.attaches_of_mayEnd (h ▸ w.attempt_mayEnd o s) with ⟨hok, -⟩ | ⟨-, rfl⟩
  · cases hok
  · rfl

theorem operation_of_asks (h : Deployment.asksAgain (w.attempt o s).1 = true) :
    (w.attempt o s).1.operation o = o := by
  rcases hr : (w.attempt o s).1 with ⟨e | u, o'⟩ | text
  · exact w.operation_of_error hr
  · rw [hr] at h
    cases h
  · rfl

/-- Before each attempt the operation is as it was at first, and the poll has tried and slept in
turn. -/
theorem visit_noted
    (hasks : ∀ j < n,
      Deployment.asksAgain (w.attempt o (Backoff.visit (w.attempt o) w.sleep b s j)).1 = true) :
    Backoff.visit w.attemptNoted w.sleepNoted b ⟨s, o, []⟩ n =
      ⟨Backoff.visit (w.attempt o) w.sleep b s n, o, b.movesBefore (w.now s) n⟩ := by
  induction n with
  | zero => rfl
  | succ n ih =>
    have hkept := operation_of_asks (hasks n (Nat.lt_succ_self n))
    rw [Backoff.visit, ih fun j hj => hasks j (Nat.lt_succ_of_lt hj)]
    simp only [attemptNoted, sleepNoted, hkept, now_visit, List.append_assoc, List.singleton_append]
    rfl

end Surroundings

/-! ### How a poll ends -/

/-- **A poll ends with its first decisive outcome**, in all surroundings and on every schedule.
The loop that counts its attempts in a word, and hands the operation on from each attempt to the
next, ends with the same outcome in the same state. -/
theorem poll_decisive {σ : Type} (w : Surroundings σ) (b : Backoff) (attempts : UInt32)
    (o : Operation) (s : σ) :
    let schedule := b.normalized
    let visit := Backoff.visit (w.attempt o) w.sleep schedule s
    let ended := b.poll Deployment.asksAgain (w.attempt o) w.sleep attempts.toNat s
    ∃ last < max 1 attempts.toNat,
      (∀ n ≤ last, w.now (visit n) = schedule.instantAfter (w.now s) n) ∧
      (∀ n < last, Deployment.asksAgain (w.attempt o (visit n)).1 = true) ∧
      ended = w.attempt o (visit last) ∧
      (Deployment.asksAgain ended.1 = true → last + 1 = max 1 attempts.toNat) ∧
      (∀ e o', ended.1 = .value (.error e, o') → o' = o) ∧
      b.countedPoll? Deployment.asksAgain w.attemptNoted w.sleepNoted attempts ⟨s, o, []⟩ =
        some (ended.1, ⟨ended.2, ended.1.operation o,
          schedule.movesBefore (w.now s) last ++
            [.tried (schedule.instantAfter (w.now s) last)]⟩) := by
  intro schedule visit ended
  obtain ⟨last, hlast⟩ :=
    Backoff.exists_decides Deployment.asksAgain (fun n => (w.attempt o (visit n)).1)
    (Nat.lt_of_lt_of_le Nat.zero_lt_one (Nat.le_max_left 1 attempts.toNat))
  have hended : ended = w.attempt o (visit last) := Backoff.poll_eq_visit hlast
  refine ⟨last, hlast.lt_attempts, fun n _ => w.now_visit schedule o s n, hlast.asks, hended,
    fun hasks => ?_, fun e o' he => ?_, ?_⟩
  · refine hlast.stops.resolve_right fun hstop => ?_
    rw [hended, hstop] at hasks
    cases hasks
  · rw [hended] at he
    exact w.operation_of_error he
  · have hnoted : ∀ n ≤ last, Backoff.visit w.attemptNoted w.sleepNoted schedule ⟨s, o, []⟩ n =
        ⟨visit n, o, schedule.movesBefore (w.now s) n⟩ :=
      fun n hn => Surroundings.visit_noted fun j hj => hlast.asks j (Nat.lt_of_lt_of_le hj hn)
    have hsame := hlast.congr fun n hn => congrArg (fun j => (w.attemptNoted j).1) (hnoted n hn)
    rw [Backoff.countedPoll?_eq, Backoff.poll_eq_visit hsame,
      hnoted last (Nat.le_refl last), hended, ← w.now_visit schedule o s last]
    rfl

/-- A store that is empty for 40 milliseconds and holds all of an operation from then on. -/
def lateHistory (t : Instant) : Store := if t < 40000000 then {} else Reassembler.octetStore

/-- The first attempt finds nothing, and the second one, after 50 milliseconds, finds everything. -/
theorem lateHistory_polled :
    let w := Surroundings.ofHistory { keys := ⟨"octet"⟩ } lateHistory
    let o : Operation := { header := Batch.headerOf 5 1 [7] }
    Backoff.standard.countedPoll? Deployment.asksAgain w.attemptNoted w.sleepNoted 5
      ⟨⟨0, []⟩, o, []⟩ =
      some (.value (.ok (), { o with payload := some [7] }),
        ⟨⟨50000000, [0, 50000000]⟩, { o with payload := some [7] },
          [.tried 0, .slept (Span.ofMillis 50), .tried 50000000]⟩) := by
  intro w o
  obtain ⟨last, -, -, hasks, hended, hspent, -, hcounted⟩ :=
    poll_decisive w Backoff.standard 5 o ⟨0, []⟩
  have hfirst : Deployment.asksAgain (w.attempt o ⟨0, []⟩).1 = true := by decide +kernel
  have hvisit : Backoff.visit (w.attempt o) w.sleep Backoff.standard.normalized ⟨0, []⟩ 1 =
      ⟨50000000, [0]⟩ := by
    decide +kernel
  have hsecond : w.attempt o ⟨50000000, [0]⟩ =
      (.value (.ok (), { o with payload := some [7] }), ⟨50000000, [0, 50000000]⟩) := by
        decide +kernel
  -- the first attempt is not decisive, and the second one is
  obtain rfl : last = 1 := by
    rcases Nat.lt_trichotomy last 1 with hlt | hone | hgt
    · obtain rfl := Nat.lt_one_iff.1 hlt
      have hfive := hspent (hended ▸ hfirst)
      cases hfive
    · exact hone
    · have hagain := hasks 1 hgt
      rw [hvisit, hsecond] at hagain
      cases hagain
  rw [hcounted, hended, hvisit, hsecond]
  decide +kernel

end FragmentRelay
