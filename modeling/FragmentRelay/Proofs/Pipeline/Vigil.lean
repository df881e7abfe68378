import FragmentRelay.Proofs.Pipeline.Sole
import FragmentRelay.Proofs.Pipeline.Trial
import FragmentRelay.Proofs.Reassembly.Polling

/-!
# Vigil: a header, the store over time, and the two ways to wait

A header is published at an instant to the bus of a deployment whose only worker handles headers.
Meanwhile the store changes in any way. A poll that starts at the same instant, with the delays and
the number of attempts of the same settings, tries its operation directly.

The bus is observed at moments. Time passes from one to the next; at each of them the store is as
the history says, except that headers may have been kept, and the worker takes some steps.

* `Vigil.polled`, `Vigil.run`: the poll, and the bus over some moments.
* `Pipeline.Prompt`: no timer runs out unseen, and no message waits for the worker.
* `Vigil.queued`, `Vigil.resting`, `Vigil.settled`: where the message is, and how it moves.
-/

namespace FragmentRelay

theorem ReassemblySettings.normal_backoff (s : ReassemblySettings) : s.backoff.Normal :=
  Backoff.normal_normalized _

/-! ### What is compared -/

/-- Whether a trial went well or found fragments missing. -/
def Outcome.isExpected : Outcome (Except ReassemblyError Unit × Operation) → Bool
  | .value (.ok (), _) => true
  | .value (.error e, _) => e.notReady
  | .crashed _ => false

theorem Outcome.exists_of_isExpected {a : Outcome (Except ReassemblyError Unit × Operation)}
    (h : a.isExpected = true) :
    ∃ r o, a = .value (r, o) ∧ ∀ e, r = .error e → e.notReady = true := by
  rcases a with ⟨⟨e⟩ | ⟨⟩, o⟩ | text
  · exact ⟨_, o, rfl, fun e' he => by cases he; exact h⟩
  · exact ⟨_, o, rfl, fun e he => by cases he⟩
  · cases h

/-- The packets that come of a trial. -/
def Outcome.delivered : Outcome (Except ReassemblyError Unit × Operation) → List Packet
  | .value (r, o) => (HeaderHandling.attempted r o).packet?.toList
  | .crashed _ => []

/-- A header that is published at an instant, and what the store has at every instant. -/
structure Vigil where
  settings : Settings
  header : Header
  start : Instant
  history : Instant → Store

namespace Vigil

/-- How the operation is tried. -/
def reassembler (v : Vigil) : Reassembler := { keys := v.settings.keys, ttl := v.settings.ttl }

/-- What a trial of the operation comes to at an instant. -/
def outcome (v : Vigil) (t : Instant) : Outcome (Except ReassemblyError Unit × Operation) :=
  ((v.reassembler.reassemble { header := v.header }).alone t (v.history t)).1

/-- The poll that starts when the header is published. -/
def polled (v : Vigil) : Outcome (Except ReassemblyError Unit × Operation) × Watch :=
  v.settings.reassembly.backoff.poll Deployment.asksAgain (Watch.attempt v.outcome) Watch.sleep
    v.settings.reassembly.maxDeliveries.toNat ⟨v.start, []⟩

end Vigil

/-- An instant at which the worker takes steps, with the store and the planned failures that it
finds there. -/
structure Moment where
  instant : Instant
  store : Store
  outage : Outage := {}
  steps : Nat := 1

/-- A moment at which a store has the counter and the records that the history says, and no read
fails. -/
structure Vigil.Shows (v : Vigil) (x : Moment) : Prop where
  agrees : x.store.AgreeOn v.settings.keys.HoldsNoHeader (v.history x.instant)
  spares : x.outage.SparesReads
  steps_pos : 0 < x.steps

/-- The messages of a bus that wait in a queue. -/
def Bus.queued (b : Bus) : List Bus.Envelope :=
  b.topics.flatMap fun t => t.groups.flatMap fun g => g.queue

/-- Time may pass to an instant: no timer runs out before, and nothing waits to be handled now. -/
structure Deployment.Admits (d : Deployment) (t : Instant) : Prop where
  now_le : d.now ≤ t
  le_due : ∀ timer ∈ d.bus.timers, t ≤ timer.due
  handled : d.bus.queued ≠ [] → t = d.now

namespace Pipeline

/-- What is found at a moment. -/
def face (p : Pipeline) (x : Moment) : Pipeline :=
  { p with deployment := { p.deployment with store := x.store, outage := x.outage } }

/-- Time passes to a moment, and the worker takes its steps there. -/
def pass (p : Pipeline) (x : Moment) : Pipeline :=
  (List.replicate x.steps (Event.work 0)).foldl next ((p.face x).next (.wait x.instant))

/-- Timers run out in time and messages are handled without delay. -/
def Prompt : Pipeline → List Moment → Prop
  | _, [] => True
  | p, x :: rest => p.deployment.Admits x.instant ∧ Prompt (p.pass x) rest

/-- The messages that were taken, and when. -/
def taken (log : List Handled) : List (Instant × Bus.Envelope) :=
  log.filterMap fun x => x.envelope.map fun e => (x.instant, e)

/-- The packets that came out, and when. -/
def emitted (log : List Handled) : List (Instant × Packet) :=
  log.flatMap fun x => x.packets.map fun q => (x.instant, q)

theorem taken_append (log : List Handled) (x : Handled) :
    taken (log ++ [x]) = taken log ++ (x.envelope.map fun e => (x.instant, e)).toList := by
  rw [taken, List.filterMap_append]
  cases hx : x.envelope <;> simp [taken, hx]

theorem emitted_append (log : List Handled) (x : Handled) :
    emitted (log ++ [x]) = emitted log ++ x.packets.map fun q => (x.instant, q) := by
  simp [emitted]

theorem taken_quiet (log : List Handled) (now : Instant) (i : Nat) :
    taken (log ++ [⟨now, i, none, []⟩]) = taken log := by
  rw [taken_append]
  exact List.append_nil _

theorem emitted_quiet (log : List Handled) (now : Instant) (i : Nat) :
    emitted (log ++ [⟨now, i, none, []⟩]) = emitted log := by
  rw [emitted_append]
  exact List.append_nil _

end Pipeline

open Pipeline

namespace Vigil

/-- The header is published when the vigil starts. -/
def publish (v : Vigil) (p : Pipeline) : Pipeline :=
  (p.next (.wait v.start)).next (.publish v.settings.subjects.reassembly (Wire.encode v.header))

/-- Some moments before the header is published, and some after. -/
def run (v : Vigil) (d : Deployment) (before after : List Moment) : Pipeline :=
  after.foldl pass (v.publish (before.foldl pass { deployment := d }))

/-! ### Where the message is -/

variable (v : Vigil)

/-- The instant of the attempt after a number of delays. -/
def time (n : Nat) : Instant := v.settings.reassembly.backoff.instantAfter v.start n

/-- The message on the attempt after a number of delays. -/
def envelope (n : Nat) : Bus.Envelope := ⟨0, Wire.encode v.header, n + 1⟩

/-- The group while the message is queued. -/
def queued (n : Nat) : Bus.Group :=
  { name := v.settings.reassembly.queueGroup, handed := 1, queue := [v.envelope n] }

/-- The group while the message is behind the timer of a refusal. -/
def resting (n : Nat) : Bus.Group :=
  { name := v.settings.reassembly.queueGroup, handed := 1
    timers := [⟨v.time (n + 1), .delay, v.envelope n, v.settings.reassembly.maxDeliveries.toNat⟩] }

/-- The group after the message was acknowledged. -/
def settled (n : Nat) : Bus.Group :=
  { name := v.settings.reassembly.queueGroup, handed := 1, acknowledged := [v.envelope n] }

/-- The first attempts. -/
def visits (n : Nat) : List (Instant × Bus.Envelope) :=
  (List.range n).map fun j => (v.time j, v.envelope j)

theorem strictMono_time : StrictMono v.time :=
  v.settings.reassembly.normal_backoff.strictMono_instantAfter v.start

theorem finish_queued (n : Nat) :
    (v.queued n).finish (v.time n) (v.envelope n) [] v.settings.reassembly.maxDeliveries.toNat
      (.nack (v.settings.reassembly.backoff.delayAfter (n + 1))) = v.resting n := by
  have hdelay := v.settings.reassembly.normal_backoff.delayAfter_pos (n + 1)
  rw [Bus.Group.finish, if_neg hdelay.ne']
  rfl

theorem fire_resting_of_lt {n : Nat} {t : Instant} (h : t < v.time (n + 1)) :
    (v.resting n).fire t = v.resting n := by
  have hnot : ¬ v.time (n + 1) ≤ t := Nat.not_le.2 h
  simp [Bus.Group.fire, Bus.Group.dueTimers, resting, h, hnot]

theorem fire_resting_of_due {n : Nat} (h : n + 1 < v.settings.reassembly.maxDeliveries.toNat) :
    (v.resting n).fire (v.time (n + 1)) = v.queued (n + 1) := by
  have hmore : ¬ v.settings.reassembly.maxDeliveries.toNat ≤ n + 1 := Nat.not_le.2 h
  simp [Bus.Group.fire, Bus.Group.dueTimers, resting, queued, envelope, Bus.Group.redeliver, hmore]

theorem visits_succ (n : Nat) : v.visits (n + 1) = v.visits n ++ [(v.time n, v.envelope n)] := by
  rw [visits, List.range_succ, List.map_append]
  rfl

/-- The poll makes its last attempt after a number of delays. -/
abbrev Ends (last : Nat) : Prop :=
  Backoff.Ends Deployment.asksAgain v.outcome v.settings.reassembly.backoff v.start
    v.settings.reassembly.maxDeliveries.toNat last

end Vigil

variable {v : Vigil} {last n : Nat}

theorem Vigil.asks_of_lt (h : v.Ends last) (hn : n < last) :
    Deployment.asksAgain (v.outcome (v.time n)) = true :=
  h.asks n hn

theorem Vigil.spent_of_asks (h : v.Ends last)
    (hasks : Deployment.asksAgain (v.outcome (v.time last)) = true) :
    last + 1 = v.settings.reassembly.maxDeliveries.toNat :=
  h.stops.resolve_right fun hstop => absurd hasks (Bool.eq_false_iff.1 hstop)

theorem Vigil.polled_eq (hends : v.Ends last) :
    v.polled = (v.outcome (v.time last), ⟨v.time last, (List.range (last + 1)).map v.time⟩) :=
  Backoff.poll_eq v.settings.reassembly.normal_backoff hends

/-- What a vigil takes for granted: its settings were checked, the clock can show the deadline of
the header that is kept on the first attempt, and every attempt of the poll goes well or finds
fragments missing. -/
structure Vigil.Regular (v : Vigil) (last : Nat) : Prop where
  slots_pos : 0 < v.settings.reassembly.options.maxInFlight
  shown : ∀ span ∈ v.settings.ttl, v.start + span.nanos < Instant.horizon
  ends : v.Ends last
  expected : ∀ n ≤ last, (v.outcome (v.time n)).isExpected = true

end FragmentRelay
