import FragmentRelay.Broadcast
import FragmentRelay.Deployment.Basic

/-!
# The clock of a deployment: how time passes

Time passes from one event to the next. At each instant everything that can run runs until nothing
is left: timers that are due, tasks that are due, and the workers in turn. Then the clock moves to
the next instant at which a timer or a task is due.

The loops are bounded. A message is handled at most once for each of its attempts, of which there
are fewer than 2^32, so `patience` is more than the rounds that one instant can take.
-/

namespace FragmentRelay.Deployment

/-! ### One instant -/

/-- The tasks that are due, the earliest first. -/
def dueTasks (d : Deployment) : List Task :=
  (d.tasks.filter fun t => decide (t.due ≤ d.now)).mergeSort fun s t => decide (s.due ≤ t.due)

/-- Starts the tasks that are due. -/
def performDue (d : Deployment) : Deployment :=
  d.dueTasks.foldl perform { d with tasks := d.tasks.filter fun t => decide (d.now < t.due) }

/-- Whether a timer or a task is due. -/
def eventDue (d : Deployment) : Bool :=
  (d.bus.timers.any fun t => decide (t.due ≤ d.now)) || d.tasks.any fun t => decide (t.due ≤ d.now)

/-- One round: what is due happens, then every worker takes a step. Says whether anything
happened. -/
def round (d : Deployment) : Bool × Deployment :=
  let start := { d with bus := d.bus.fire d.now }.performDue
  (List.range start.workers.length).foldl
    (fun (moved, d) i =>
      match d.step i with
      | (m, d) => (moved || m, d))
    (d.eventDue, start)

/-- Rounds until nothing happens, at most as many as the number says. -/
def rounds : Nat → Deployment → Deployment
  | 0, d => d
  | n + 1, d =>
    match d.round with
    | (true, d) => rounds n d
    | (false, d) => d

/-- More rounds than can happen at one instant. -/
def patience (d : Deployment) : Nat :=
  (d.bus.inTransit + (d.feeds.flatMap fun f => f.inbox).length + d.tasks.length +
    d.workers.length + 2) * 17179869184

/-- Lets everything run that can run at the present instant. -/
def quiesce (d : Deployment) : Deployment := rounds d.patience d

/-! ### From instant to instant -/

/-- The next instant at which a timer or a task is due. -/
def nextDue? (d : Deployment) : Option Instant :=
  ((d.bus.timers.map (·.due) ++ d.tasks.map (·.due)).filter fun t => decide (d.now < t)).min?

/-- The deployment at a later instant, after everything that can run there has run. -/
def moveTo (d : Deployment) (t : Instant) : Deployment := { d with now := max d.now t }.quiesce

/-- Lets time pass up to an instant, over at most as many events as the number says. -/
def advanceWithin (target : Instant) : Nat → Deployment → Deployment
  | 0, d => d.moveTo target
  | n + 1, d =>
    match d.nextDue? with
    | none => d.moveTo target
    | some t => if t ≤ target then advanceWithin target n (d.moveTo t) else d.moveTo target

/-- Lets time pass up to an instant. -/
def advanceTo (d : Deployment) (target : Instant) : Deployment :=
  advanceWithin target (target - d.now) d

/-- Lets a span pass. -/
def sleep (s : Span) (d : Deployment) : Deployment := d.advanceTo (d.now + s.nanos)

/-! ### Waiting -/

/-- Asks for a subscriber's next message at every event up to a deadline; at most as many as the
number says. -/
def awaitWithin (subscriber : Nat) (deadline : Instant) : Nat → Deployment → Bus.Poll × Deployment
  | 0, d => d.take (.bus subscriber)
  | n + 1, d =>
    match d.take (.bus subscriber) with
    | (.pending, d) =>
      match d.nextDue? with
      | none => (.pending, d.moveTo deadline)
      | some t =>
        if t ≤ deadline then awaitWithin subscriber deadline n (d.moveTo t)
        else (.pending, d.moveTo deadline)
    | answer => answer

/-- Waits for a subscriber's next message. -/
def await (d : Deployment) (subscriber : Nat) (wait : Span) : Bus.Poll × Deployment :=
  awaitWithin subscriber (d.now + wait.nanos) wait.nanos d

/-- Whether an attempt found fragments missing. -/
def asksAgain : Outcome (Except ReassemblyError Unit × Operation) → Bool
  | .value (r, _) => ReassemblyError.pending r
  | .crashed _ => false

/-- Tries an operation again and again while fragments are missing. -/
def poll (d : Deployment) (o : Operation) (b : Backoff) (attempts : Nat) :
    Outcome (Except ReassemblyError Unit × Operation) × Deployment :=
  b.poll asksAgain (fun d => d.reassemble o) sleep attempts d

/-! ### Broadcasts -/

/-- A broadcast on its way: its tokens, if its rate is limited, and what was noted. -/
structure Transmission where
  deployment : Deployment
  bucket : Option TokenBucket
  noted : List (String × Octets × Instant) := []

namespace Transmission

/-- Waits for a token. -/
def pace (t : Transmission) : Transmission :=
  match t.bucket with
  | none => t
  | some b =>
    match b.acquire t.deployment.now with
    | (instant, b) =>
      { t with
        bucket := some b
        deployment :=
          if t.deployment.now < instant then t.deployment.advanceTo instant else t.deployment }

/-- Publishes on the bus of the deployment. -/
def onBus : Publisher Transmission where
  publish subject body t :=
    match t.deployment.bus.publish subject body with
    | .ok bus => (.ok (), { t with deployment := { t.deployment with bus } })
    | .error e => (.error e, t)
  pace := pace

/-- Only notes what is published, and refuses everything after a number of publications. -/
def noting (limit : Option Nat) (refusal : String → TransportError) : Publisher Transmission where
  publish subject body t :=
    if limit.any fun n => decide (n ≤ t.noted.length) then (.error (refusal subject), t)
    else (.ok (), { t with noted := t.noted ++ [(subject, body, t.deployment.now)] })
  pace := pace

end Transmission

/-- Broadcasts a batch, at a rate if one is given, and counts what was published. -/
def broadcast (d : Deployment) (p : Publisher Transmission) (rate : Option Nat)
    (subjects : Subjects) (b : Batch) : Except BroadcastError Unit × Transmission :=
  match p.broadcast subjects b { deployment := d, bucket := rate.map fun r => .full r d.now } with
  | (r, published, t) =>
    (r, { t with deployment := { t.deployment with
      tally := t.deployment.tally.addPublished published } })

end FragmentRelay.Deployment
