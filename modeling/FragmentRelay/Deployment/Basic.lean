import FragmentRelay.Outlet
import FragmentRelay.Polling
import FragmentRelay.Store.Outage
import FragmentRelay.Worker

/-!
# Deployments: everything that runs together, at one instant

A deployment is a store, a bus, workers and the outlets of their packets under one clock. Nothing in
it runs by itself: this module says what one call and one step of a worker do at the present
instant, and `Deployment.Clock` lets time pass.

Every call on the store goes through an outage, which may fail it or crash the caller.
-/

namespace FragmentRelay

/-- An ingestion that is to start at an instant. -/
structure Task where
  due : Instant
  fragment : Fragment
deriving DecidableEq

/-- The state of a deployment. -/
structure Deployment where
  ingestor : Ingestor
  reassembler : Reassembler
  now : Instant := 0
  store : Store := {}
  outage : Outage := {}
  bus : Bus := {}
  feeds : List Feed := []
  fed : Nat := 0
  settled : List (Nat × Disposition) := []
  workers : List Worker := []
  outlets : List Outlet := []
  tasks : List Task := []
  completed : List (Instant × Except IngestError Ingested) := []
  tally : Tally := {}

namespace Deployment

/-- A deployment without workers, on an empty store. -/
def initial (keys : Keyspace) (ttl : Option Span) (dedupe : Bool) : Deployment where
  ingestor := { keys, ttl, dedupe }
  reassembler := { keys, ttl }

/-! ### Calls -/

/-- Makes a computation over the store at the present instant. -/
def call {α : Type} (d : Deployment) (a : Access α) : Outcome α × Deployment :=
  match a.run Outage.rule d.now d.outage d.store with
  | (r, outage, store) => (r, { d with outage, store })

/-- Ingests a fragment. -/
def ingest (d : Deployment) (f : Fragment) : Outcome (Except IngestError Ingested) × Deployment :=
  match d.call (d.ingestor.ingest f) with
  | (.value r, d) => (.value r, { d with tally := d.tally.addIngest r })
  | (.crashed text, d) => (.crashed text, d)

/-- Tries to reassemble an operation. -/
def reassemble (d : Deployment) (o : Operation) :
    Outcome (Except ReassemblyError Unit × Operation) × Deployment :=
  match d.call (d.reassembler.reassemble o) with
  | (.value r, d) => (.value r, { d with tally := d.tally.addReassembly r.1 })
  | (.crashed text, d) => (.crashed text, d)

/-- Starts a task: a crash leaves nothing behind. -/
def perform (d : Deployment) (t : Task) : Deployment :=
  match d.ingest t.fragment with
  | (.value r, d) => { d with completed := d.completed ++ [(d.now, r)] }
  | (.crashed _, d) => d

/-! ### Deliveries -/

/-- Asks a source for the next delivery. -/
def take (d : Deployment) : Source → Bus.Poll × Deployment
  | .bus id =>
    match d.bus.poll d.now id with
    | (p, bus) => (p, { d with bus })
  | .feed n =>
    match d.feeds[n]? with
    | none => (.closed, d)
    | some f =>
      match f.inbox with
      | [] => (if f.isOpen then .pending else .closed, d)
      | x :: rest => (.ready x, { d with feeds := d.feeds.set n { f with inbox := rest } })

/-- Settles a delivery of a source; a feed notes how. -/
def settle (d : Deployment) (ticket : Nat) : Source → Disposition → Deployment
  | .bus _, .ack => { d with bus := d.bus.ack ticket }
  | .bus _, .nack after => { d with bus := d.bus.nack d.now ticket after }
  | .feed _, disposition => { d with settled := d.settled ++ [(ticket, disposition)] }

/-- Hands a packet to an outlet. Its delivery is acknowledged when the packet is accepted or nobody
will take it. -/
def handOn (d : Deployment) (source : Source) (ticket : Nat) (outlet : Nat) (p : Packet) :
    Activity × Deployment :=
  match d.outlets[outlet]? with
  | none => (.idle, d.settle ticket source .ack)
  | some o =>
    match o.offer p with
    | .full => (.sending outlet p ticket, d)
    | .closed => (.idle, d.settle ticket source .ack)
    | .accepted o => (.idle, { d with outlets := d.outlets.set outlet o }.settle ticket source .ack)

/-- Ends a crash on a delivery: it is counted and the delivery refused. -/
def recover (d : Deployment) (w : Worker) (ticket : Nat) : Activity × Deployment :=
  (.idle, { d with tally := d.tally.addCrash }.settle ticket w.source (.nack w.role.crashDelay))

/-- Handles a delivery as a worker's role asks. -/
def handle (d : Deployment) (w : Worker) (x : Bus.Delivery) : Activity × Deployment :=
  match w.role with
  | .ingest redeliverAfter =>
    match d.call (FragmentHandling.ofBody d.ingestor x.body) with
    | (.crashed _, d) => d.recover w x.ticket
    | (.value h, d) =>
      (.idle, { d with tally := h.tally d.tally }.settle x.ticket w.source
        (h.disposition redeliverAfter))
  | .reassembly policy outlet =>
    match d.call (HeaderHandling.ofBody d.reassembler x.body x.attempt) with
    | (.crashed _, d) => d.recover w x.ticket
    | (.value h, d) =>
      let d := { d with tally := h.tally d.tally }
      match h.packet? with
      | some p => d.handOn w.source x.ticket outlet p
      | none => (.idle, d.settle x.ticket w.source (h.disposition policy x.attempt))

/-! ### Steps of workers -/

/-- The deployment with a worker at something else. -/
def setActivity (d : Deployment) (i : Nat) (a : Activity) : Deployment :=
  { d with workers := d.workers.modify i fun w => { w with activity := a } }

/-- One step of a worker, and whether there was one to take. -/
def step (d : Deployment) (i : Nat) : Bool × Deployment :=
  match d.workers[i]? with
  | none => (false, d)
  | some w =>
    match w.activity with
    | .stopped => (false, d)
    | .sending outlet p ticket =>
      match d.handOn w.source ticket outlet p with
      | (.idle, d) => (true, d.setActivity i .idle)
      | (_, d) => (false, d)
    | .idle =>
      match d.take w.source with
      | (.pending, d) => (false, d)
      | (.closed, d) => (true, d.setActivity i .stopped)
      | (.ready x, d) =>
        match d.handle w x with
        | (a, d) => (true, d.setActivity i a)

end Deployment

end FragmentRelay
