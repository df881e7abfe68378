import FragmentRelay.Deployment.Clock
import FragmentRelay.Settings.Basic

/-!
# The workers of a deployment: started, fed and stopped

Workers are started with a subscription each and stopped together. Subscriptions are opened on the
bus or on feeds; where one is refused, the workers started before it stay. The packets of the
reassembly worker that was started last go to the newest outlet; the outlet before it is closed.
-/

namespace FragmentRelay.Deployment

/-! ### Starting -/

/-- Where subscriptions are opened: on the bus, or on feeds, of which no more are left after a
number. -/
inductive Carrier where
  | bus
  | feeds (left : Option Nat)
deriving DecidableEq

/-- Opens a subscription. -/
def openSource (d : Deployment) (subject group : String) (o : SubscribeOptions) :
    Carrier → Except Bus.SubscribeFailure (Source × Carrier) × Deployment
  | .bus =>
    match d.bus.subscribe subject group o with
    | (.error e, bus) => (.error e, { d with bus })
    | (.ok id, bus) => (.ok (.bus id, .bus), { d with bus })
  | .feeds (some 0) => (.error (.refused (.subscribe subject "refused")), d)
  | .feeds left =>
    (.ok (.feed d.feeds.length, .feeds (left.map (· - 1))),
      { d with feeds := d.feeds ++ [{ subject, group, options := o }] })

/-- Starts a number of ingest workers, up to the first whose subscription is refused. -/
def startIngest (subject : String) (s : IngestSettings) :
    Nat → Carrier → Deployment → Except Bus.SubscribeFailure Unit × Deployment
  | 0, _, d => (.ok (), d)
  | n + 1, c, d =>
    match d.openSource subject s.queueGroup s.options c with
    | (.error e, d) => (.error e, d)
    | (.ok (source, c), d) =>
      let worker : Worker := { source, role := .ingest s.redeliverAfter }
      startIngest subject s n c { d with workers := d.workers ++ [worker] }

/-- Starts the ingest workers that the settings ask for, but at least one. -/
def startIngestWorkers (d : Deployment) (c : Carrier) (subject : String) (s : IngestSettings) :
    Except Bus.SubscribeFailure Unit × Deployment :=
  startIngest subject s (max 1 s.workers.toNat) c d

/-- The deployment with the newest outlet changed. -/
def changeOutlet (d : Deployment) (f : Outlet → Outlet) : Deployment :=
  { d with outlets := d.outlets.modify (d.outlets.length - 1) f }

/-- Starts a reassembly worker with an outlet of its own. -/
def startReassemblyWorker (d : Deployment) (c : Carrier) (subject : String) (s : ReassemblySettings)
    (capacity : Nat) : Except Bus.SubscribeFailure Unit × Deployment :=
  let d := d.changeOutlet Outlet.close
  let number := d.outlets.length
  let outlet : Outlet := { capacity }
  let d := { d with outlets := d.outlets ++ [outlet] }
  match d.openSource subject s.queueGroup s.options c with
  | (.error e, d) => (.error e, d)
  | (.ok (source, _), d) =>
    let policy : PollPolicy := { backoff := s.backoff, maxDeliveries := s.maxDeliveries }
    let worker : Worker := { source, role := .reassembly policy number }
    (.ok (), { d with workers := d.workers ++ [worker] })

/-! ### Stopping -/

/-- Closes a source. -/
def closeSource (d : Deployment) : Source → Deployment
  | .bus id => { d with bus := d.bus.unsubscribe id }
  | .feed n => { d with feeds := d.feeds.modify n fun f => { f with inbox := [], isOpen := false } }

/-- Stops a worker, unless it still has a packet in hand. -/
def stopWorker (d : Deployment) (i : Nat) : Deployment :=
  match d.workers[i]? with
  | some { source, activity := .idle, .. } => (d.closeSource source).setActivity i .stopped
  | _ => d

/-- Stops all workers. -/
def shutdown (d : Deployment) : Deployment := (List.range d.workers.length).foldl stopWorker d

/-! ### Feeding and taking -/

/-- Puts a delivery into a feed, and says whether anybody will take it. -/
def feed (d : Deployment) (n : Nat) (body : Octets) (attempt : Nat) : Bool × Deployment :=
  let delivery : Bus.Delivery := { ticket := d.fed, body, attempt }
  let d := { d with fed := d.fed + 1 }
  match d.feeds[n]? with
  | none => (false, d)
  | some f =>
    if f.isOpen then
      (true, { d with feeds := d.feeds.set n { f with inbox := f.inbox ++ [delivery] } })
    else (false, d)

/-- The settlements noted since they were last asked for. -/
def takeSettled (d : Deployment) : List (Nat × Disposition) × Deployment :=
  (d.settled, { d with settled := [] })

/-- The packets in the newest outlet. -/
def packetsReady (d : Deployment) : List Packet :=
  match d.outlets.getLast? with
  | none => []
  | some o => o.packets

/-- Takes packets from the newest outlet until no worker brings another; at most as often as the
number says. -/
def drainWithin : Nat → List Packet → Deployment → List Packet × Deployment
  | 0, taken, d => (taken, d)
  | n + 1, taken, d =>
    match d.packetsReady with
    | [] => (taken, d)
    | ps => drainWithin n (taken ++ ps) (d.changeOutlet Outlet.emptied).quiesce

/-- Takes all packets, also those of workers that wait with one in hand, in the order of their
nonces. -/
def drain (d : Deployment) : List Packet × Deployment :=
  match drainWithin d.patience [] d with
  | (ps, d) => (ps.mergeSort fun p q => decide (p.header.nonce ≤ q.header.nonce), d)

end FragmentRelay.Deployment
