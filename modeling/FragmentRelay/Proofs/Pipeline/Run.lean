import FragmentRelay.Deployment.Workers
import FragmentRelay.Proofs.Bus.View
import FragmentRelay.Proofs.Pipeline.Handling
import Mathlib.Tactic.Common

/-!
# Runs: a deployment whose workers take turns in any order

A pipeline is a deployment with a log of what its workers handled. Messages are published, time
passes, and workers take steps, in any order; the receiver takes every packet as soon as it comes
out. `Wired` says how a deployment of settings is put together, with the view of its two groups, and
every event keeps that.

* `Wired.publish`, `Wired.wait`: what publishing and passing time do to the groups.
* `Wired.work`: a step of a worker brings nothing and changes nothing, or handles the first message
  of its group.
-/

namespace FragmentRelay

/-! ### Events -/

/-- What can happen to a deployment: something is published, a worker takes a step, or time
passes. -/
inductive Event where
  | publish (subject : String) (body : Octets)
  | work (worker : Nat)
  | wait (instant : Instant)
deriving DecidableEq

/-- A step of a worker: the message that it took, if there was one, and the packets that came
out. -/
structure Handled where
  instant : Instant
  worker : Nat
  envelope : Option Bus.Envelope
  packets : List Packet
deriving DecidableEq

/-- A deployment and the steps of its workers so far. -/
structure Pipeline where
  deployment : Deployment
  log : List Handled := []

/-- The message that a worker takes in its next step, if it takes one. -/
def Deployment.upcoming (d : Deployment) (i : Nat) : Option Bus.Envelope :=
  match d.workers[i]? with
  | some { source := .bus id, activity := .idle, .. } =>
    match d.bus.poll d.now id, d.bus.subscriber? id with
    | (.ready _, _), some s => (d.bus.group? s.topic s.group).bind (·.queue.head?)
    | _, _ => none
  | _ => none

namespace Pipeline

/-- One event. The receiver takes the packets that a step of a worker brings out. -/
def next (p : Pipeline) : Event → Pipeline
  | .publish subject body =>
    match p.deployment.bus.publish subject body with
    | .ok bus => { p with deployment := { p.deployment with bus } }
    | .error _ => p
  | .work i =>
    { deployment := (p.deployment.step i).2.changeOutlet Outlet.emptied
      log := p.log ++
        [⟨p.deployment.now, i, p.deployment.upcoming i, (p.deployment.step i).2.packetsReady⟩] }
  | .wait t =>
    { p with deployment := { p.deployment with
        now := max p.deployment.now t
        bus := p.deployment.bus.fire (max p.deployment.now t) } }

/-- Some events in a row. -/
def run (d : Deployment) (events : List Event) : Pipeline := events.foldl next { deployment := d }

/-- The messages that are published on a subject, in order. -/
def published (subject : String) (events : List Event) : List Octets :=
  events.filterMap fun
    | .publish s body => if s = subject then some body else none
    | _ => none

theorem run_append_singleton (d : Deployment) (events : List Event) (e : Event) :
    run d (events ++ [e]) = (run d events).next e := by
  simp [run]

theorem published_append (subject : String) (events more : List Event) :
    published subject (events ++ more) = published subject events ++ published subject more :=
  List.filterMap_append

theorem published_append_work (subject : String) (events : List Event) (i : Nat) :
    published subject (events ++ [.work i]) = published subject events := by
  rw [published_append]
  exact List.append_nil _

theorem published_append_wait (subject : String) (events : List Event) (t : Instant) :
    published subject (events ++ [.wait t]) = published subject events := by
  rw [published_append]
  exact List.append_nil _

end Pipeline

/-! ### The parts of a deployment -/

/-- The group of a subject after a publication on a subject. -/
def Bus.Group.afterPublication (g : Bus.Group) (own subject : String) (body : Octets) : Bus.Group :=
  if own = subject then g.handOver body else g

namespace Bus.Group

variable {g : Bus.Group} {own subject : String} {body : Octets}

theorem Resting.afterPublication {n : Nat} (h : g.Resting n) :
    (g.afterPublication own subject body).Resting n := by
  unfold Group.afterPublication
  split
  · exact h.handOver body
  · exact h

theorem Spares.afterPublication {kind : Octets → Prop} {n : Nat}
    (h : g.Spares kind n) (hn : 1 ≤ n) : (g.afterPublication own subject body).Spares kind n := by
  unfold Group.afterPublication
  split
  · exact h.handOver hn body
  · exact h

theorem acknowledged_afterPublication :
    (g.afterPublication own subject body).acknowledged = g.acknowledged := by
  unfold afterPublication
  split <;> rfl

theorem Carries.afterPublication {events : List Event}
    (h : g.Carries (Pipeline.published own events)) :
    (g.afterPublication own subject body).Carries
      (Pipeline.published own (events ++ [.publish subject body])) := by
  rw [Pipeline.published_append]
  unfold Group.afterPublication
  split
  · rename_i he
    have hlast : Pipeline.published own [.publish subject body] = [body] := by
      simp [Pipeline.published, he]
    rw [hlast]
    exact h.handOver body
  · rename_i hne
    have hlast : Pipeline.published own [.publish subject body] = [] := by
      simp [Pipeline.published, Ne.symm hne]
    rw [hlast, List.append_nil]
    exact h

end Bus.Group

namespace Settings

/-- The number of ingest workers. -/
def crew (s : Settings) : Nat := max 1 s.ingest.workers.toNat

/-- An ingest worker on its subscription. -/
def ingestWorker (s : Settings) (i : Nat) : Worker :=
  { source := .bus i, role := .ingest s.ingest.redeliverAfter }

/-- When the reassembly worker tries again. -/
def policy (s : Settings) : PollPolicy :=
  { backoff := s.reassembly.backoff, maxDeliveries := s.reassembly.maxDeliveries }

/-- The reassembly worker on its subscription. -/
def headerWorker (s : Settings) (i : Nat) : Worker :=
  { source := .bus i, role := .reassembly s.policy 0 }

/-- What an ingest worker makes of a message, and of the store. -/
def ingestMessage (s : Settings) (now : Instant) (st : Store) (e : Bus.Envelope) :
    Outcome FragmentHandling × Store :=
  (FragmentHandling.ofBody { keys := s.keys } e.body).alone now st

/-- What the reassembly worker makes of a message, and of the store. -/
def tryMessage (s : Settings) (now : Instant) (st : Store) (e : Bus.Envelope) :
    Outcome HeaderHandling × Store :=
  (HeaderHandling.ofBody { keys := s.keys } e.body e.attempt).alone now st

/-- How an ingest worker settles a delivery. -/
def settleFragment (s : Settings) : Outcome FragmentHandling → Disposition
  | .value h => h.disposition s.ingest.redeliverAfter
  | .crashed _ => .nack s.ingest.redeliverAfter

/-- How the reassembly worker settles a delivery. -/
def settleHeader (s : Settings) (attempt : Nat) : Outcome HeaderHandling → Disposition
  | .value h => if h.packet?.isSome then .ack else h.disposition s.policy attempt
  | .crashed _ => .nack s.policy.backoff.initial

end Settings

/-- **An ingest worker settles a delivery as its handling ends.** -/
theorem Deployment.handle_ingest (d : Deployment) {worker : Worker} {after : Span}
    (hrole : worker.role = .ingest after) (x : Bus.Delivery) :
    ∃ tally, d.handle worker x = (.idle,
      { (d.call (FragmentHandling.ofBody d.ingestor x.body)).2 with tally }.settle
        x.ticket worker.source
        (FragmentHandling.settledAs after
          (d.call (FragmentHandling.ofBody d.ingestor x.body)).1)) := by
  simp only [handle, hrole]
  split
  · rename_i hcall
    rw [hcall]
    exact ⟨_, by rw [recover, hrole]; rfl⟩
  · rename_i hcall
    rw [hcall]
    exact ⟨_, rfl⟩

/-- A deployment as its settings put it together, with nobody at work and no packet waiting. -/
structure Wired (s : Settings) (capacity : Nat) (d : Deployment)
    (fragments headers : Bus.Group) : Prop where
  ingestor_eq : d.ingestor = { keys := s.keys }
  reassembler_eq : d.reassembler = { keys := s.keys }
  outage_eq : d.outage = {}
  outlets_eq : d.outlets = [{ capacity }]
  workers_eq : d.workers = (List.range s.crew).map s.ingestWorker ++ [s.headerWorker s.crew]
  open_eq : d.bus.closed = false
  holdings_eq : d.bus.holdings = []
  subscription_eq : ∀ i < s.crew,
    d.bus.subscription? i = some ⟨i, s.subjects.fragmentIngest, s.ingest.queueGroup,
      s.ingest.options, 0⟩
  header_subscription_eq :
    d.bus.subscription? s.crew = some ⟨s.crew, s.subjects.reassembly, s.reassembly.queueGroup,
      s.reassembly.options, 0⟩
  fragments_eq : d.bus.view s.subjects.fragmentIngest s.ingest.queueGroup = some fragments
  headers_eq : d.bus.view s.subjects.reassembly s.reassembly.queueGroup = some headers
  fragments_resting : fragments.Resting s.ingest.maxDeliveries.toNat
  headers_resting : headers.Resting s.reassembly.maxDeliveries.toNat

namespace Wired

variable {s : Settings} {capacity : Nat} {d : Deployment} {F H : Bus.Group}

/-- A change of the bus alone, with its subscriptions as they were. -/
theorem change (h : Wired s capacity d F H) {F' H' : Bus.Group} {d' : Deployment}
    (hi : d'.ingestor = d.ingestor) (hr : d'.reassembler = d.reassembler)
    (ho : d'.outage = d.outage) (hout : d'.outlets = d.outlets) (hw : d'.workers = d.workers)
    (hopen : d'.bus.closed = d.bus.closed) (hhold : d'.bus.holdings = d.bus.holdings)
    (hsub : ∀ i, d'.bus.subscription? i = d.bus.subscription? i)
    (hF : d'.bus.view s.subjects.fragmentIngest s.ingest.queueGroup = some F')
    (hH : d'.bus.view s.subjects.reassembly s.reassembly.queueGroup = some H')
    (hFr : F'.Resting s.ingest.maxDeliveries.toNat)
    (hHr : H'.Resting s.reassembly.maxDeliveries.toNat) :
    Wired s capacity d' F' H' where
  ingestor_eq := hi.trans h.ingestor_eq
  reassembler_eq := hr.trans h.reassembler_eq
  outage_eq := ho.trans h.outage_eq
  outlets_eq := hout.trans h.outlets_eq
  workers_eq := hw.trans h.workers_eq
  open_eq := hopen.trans h.open_eq
  holdings_eq := hhold.trans h.holdings_eq
  subscription_eq i hi := (hsub i).trans (h.subscription_eq i hi)
  header_subscription_eq := (hsub _).trans h.header_subscription_eq
  fragments_eq := hF
  headers_eq := hH
  fragments_resting := hFr
  headers_resting := hHr

/-- **A publication is handed to the group of its subject.** -/
theorem publish (h : Wired s capacity d F H) (subject : String) (body : Octets)
    (log : List Handled) :
    ∃ d', Pipeline.next ⟨d, log⟩ (.publish subject body) = ⟨d', log⟩ ∧ d'.store = d.store ∧
      Wired s capacity d' (F.afterPublication s.subjects.fragmentIngest subject body)
        (H.afterPublication s.subjects.reassembly subject body) := by
  have hok : ∃ bus, d.bus.publish subject body = .ok bus := by
    simp [Bus.publish, h.open_eq]
  obtain ⟨bus, hbus⟩ := hok
  have hview := Bus.view_publish hbus
  have hrest : bus.closed = d.bus.closed ∧ bus.holdings = d.bus.holdings ∧
      bus.subscribers = d.bus.subscribers := by
    simp only [Bus.publish, h.open_eq, Bool.false_eq_true, if_false, Except.ok.injEq] at hbus
    subst hbus
    exact ⟨h.open_eq.symm, rfl, rfl⟩
  refine ⟨{ d with bus }, by simp [Pipeline.next, hbus], rfl,
    h.change rfl rfl rfl rfl rfl hrest.1 hrest.2.1
      (fun i => ?_) ?_ ?_ h.fragments_resting.afterPublication
      h.headers_resting.afterPublication⟩
  · simp [Bus.subscription?, Bus.subscriber?, hrest.2.2]
  · rw [hview, h.fragments_eq, Bus.Group.afterPublication]
    split <;> rfl
  · rw [hview, h.headers_eq, Bus.Group.afterPublication]
    split <;> rfl

/-- **When time passes, the timers of both groups run out.** -/
theorem wait (h : Wired s capacity d F H) (t : Instant) (log : List Handled) :
    ∃ d', Pipeline.next ⟨d, log⟩ (.wait t) = ⟨d', log⟩ ∧ d'.store = d.store ∧
      Wired s capacity d' (F.fire (max d.now t)) (H.fire (max d.now t)) :=
  ⟨_, rfl, rfl, h.change rfl rfl rfl rfl rfl rfl rfl (fun _ => rfl)
    (by rw [Bus.view_fire, h.fragments_eq]; rfl)
    (by rw [Bus.view_fire, h.headers_eq]; rfl) (h.fragments_resting.fire _)
    (h.headers_resting.fire _)⟩

/-! ### Steps of workers -/

theorem passing_outage : Access.Passing Outage.rule {} := by
  intro r
  cases r with
  | get key => rfl
  | set key => rfl
  | increment key => simp [Outage.rule]

theorem call_eq {d : Deployment} (ho : d.outage = {}) {α : Type} (a : Access α) :
    d.call a = ((a.alone d.now d.store).1, { d with store := (a.alone d.now d.store).2 }) := by
  simp only [Deployment.call, ho, Access.run_of_passing passing_outage]

theorem settle_bus (d : Deployment) (ticket id : Nat) (disposition : Disposition) :
    d.settle ticket (.bus id) disposition =
      { d with bus := d.bus.settleAs d.now ticket disposition } := by
  cases disposition <;> rfl

theorem setActivity_idle {d : Deployment} {i : Nat} {w : Worker} (hw : d.workers[i]? = some w)
    (hidle : w.activity = .idle) : d.setActivity i .idle = d := by
  have hm : (d.workers.modify i fun w => { w with activity := .idle }) = d.workers := by
    refine List.ext_getElem? fun j => ?_
    rw [List.getElem?_modify]
    by_cases hj : i = j
    · subst hj
      simp [hw, ← hidle]
    · simp [hj]
  rw [Deployment.setActivity, hm]

theorem recover_bus (d : Deployment) (id : Nat) (role : Role) (activity : Activity) (ticket : Nat) :
    d.recover ⟨.bus id, role, activity⟩ ticket =
      (.idle, { d with
        tally := d.tally.addCrash
        bus := d.bus.settleAs d.now ticket (.nack role.crashDelay) }) := rfl

theorem handle_fragment (s : Settings) (id : Nat) {d : Deployment} (ho : d.outage = {})
    (x : Bus.Delivery) :
    let a := (FragmentHandling.ofBody d.ingestor x.body).alone d.now d.store
    ∃ tally, d.handle (s.ingestWorker id) x = (.idle, { d with
      store := a.2
      tally := tally
      bus := d.bus.settleAs d.now x.ticket (s.settleFragment a.1) }) := by
  have hsettle : ∀ a,
      s.settleFragment a = FragmentHandling.settledAs s.ingest.redeliverAfter a := fun a => by
    cases a <;> rfl
  have hrole : (s.ingestWorker id).role = .ingest s.ingest.redeliverAfter := rfl
  have hsource : (s.ingestWorker id).source = .bus id := rfl
  obtain ⟨tally, hhandle⟩ := d.handle_ingest hrole x
  rw [call_eq ho, hsource, settle_bus, ← hsettle] at hhandle
  exact ⟨tally, hhandle⟩

/-- What the reassembly worker does with a delivery, where its outlet is empty and requests may
fail. -/
theorem handle_reassembly (s : Settings) (id : Nat) {d : Deployment}
    (hout : d.outlets = [{ capacity }]) (hcap : 0 < capacity) (x : Bus.Delivery) :
    let c := d.call (HeaderHandling.ofBody d.reassembler x.body x.attempt)
    ∃ tally, d.handle (s.headerWorker id) x = (.idle, { c.2 with
      tally, bus := d.bus.settleAs d.now x.ticket (s.settleHeader x.attempt c.1)
      outlets := [{ capacity, packets := c.1.packets }] }) := by
  unfold Settings.headerWorker Settings.settleHeader
  generalize s.policy = policy
  simp only [Deployment.handle, Deployment.call]
  rcases (HeaderHandling.ofBody d.reassembler x.body x.attempt).run Outage.rule d.now
      d.outage d.store with
    ⟨h | text, outage, st⟩
  · cases hp : h.packet? with
    | none => exact ⟨h.tally d.tally, by simp [hp, settle_bus, Outcome.packets, hout]⟩
    | some p =>
      refine ⟨h.tally d.tally, ?_⟩
      simp [Deployment.handOn, Outlet.offer, hp, settle_bus, Outcome.packets, hout, hcap]
  · refine ⟨d.tally.addCrash, ?_⟩
    simp only [recover_bus, Outcome.packets]
    rw [Role.crashDelay, hout]

theorem handle_header (s : Settings) (id : Nat) {d : Deployment} (ho : d.outage = {})
    (hout : d.outlets = [{ capacity }]) (hcap : 0 < capacity) (x : Bus.Delivery) :
    let a := (HeaderHandling.ofBody d.reassembler x.body x.attempt).alone d.now d.store
    ∃ tally, d.handle (s.headerWorker id) x = (.idle, { d with
      store := a.2, tally := tally, bus :=
        d.bus.settleAs d.now x.ticket (s.settleHeader x.attempt a.1)
      outlets := [{ capacity, packets := a.1.packets }] }) := by
  obtain ⟨tally, hhandle⟩ := handle_reassembly s id hout hcap x
  rw [call_eq ho] at hhandle
  exact ⟨tally, hhandle⟩

/-! ### What a step of a worker can do -/

variable {i id : Nat} {role : Role} {x : Bus.Delivery} {bus : Bus}

theorem step_of_ready {w : Worker} (hw : d.workers[i]? = some w) (hidle : w.activity = .idle)
    (hsource : w.source = .bus id) (hp : d.bus.poll d.now id = (.ready x, bus)) :
    (d.step i).2 = ({ d with bus }.handle w x).2.setActivity i ({ d with bus }.handle w x).1 := by
  simp only [Deployment.step, hw, hidle, hsource, Deployment.take, hp]

theorem step_of_pending {w : Worker} (hw : d.workers[i]? = some w) (hidle : w.activity = .idle)
    (hsource : w.source = .bus id) (hp : d.bus.poll d.now id = (.pending, bus)) :
    (d.step i).2 = { d with bus } := by
  simp only [Deployment.step, hw, hidle, hsource, Deployment.take, hp]

theorem upcoming_of_ready (hw : d.workers[i]? = some ⟨.bus id, role, .idle⟩) {u : Bus.Subscriber}
    (hu : d.bus.subscriber? id = some u) {g : Bus.Group} {e : Bus.Envelope}
    {rest : List Bus.Envelope} (hp : d.bus.poll d.now id = (.ready x, bus))
    (ht : d.bus.Taken bus d.now u g e rest) : d.upcoming i = some e := by
  have hbefore := ht.before
  rw [Bus.view, Option.map_eq_some_iff] at hbefore
  obtain ⟨g₀, hg₀, rfl⟩ := hbefore
  have hq : g₀.queue = e :: rest := ht.queue_eq
  simp only [Deployment.upcoming, hw, hp, hu, hg₀, Option.bind_some, hq, List.head?_cons]

theorem upcoming_of_pending (hw : d.workers[i]? = some ⟨.bus id, role, .idle⟩)
    (hp : d.bus.poll d.now id = (.pending, bus)) : d.upcoming i = none := by
  simp only [Deployment.upcoming, hw, hp]

/-- What a step of a worker can do: nothing, or handle and settle the first message of its group. -/
inductive Worked (s : Settings) (capacity : Nat) (d : Deployment) (F H : Bus.Group) (i : Nat) :
    Handled → Deployment → Prop
  | nothing (d' : Deployment) (store_eq : d'.store = d.store) (wired : Wired s capacity d' F H) :
    Worked s capacity d F H i ⟨d.now, i, none, []⟩ d'
  | fragment (e : Bus.Envelope) (rest : List Bus.Envelope) (d' : Deployment) (lt_crew : i < s.crew)
    (queue_eq : F.queue = e :: rest) (store_eq : d'.store = (s.ingestMessage d.now d.store e).2)
    (wired : Wired s capacity d' (F.finish d.now e rest s.ingest.maxDeliveries.toNat
      (s.settleFragment (s.ingestMessage d.now d.store e).1)) H) :
    Worked s capacity d F H i ⟨d.now, i, some e, []⟩ d'
  | header (e : Bus.Envelope) (rest : List Bus.Envelope) (d' : Deployment) (eq_crew : i = s.crew)
    (queue_eq : H.queue = e :: rest) (store_eq : d'.store = (s.tryMessage d.now d.store e).2)
    (wired : Wired s capacity d' F (H.finish d.now e rest s.reassembly.maxDeliveries.toNat
      (s.settleHeader e.attempt (s.tryMessage d.now d.store e).1))) :
    Worked s capacity d F H i ⟨d.now, i, some e, (s.tryMessage d.now d.store e).1.packets⟩ d'

theorem exists_subscriber {u : Bus.Subscriber} (h : d.bus.subscription? id = some u) :
    ∃ v, d.bus.subscriber? id = some v ∧ v.topic = u.topic ∧ v.group = u.group ∧
      v.options = u.options := by
  rw [Bus.subscription?, Option.map_eq_some_iff] at h
  obtain ⟨v, hv, rfl⟩ := h
  exact ⟨v, hv, rfl, rfl, rfl⟩

/-- The deployment after a step that put packets into the outlet, and after these were taken. -/
theorem stepped (h : Wired s capacity d F H) {F' H' : Bus.Group} {st : Store} {tally : Tally}
    {packets : List Packet} {upcoming : Option Bus.Envelope} {except : String → String → Prop}
    (hup : d.upcoming i = upcoming) (hstep : (d.step i).2 =
      { d with store := st, tally := tally, bus := bus, outlets := [{ capacity, packets }] })
    (ha : Bus.Alike d.bus bus except)
    (hF : bus.view s.subjects.fragmentIngest s.ingest.queueGroup = some F')
    (hH : bus.view s.subjects.reassembly s.reassembly.queueGroup = some H')
    (hFr : F'.Resting s.ingest.maxDeliveries.toNat)
    (hHr : H'.Resting s.reassembly.maxDeliveries.toNat)
    (log : List Handled) :
    ∃ d', Pipeline.next ⟨d, log⟩ (.work i) =
      ⟨d', log ++ [⟨d.now, i, upcoming, packets⟩]⟩ ∧ d'.store = st ∧
      Wired s capacity d' F' H' := by
  have hnext : Pipeline.next ⟨d, log⟩ (.work i) =
      ⟨(d.step i).2.changeOutlet Outlet.emptied,
        log ++ [⟨d.now, i, d.upcoming i, (d.step i).2.packetsReady⟩]⟩ := rfl
  rw [hnext, hup, hstep]
  exact ⟨_, rfl, rfl,
    h.change rfl rfl rfl h.outlets_eq.symm rfl ha.closed_eq ha.holdings_eq ha.subscription_eq hF hH
    hFr hHr⟩

/-- A worker without a number does nothing. -/
theorem absent (h : Wired s capacity d F H) (hw : d.workers[i]? = none) (log : List Handled) :
    ∃ x d', Pipeline.next ⟨d, log⟩ (.work i) = ⟨d', log ++ [x]⟩ ∧
      Worked s capacity d F H i x d' := by
  have hstep : (d.step i).2 = { d with outlets := [{ capacity }] } := by
    simp only [Deployment.step, hw, ← h.outlets_eq]
  have hup : d.upcoming i = none := by simp only [Deployment.upcoming, hw]
  obtain ⟨d', hnext, hstore, hwired⟩ :=
    h.stepped hup hstep (Bus.Alike.refl d.bus) h.fragments_eq h.headers_eq
    h.fragments_resting h.headers_resting log
  exact ⟨_, d', hnext, .nothing d' hstore hwired⟩

/-- A poll that brings nothing leaves everything as it was. -/
theorem pending (h : Wired s capacity d F H) (hw : d.workers[i]? = some ⟨.bus id, role, .idle⟩)
    (hp : d.bus.poll d.now id = (.pending, bus)) (ha : Bus.Alike d.bus bus fun _ _ => False)
    (log : List Handled) :
    ∃ x d', Pipeline.next ⟨d, log⟩ (.work i) = ⟨d', log ++ [x]⟩ ∧
      Worked s capacity d F H i x d' := by
  have hstep : (d.step i).2 = { d with bus, outlets := [{ capacity }] } := by
    rw [step_of_pending hw rfl rfl hp, ← h.outlets_eq]
  obtain ⟨d', hnext, hstore, hwired⟩ := h.stepped (upcoming_of_pending hw hp) hstep ha
    ((ha.view_eq _ _ not_false).trans h.fragments_eq)
    ((ha.view_eq _ _ not_false).trans h.headers_eq)
    h.fragments_resting h.headers_resting log
  exact ⟨_, d', hnext, .nothing d' hstore hwired⟩

theorem step_fragment {g : Ingestor} (hg : d.ingestor = g) (ho : d.outage = {})
    (hout : d.outlets = [{ capacity }]) (hw : d.workers[i]? = some (s.ingestWorker id))
    (hp : d.bus.poll d.now id = (.ready x, bus)) :
    let a := (FragmentHandling.ofBody g x.body).alone d.now d.store
    ∃ tally, (d.step i).2 = { d with
      store := a.2, tally := tally, bus := bus.settleAs d.now x.ticket (s.settleFragment a.1)
      outlets := [{ capacity }] } := by
  subst hg
  obtain ⟨tally, hhandle⟩ := handle_fragment s id (d := { d with bus }) ho x
  rw [step_of_ready hw rfl rfl hp, hhandle, ← hout]
  exact ⟨tally, setActivity_idle hw rfl⟩

theorem step_header {m : Reassembler} (hm : d.reassembler = m) (ho : d.outage = {})
    (hout : d.outlets = [{ capacity }]) (hcap : 0 < capacity)
    (hw : d.workers[i]? = some (s.headerWorker id)) (hp : d.bus.poll d.now id = (.ready x, bus)) :
    let a := (HeaderHandling.ofBody m x.body x.attempt).alone d.now d.store
    ∃ tally, (d.step i).2 = { d with
      store := a.2, tally := tally, bus :=
        bus.settleAs d.now x.ticket (s.settleHeader x.attempt a.1)
      outlets := [{ capacity, packets := a.1.packets }] } := by
  subst hm
  obtain ⟨tally, hhandle⟩ := handle_header s id (d := { d with bus }) ho hout hcap x
  rw [step_of_ready hw rfl rfl hp, hhandle]
  exact ⟨tally, setActivity_idle hw rfl⟩

/-- **Everything that a step of a worker can do.** -/
theorem work (h : Wired s capacity d F H) (hcap : 0 < capacity)
    (hne : s.subjects.reassembly ≠ s.subjects.fragmentIngest) (i : Nat) (log : List Handled) :
    ∃ x d', Pipeline.next ⟨d, log⟩ (.work i) = ⟨d', log ++ [x]⟩ ∧
      Worked s capacity d F H i x d' := by
  rcases Nat.lt_trichotomy i s.crew with hi | hi | hi
  · have hw : d.workers[i]? = some (s.ingestWorker i) := by
      rw [h.workers_eq, List.getElem?_append_left (by simpa using hi)]
      simp [hi]
    obtain ⟨u, hu, htopic, hgroup, hoptions⟩ := exists_subscriber (h.subscription_eq i hi)
    rcases Bus.poll_cases hu h.open_eq with ⟨b', hp, ha⟩ | ⟨b', g, e, rest, hp, ht⟩
    · exact h.pending hw hp ha log
    · obtain rfl : F = g := by
        have hbefore := ht.before
        rw [htopic, hgroup, h.fragments_eq] at hbefore
        exact Option.some.inj hbefore
      obtain ⟨tally, hstep⟩ := step_fragment h.ingestor_eq h.outage_eq h.outlets_eq hw hp
      obtain ⟨hview, ha⟩ := ht.settle h.holdings_eq (fun t hm => (h.fragments_resting t hm).1)
        (s.settleFragment (s.ingestMessage d.now d.store e).1)
      rw [htopic, hgroup, hoptions] at hview
      have hother := ha.view_eq s.subjects.reassembly s.reassembly.queueGroup fun he =>
        hne (he.1.trans htopic)
      obtain ⟨d', hnext, hstore, hwired⟩ := h.stepped (upcoming_of_ready hw hu hp ht) hstep ha hview
        (hother.trans h.headers_eq) (h.fragments_resting.finish _ _ _ _) h.headers_resting log
      exact ⟨_, d', hnext, .fragment e rest d' hi ht.queue_eq hstore hwired⟩
  · subst hi
    have hw : d.workers[s.crew]? = some (s.headerWorker s.crew) := by
      rw [h.workers_eq, List.getElem?_append_right (by simp)]
      simp
    obtain ⟨u, hu, htopic, hgroup, hoptions⟩ := exists_subscriber h.header_subscription_eq
    rcases Bus.poll_cases hu h.open_eq with ⟨b', hp, ha⟩ | ⟨b', g, e, rest, hp, ht⟩
    · exact h.pending hw hp ha log
    · obtain rfl : H = g := by
        have hbefore := ht.before
        rw [htopic, hgroup, h.headers_eq] at hbefore
        exact Option.some.inj hbefore
      obtain ⟨tally, hstep⟩ := step_header h.reassembler_eq h.outage_eq h.outlets_eq hcap hw hp
      obtain ⟨hview, ha⟩ := ht.settle h.holdings_eq (fun t hm => (h.headers_resting t hm).1)
        (s.settleHeader e.attempt (s.tryMessage d.now d.store e).1)
      rw [htopic, hgroup, hoptions] at hview
      have hother := ha.view_eq s.subjects.fragmentIngest s.ingest.queueGroup fun he =>
        hne (htopic.symm.trans he.1.symm)
      obtain ⟨d', hnext, hstore, hwired⟩ := h.stepped (upcoming_of_ready hw hu hp ht) hstep ha
        (hother.trans h.fragments_eq) hview h.fragments_resting
          (h.headers_resting.finish _ _ _ _) log
      exact ⟨_, d', hnext, .header e rest d' rfl ht.queue_eq hstore hwired⟩
  · refine h.absent ?_ log
    rw [h.workers_eq, List.getElem?_eq_none_iff]
    simp only [List.length_append, List.length_map, List.length_range, List.length_singleton]
    omega

end Wired

end FragmentRelay
