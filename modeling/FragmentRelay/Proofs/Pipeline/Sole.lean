import FragmentRelay.Proofs.Bus.Lone
import FragmentRelay.Proofs.Pipeline.Start

/-!
# Sole: a deployment whose one worker handles headers

Only the reassembly worker is started, on an empty bus. Then there is one group, and its worker has
the bus to itself: whenever a message is queued, the next step of the worker takes it and settles it
at once (`Sole`).

* `Sole.start`: the deployment that was just started.
* `Sole.publish`, `Sole.wait`: publishing and passing time.
* `Sole.rest`, `Sole.work`: a step of the worker, where no message is queued and where one is.
-/

namespace FragmentRelay

/-- A deployment whose only worker handles headers, with its group, nobody at work and no packet
waiting. -/
structure Sole (s : Settings) (capacity : Nat) (d : Deployment) (g : Bus.Group) : Prop where
  reassembler_eq : d.reassembler = { keys := s.keys, ttl := s.ttl }
  outlets_eq : d.outlets = [{ capacity }]
  workers_eq : d.workers = [s.headerWorker 0]
  bus_eq : ∃ ticket waiting, d.bus =
    Bus.lone s.subjects.reassembly s.reassembly.options ticket waiting g
  name_eq : g.name = s.reassembly.queueGroup
  resting : g.Resting s.reassembly.maxDeliveries.toNat

namespace Sole

variable {s : Settings} {capacity : Nat} {d : Deployment} {p : Pipeline} {g : Bus.Group}

/-- **A deployment that was just started is sole, and nothing was handed to its group.** -/
theorem start {dedupe : Bool}
    (h : (Deployment.initial s.keys s.ttl dedupe).startReassemblyWorker .bus
      s.subjects.reassembly s.reassembly capacity = (.ok (), d)) :
    Sole s capacity d { name := s.reassembly.queueGroup } ∧ d.now = 0 := by
  simp only [Deployment.startReassemblyWorker] at h
  split at h
  · cases h
  · rename_i source c' d₁ ho
    cases h
    obtain ⟨rfl, -, rfl⟩ := Crewed.openSource_ok ho
    refine ⟨⟨rfl, rfl, rfl, ⟨0, false, ?_⟩, rfl, fun t ht => absurd ht List.not_mem_nil⟩, rfl⟩
    simp [Deployment.initial, Deployment.changeOutlet, Bus.found, Bus.changeTopic,
      Crewed.join_fresh, Bus.lone]

theorem publish (h : Sole s capacity p.deployment g) (body : Octets) :
    Sole s capacity (p.next (.publish s.subjects.reassembly body)).deployment (g.handOver body) ∧
      (p.next (.publish s.subjects.reassembly body)).deployment.now = p.deployment.now ∧
      (p.next (.publish s.subjects.reassembly body)).log = p.log := by
  obtain ⟨ticket, waiting, hbus⟩ := h.bus_eq
  have hnext : p.next (.publish s.subjects.reassembly body) =
      { p with deployment := { p.deployment with
        bus := Bus.lone s.subjects.reassembly s.reassembly.options ticket waiting
          (g.handOver body) } } := by
    simp only [Pipeline.next, hbus, Bus.publish_lone]
  rw [hnext]
  exact ⟨⟨h.reassembler_eq, h.outlets_eq, h.workers_eq, ⟨ticket, waiting, rfl⟩, h.name_eq,
    h.resting.handOver body⟩, rfl, rfl⟩

theorem wait (h : Sole s capacity p.deployment g) (t : Instant) :
    Sole s capacity (p.next (.wait t)).deployment (g.fire (max p.deployment.now t)) := by
  obtain ⟨ticket, waiting, hbus⟩ := h.bus_eq
  refine ⟨h.reassembler_eq, h.outlets_eq, h.workers_eq, ⟨ticket, waiting, ?_⟩, ?_, h.resting.fire _⟩
  · rw [← Bus.fire_lone, ← hbus]
    rfl
  · rw [Bus.name_fire, h.name_eq]

theorem rest (h : Sole s capacity p.deployment g) (hslots : 0 < s.reassembly.options.maxInFlight)
    (hq : g.queue = []) :
    Sole s capacity (p.next (.work 0)).deployment g ∧
      (p.next (.work 0)).deployment.now = p.deployment.now ∧
      (p.next (.work 0)).log = p.log ++ [⟨p.deployment.now, 0, none, []⟩] := by
  obtain ⟨ticket, waiting, hbus⟩ := h.bus_eq
  have hw : p.deployment.workers[0]? = some (s.headerWorker 0) := by rw [h.workers_eq]; rfl
  have hpoll : p.deployment.bus.poll p.deployment.now 0 =
      (.pending, Bus.lone s.subjects.reassembly s.reassembly.options ticket true g) := by
    rw [hbus]
    exact Bus.poll_lone_empty hslots hq _
  have hstep := Wired.step_of_pending hw rfl rfl hpoll
  simp only [Pipeline.next, hstep, Wired.upcoming_of_pending hw hpoll]
  refine ⟨⟨h.reassembler_eq, ?_, h.workers_eq, ⟨ticket, true, rfl⟩, h.name_eq, h.resting⟩, rfl, ?_⟩
  · simp only [Deployment.changeOutlet, h.outlets_eq]
    rfl
  · simp [Deployment.packetsReady, h.outlets_eq]

/-- **Where a message is queued, a step of the worker takes it and settles it.** -/
theorem work (h : Sole s capacity p.deployment g) (hslots : 0 < s.reassembly.options.maxInFlight)
    (hcap : 0 < capacity) {e : Bus.Envelope} {rest : List Bus.Envelope} (hq : g.queue = e :: rest) :
    let a := (p.deployment.call (HeaderHandling.ofBody p.deployment.reassembler e.body e.attempt)).1
    Sole s capacity (p.next (.work 0)).deployment
        (g.finish p.deployment.now e rest s.reassembly.maxDeliveries.toNat
          (s.settleHeader e.attempt a)) ∧
      (p.next (.work 0)).deployment.now = p.deployment.now ∧
      (p.next (.work 0)).log = p.log ++ [⟨p.deployment.now, 0, some e, a.packets⟩] := by
  intro a
  obtain ⟨ticket, waiting, hbus⟩ := h.bus_eq
  have hw : p.deployment.workers[0]? = some (s.headerWorker 0) := by rw [h.workers_eq]; rfl
  let taken :=
    Bus.loneTaken s.subjects.reassembly s.reassembly.options ticket p.deployment.now g e rest
  have hpoll : p.deployment.bus.poll p.deployment.now 0 =
      (.ready ⟨ticket, e.body, e.attempt⟩, taken) := by
    rw [hbus]
    exact Bus.poll_lone_ready hslots hq _
  have hup : p.deployment.upcoming 0 = some e := by
    have hsub : p.deployment.bus.subscriber? 0 =
        some ⟨0, s.subjects.reassembly, g.name, s.reassembly.options,
          if waiting then s.reassembly.options.maxInFlight - 1
          else s.reassembly.options.maxInFlight⟩ := by
      rw [hbus]
      exact Bus.subscriber?_lone
    have hgroup : p.deployment.bus.group? s.subjects.reassembly g.name =
        some { g with turn := if waiting then [0] else [] } := by
      rw [hbus]
      exact Bus.group?_lone
    simp only [Deployment.upcoming, hw, Settings.headerWorker, hpoll, hsub, hgroup,
      Option.bind_some, hq, List.head?_cons]
  obtain ⟨tally, hhandle⟩ :=
    Wired.handle_reassembly s 0 (d := { p.deployment with bus := taken }) h.outlets_eq hcap
    ⟨ticket, e.body, e.attempt⟩
  have hsettled : taken.settleAs p.deployment.now ticket (s.settleHeader e.attempt a) =
      Bus.lone s.subjects.reassembly s.reassembly.options (ticket + 1) false
        (g.finish p.deployment.now e rest s.reassembly.maxDeliveries.toNat
          (s.settleHeader e.attempt a)) :=
    Bus.settleAs_lone hslots (fun t ht => (h.resting t ht).1) _ _
  have hstep : (p.deployment.step 0).2 = { (p.deployment.call
      (HeaderHandling.ofBody p.deployment.reassembler e.body e.attempt)).2 with
        tally
        bus := taken.settleAs p.deployment.now ticket (s.settleHeader e.attempt a)
        outlets := [{ capacity, packets := a.packets }] } := by
    rw [Wired.step_of_ready hw rfl rfl hpoll, hhandle]
    exact Wired.setActivity_idle hw rfl
  simp only [Pipeline.next, hup, hstep, hsettled]
  refine ⟨⟨h.reassembler_eq, ?_, h.workers_eq, ⟨ticket + 1, false, rfl⟩, ?_,
    h.resting.finish _ _ _ _⟩, rfl, ?_⟩
  · rfl
  · rw [Bus.Group.name_finish, h.name_eq]
  · rfl

end Sole

end FragmentRelay
