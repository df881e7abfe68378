import FragmentRelay.Proofs.Pipeline.Run
import FragmentRelay.Proofs.Settings.Valid
import FragmentRelay.Relay

/-!
# Start: how a deployment comes to be wired

A relay starts its ingest workers one after the other and the reassembly worker last, all on an
empty bus. If no subscription is refused, the deployment is wired as its settings say, and nothing
was handed to either group.

* `Crewed.startIngest`: the ingest workers, by induction on their number.
* `Settings.Starts.wired`: the whole deployment.
-/

namespace FragmentRelay

/-- A deployment whose workers were started on an empty store and a bus without messages. -/
def Settings.Starts (s : Settings) (capacity : Nat) (d : Deployment) : Prop :=
  ∃ d₁, (Deployment.initial s.keys s.ttl s.ingest.dedupe).startIngestWorkers .bus
    s.subjects.fragmentIngest s.ingest =
      (.ok (), d₁) ∧
    d₁.startReassemblyWorker .bus s.subjects.reassembly s.reassembly capacity = (.ok (), d)

theorem Relay.starts_of_deploy {s : Settings} {d : Deployment} (h : Relay.deploy s = .ok d) :
    s.Starts 1 d := by
  unfold Relay.deploy at h
  split at h
  · cases h
  · rename_i d₁ h₁
    split at h
    · cases h
    · rename_i d₂ h₂
      cases h
      exact ⟨d₁, h₁, h₂⟩

/-- An ingest worker's subscriber when it starts. -/
def Settings.ingestSubscriber (s : Settings) (i : Nat) : Bus.Subscriber :=
  ⟨i, s.subjects.fragmentIngest, s.ingest.queueGroup, s.ingest.options,
    s.ingest.options.maxInFlight⟩

/-- A deployment with a number of ingest workers and nothing else yet. -/
structure Crewed (s : Settings) (n : Nat) (d : Deployment) : Prop where
  ingestor_eq : d.ingestor = { keys := s.keys }
  reassembler_eq : d.reassembler = { keys := s.keys }
  store_eq : d.store = {}
  outage_eq : d.outage = {}
  outlets_eq : d.outlets = []
  workers_eq : d.workers = (List.range n).map s.ingestWorker
  bus_eq : d.bus = {
    topics := if n = 0 then []
      else [{ name := s.subjects.fragmentIngest, groups := [{ name := s.ingest.queueGroup }] }]
    subscribers := (List.range n).map s.ingestSubscriber
    nextSubscriber := n }

namespace Crewed

variable {s : Settings} {n m : Nat} {d d' : Deployment}

theorem initial (httl : s.ttlSecs = none) (hdedupe : s.ingest.dedupe = true) :
    Crewed s 0 (Deployment.initial s.keys s.ttl s.ingest.dedupe) := by
  have h : s.ttl = none := by rw [Settings.ttl, httl]; rfl
  exact ⟨by rw [Deployment.initial, h, hdedupe], by rw [Deployment.initial, h], rfl,
    rfl, rfl, rfl, rfl⟩

theorem openSource_ok {source : Source} {c' : Deployment.Carrier} {subject group : String}
    {o : SubscribeOptions} (h : d.openSource subject group o .bus = (.ok (source, c'), d')) :
    source = .bus d.bus.nextSubscriber ∧ c' = .bus ∧
    d' = { d with bus := { d.bus.found subject group with
      subscribers := d.bus.subscribers ++ [⟨d.bus.nextSubscriber, subject, group, o, o.maxInFlight⟩]
      nextSubscriber := d.bus.nextSubscriber + 1 } } := by
  simp only [Deployment.openSource] at h
  split at h
  · cases h
  · rename_i id bus hs
    cases h
    unfold Bus.subscribe at hs
    split_ifs at hs <;> cases hs
    exact ⟨rfl, rfl, rfl⟩

theorem join_fresh (name group : String) :
    Bus.Topic.join { name } group = { name, groups := [{ name := group }] } := by
  simp [Bus.Topic.join]

theorem join_again (name group : String) :
    Bus.Topic.join { name, groups := [{ name := group }] } group =
    { name, groups := [{ name := group }] } := by
  simp [Bus.Topic.join]

/-- One more ingest worker. -/
theorem succ (h : Crewed s n d) {source : Source} {c' : Deployment.Carrier}
    (ho : d.openSource s.subjects.fragmentIngest s.ingest.queueGroup s.ingest.options .bus =
      (.ok (source, c'), d')) :
    c' = .bus ∧ Crewed s (n + 1) { d' with
      workers := d'.workers ++ [{ source, role := .ingest s.ingest.redeliverAfter }] } := by
  obtain ⟨rfl, rfl, rfl⟩ := openSource_ok ho
  refine ⟨rfl, h.ingestor_eq, h.reassembler_eq, h.store_eq, h.outage_eq, h.outlets_eq, ?_, ?_⟩
  · simp only [h.workers_eq, h.bus_eq, List.range_succ, List.map_append]
    rfl
  · simp only [h.bus_eq, List.range_succ, List.map_append, Nat.succ_ne_zero, if_false]
    congr 1
    by_cases h₀ : n = 0
    · simp [h₀, Bus.found, Bus.changeTopic, join_fresh]
    · simp [h₀, Bus.found, Bus.changeTopic, join_again]

theorem startIngest (h : Crewed s n d)
    (hd : Deployment.startIngest s.subjects.fragmentIngest s.ingest m .bus d = (.ok (), d')) :
    Crewed s (n + m) d' := by
  induction m generalizing n d with
  | zero =>
    cases hd
    exact h
  | succ m ih =>
    simp only [Deployment.startIngest] at hd
    split at hd
    · cases hd
    · rename_i source c' d₁ ho
      obtain ⟨rfl, h'⟩ := h.succ ho
      have := ih h' hd
      rwa [Nat.add_right_comm] at this

theorem find?_ingestSubscriber (s : Settings) (n i : Nat) :
    ((List.range n).map s.ingestSubscriber).find? (fun u => u.id == i) =
      if i < n then some (s.ingestSubscriber i) else none := by
  induction n with
  | zero => rfl
  | succ n ih =>
    rw [List.range_succ, List.map_append, List.find?_append, ih]
    by_cases hlt : i < n
    · simp [hlt, Nat.lt_succ_of_lt hlt]
    · by_cases he : n = i
      · subst he
        simp [Settings.ingestSubscriber]
      · have : ¬ i < n + 1 := by omega
        simp [hlt, this, Settings.ingestSubscriber, he]

/-- The reassembly worker comes last. -/
theorem wired (h : Crewed s s.crew d) (hne : s.subjects.reassembly ≠ s.subjects.fragmentIngest)
    {capacity : Nat}
    (hd : d.startReassemblyWorker .bus s.subjects.reassembly s.reassembly capacity = (.ok (), d')) :
    Wired s capacity d' { name := s.ingest.queueGroup } { name := s.reassembly.queueGroup } ∧
    d'.store = {} := by
  have hcrew : s.crew ≠ 0 := by
    unfold Settings.crew
    omega
  simp only [Deployment.startReassemblyWorker] at hd
  split at hd
  · cases hd
  · rename_i source c' d₁ ho
    cases hd
    obtain ⟨rfl, -, rfl⟩ := openSource_ok ho
    have hout : (d.changeOutlet Outlet.close).outlets = [] := by
      simp [Deployment.changeOutlet, h.outlets_eq]
    have hbus : (d.changeOutlet Outlet.close).bus = d.bus := rfl
    refine ⟨⟨h.ingestor_eq, h.reassembler_eq, h.outage_eq, ?_, ?_, ?_, ?_, fun i hi => ?_, ?_,
      ?_, ?_, ?_, ?_⟩, h.store_eq⟩
    · simp [hout]
    · have hworkers : (d.changeOutlet Outlet.close).workers = d.workers := rfl
      simp only [hout, hworkers, hbus, h.workers_eq, h.bus_eq]
      rfl
    · simp only [hbus, h.bus_eq, Bus.found]
    · simp only [hbus, h.bus_eq, Bus.found]
    · simp only [Bus.subscription?, Bus.subscriber?, hbus, h.bus_eq, List.find?_append,
        find?_ingestSubscriber, hi, if_true, Option.some_or, Option.map_some]
      rfl
    · simp only [Bus.subscription?, Bus.subscriber?, hbus, h.bus_eq, List.find?_append,
        find?_ingestSubscriber, Nat.lt_irrefl, if_false, Option.none_or, List.find?_singleton,
        beq_self_eq_true, if_true, Option.map_some]
    · simp [Bus.view, Bus.group?, Bus.topic?, hbus, h.bus_eq, hcrew, Bus.found, Bus.changeTopic,
        hne.symm, Bus.Group.calm]
    · simp [Bus.view, Bus.group?, Bus.topic?, hbus, h.bus_eq, hcrew, Bus.found, Bus.changeTopic,
        hne.symm, Bus.Group.calm, join_fresh]
    · exact fun t ht => absurd ht List.not_mem_nil
    · exact fun t ht => absurd ht List.not_mem_nil

end Crewed

namespace Settings

variable {s : Settings}

/-- **A deployment that was just started is wired, and nothing was handed to its groups.** -/
theorem Starts.wired {capacity : Nat} {d : Deployment} (h : s.Starts capacity d) (hvalid : s.Valid)
    (httl : s.ttlSecs = none) (hdedupe : s.ingest.dedupe = true) :
    Wired s capacity d { name := s.ingest.queueGroup } { name := s.reassembly.queueGroup } ∧
    d.store = {} := by
  obtain ⟨d₁, h₁, h₂⟩ := h
  have hc := (Crewed.initial httl hdedupe).startIngest h₁
  rw [Nat.zero_add] at hc
  exact hc.wired hvalid.subjects_ne h₂

end Settings

end FragmentRelay
