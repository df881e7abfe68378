import FragmentRelay.Proofs.Service.Headers
import FragmentRelay.Proofs.Settings.Valid
import FragmentRelay.Relay

/-!
# Limits: numbers that pass the check of settings and are too large further on

The check of settings asks for at least one slot per subscriber and says nothing about the time to
live of stored values. A subscriber has a largest number of slots, and the clock a last instant.
Settings with more slots, or with a time to live that leads beyond that instant, pass the check all
the same. Then the bus crashes on the first subscription with too many slots, or the store on every
record and every header. Within the two limits nothing crashes.

* `Deployment.staff_of_fit`, `Deployment.staff_of_overflow`: the workers on a bus, as their slots
  fit or do not.
* `Relay.run_of_overflow`: what becomes of a relay whose slots do not fit.
* `Settings.ingest_crashes_iff`, `Settings.cacheHeader_crashes_iff`: when storing a record or a
  header crashes.
* `Settings.crashes_beyond_limits`: both limits, for all settings that pass the check;
  `Settings.valid_settings_crash`: some do not stay within them.
-/

namespace FragmentRelay

/-! ### Subscriptions -/

namespace Bus

variable {b : Bus} {o : SubscribeOptions}

theorem subscribe_of_fit (hopen : b.closed = false) (hpos : o.maxInFlight ≠ 0)
    (hfit : o.maxInFlight ≤ maxSlots) (topic group : String) :
    ∃ id b', b.subscribe topic group o = (.ok id, b') ∧ b'.closed = false := by
  unfold subscribe
  rw [if_neg (by simp [hopen]), if_neg hpos, if_neg (Nat.not_lt.2 hfit)]
  exact ⟨_, _, rfl, hopen⟩

theorem subscribe_of_overflow (hopen : b.closed = false) (hover : maxSlots < o.maxInFlight)
    (topic group : String) :
    b.subscribe topic group o = (.error (.crashed slotOverflowText), b.found topic group) := by
  unfold subscribe
  rw [if_neg (by simp [hopen]), if_neg (Nat.ne_zero_of_lt hover), if_pos hover]

end Bus

namespace Deployment

variable {d : Deployment} {o : SubscribeOptions} {s : Settings}

theorem openSource_of_fit (hopen : d.bus.closed = false) (hpos : o.maxInFlight ≠ 0)
    (hfit : o.maxInFlight ≤ Bus.maxSlots) (subject group : String) :
    ∃ source d', d.openSource subject group o .bus = (.ok (source, .bus), d') ∧
      d'.bus.closed = false ∧ d'.workers = d.workers := by
  obtain ⟨id, b', hsub, hclosed⟩ := Bus.subscribe_of_fit hopen hpos hfit subject group
  refine ⟨.bus id, { d with bus := b' }, ?_, hclosed, rfl⟩
  simp only [openSource, hsub]

theorem openSource_of_overflow (hopen : d.bus.closed = false) (hover : Bus.maxSlots < o.maxInFlight)
    (subject group : String) : d.openSource subject group o .bus =
      (.error (.crashed Bus.slotOverflowText), { d with bus := d.bus.found subject group }) := by
  simp only [openSource, Bus.subscribe_of_overflow hopen hover]

theorem startIngest_of_fit {t : IngestSettings} (hpos : t.options.maxInFlight ≠ 0)
    (hfit : t.options.maxInFlight ≤ Bus.maxSlots) (subject : String) (n : Nat)
    (hopen : d.bus.closed = false) :
    ∃ d', startIngest subject t n .bus d = (.ok (), d') ∧ d'.bus.closed = false ∧
      d'.workers.length = d.workers.length + n := by
  induction n generalizing d with
  | zero => exact ⟨d, rfl, hopen, rfl⟩
  | succ n ih =>
    obtain ⟨source, d₁, hsource, hopen₁, hworkers⟩ :=
      openSource_of_fit hopen hpos hfit subject t.queueGroup
    obtain ⟨d', hstart, hopen', hlength⟩ :=
      ih (d := { d₁ with workers := d₁.workers ++ [{ source, role := .ingest t.redeliverAfter }] })
        hopen₁
    refine ⟨d', by simp only [startIngest, hsource, hstart], hopen', ?_⟩
    rw [hlength, hworkers, List.length_append, List.length_singleton]
    omega

theorem startIngest_of_overflow {t : IngestSettings} (hopen : d.bus.closed = false)
    (hover : Bus.maxSlots < t.options.maxInFlight) (subject : String) (n : Nat) :
    startIngest subject t (n + 1) .bus d =
      (.error (.crashed Bus.slotOverflowText),
        { d with bus := d.bus.found subject t.queueGroup }) := by
  simp only [startIngest, openSource_of_overflow hopen hover]

/-- The deployment with a new outlet, as a reassembly worker finds it when it subscribes. -/
def withOutlet (d : Deployment) (capacity : Nat) : Deployment :=
  { d.changeOutlet Outlet.close with outlets := (d.changeOutlet Outlet.close).outlets ++
    [{ capacity }] }

theorem startReassemblyWorker_of_fit {t : ReassemblySettings} (hopen : d.bus.closed = false)
    (hpos : t.options.maxInFlight ≠ 0) (hfit : t.options.maxInFlight ≤ Bus.maxSlots)
    (subject : String) (capacity : Nat) :
    ∃ d', d.startReassemblyWorker .bus subject t capacity = (.ok (), d') ∧
      d'.workers.length = d.workers.length + 1 := by
  have hopen' : (d.withOutlet capacity).bus.closed = false := hopen
  obtain ⟨source, d', hsource, -, hworkers⟩ :=
    openSource_of_fit hopen' hpos hfit subject t.queueGroup
  rw [withOutlet] at hsource
  refine ⟨_, by simp only [startReassemblyWorker, hsource]; rfl, ?_⟩
  rw [List.length_append, List.length_singleton, hworkers]
  rfl

theorem startReassemblyWorker_of_overflow {t : ReassemblySettings} (hopen : d.bus.closed = false)
    (hover : Bus.maxSlots < t.options.maxInFlight) (subject : String) (capacity : Nat) :
    d.startReassemblyWorker .bus subject t capacity =
      (.error (.crashed Bus.slotOverflowText),
        { d.withOutlet capacity with bus := d.bus.found subject t.queueGroup }) := by
  have hopen' : (d.withOutlet capacity).bus.closed = false := hopen
  have hsource := openSource_of_overflow hopen' hover subject t.queueGroup
  rw [withOutlet] at hsource
  simp only [startReassemblyWorker, hsource]
  rfl

/-- Starts the workers that settings ask for on the bus: the ingest workers, and then the reassembly
worker. -/
def staff (d : Deployment) (s : Settings) (capacity : Nat) :
    Except Bus.SubscribeFailure Unit × Deployment :=
  match d.startIngestWorkers .bus s.subjects.fragmentIngest s.ingest with
  | (.error e, d) => (.error e, d)
  | (.ok (), d) => d.startReassemblyWorker .bus s.subjects.reassembly s.reassembly capacity

end Deployment

namespace Settings

variable {s : Settings}

/-- The deployment that a relay with these settings starts from. -/
def deployment (s : Settings) : Deployment := Deployment.initial s.keys s.ttl s.ingest.dedupe

/-- No subscriber that settings ask for has more slots than a subscriber can have. -/
def SlotsFit (s : Settings) : Prop :=
  s.ingest.maxInFlight.toNat ≤ Bus.maxSlots ∧ s.reassembly.maxInFlight.toNat ≤ Bus.maxSlots

/-- The clock can show the deadline of what is stored at an instant. -/
def DeadlineFits (s : Settings) (now : Instant) : Prop :=
  ∀ n ∈ s.ttlSecs, now + n.toNat * 1000000000 < Instant.horizon

theorem validate_of_load {source : Source} {lookup : String → Option String}
    (h : load source lookup = .ok s) : s.validate = .ok () := by
  unfold load at h
  simp only at h
  split at h
  · cases h
  · split at h
    · cases h
    · split at h
      · cases h
      · cases h
        assumption

theorem ingest_pos_of_validate (h : s.validate = .ok ()) :
    0 < s.ingest.workers.toNat ∧ 0 < s.ingest.maxInFlight.toNat := by
  have hall := rules_of_validate h
  simp only [rules, List.forall_mem_cons, bne_iff_ne, ne_eq, Bool.and_eq_true] at hall
  obtain ⟨-, -, -, -, hworkers, ⟨hslots, -⟩, -⟩ := hall
  rw [← UInt64.toNat_inj] at hworkers hslots
  exact ⟨Nat.pos_of_ne_zero hworkers, Nat.pos_of_ne_zero hslots⟩

end Settings

namespace Deployment

variable {d : Deployment} {s : Settings}

/-- **Where the slots fit, every worker that settings ask for is started.** -/
theorem staff_of_fit (hvalid : s.validate = .ok ()) (hopen : d.bus.closed = false)
    (hfit : s.SlotsFit) (capacity : Nat) : ∃ d', d.staff s capacity = (.ok (), d') ∧
      d'.workers.length = d.workers.length + s.ingest.workers.toNat + 1 := by
  obtain ⟨hworkers, hingest⟩ := Settings.ingest_pos_of_validate hvalid
  have hreassembly := (Settings.valid_of_validate hvalid).reassembly_slots
  obtain ⟨d₁, hstart, hopen₁, hlength₁⟩ := startIngest_of_fit (t := s.ingest) hingest.ne' hfit.1
    s.subjects.fragmentIngest (max 1 s.ingest.workers.toNat) hopen
  obtain ⟨d₂, hlast, hlength₂⟩ :=
    startReassemblyWorker_of_fit (t := s.reassembly) hopen₁ hreassembly.ne' hfit.2
    s.subjects.reassembly capacity
  refine ⟨d₂, by simp only [staff, startIngestWorkers, hstart, hlast], ?_⟩
  rw [hlength₂, hlength₁, Nat.max_eq_right hworkers]

/-- **Where the slots do not fit, the bus crashes on a subscription.** -/
theorem staff_of_overflow (hvalid : s.validate = .ok ()) (hopen : d.bus.closed = false)
    (hover : ¬ s.SlotsFit) (capacity : Nat) :
    ∃ d', d.staff s capacity = (.error (.crashed Bus.slotOverflowText), d') := by
  obtain ⟨hworkers, hingest⟩ := Settings.ingest_pos_of_validate hvalid
  by_cases hfit : s.ingest.maxInFlight.toNat ≤ Bus.maxSlots
  · -- The ingest workers are started, and the crash is that of the reassembly worker.
    have hover' : Bus.maxSlots < s.reassembly.maxInFlight.toNat :=
      Nat.lt_of_not_le fun hle => hover ⟨hfit, hle⟩
    obtain ⟨d₁, hstart, hopen₁, -⟩ :=
      startIngest_of_fit (t := s.ingest) hingest.ne' hfit s.subjects.fragmentIngest
      (max 1 s.ingest.workers.toNat) hopen
    have hlast := startReassemblyWorker_of_overflow
      (t := s.reassembly) hopen₁ hover' s.subjects.reassembly capacity
    exact ⟨_, by simp only [staff, startIngestWorkers, hstart, hlast]; rfl⟩
  · obtain ⟨n, hn⟩ :=
      Nat.exists_eq_succ_of_ne_zero (Nat.ne_of_gt (Nat.le_max_left 1 s.ingest.workers.toNat))
    have hstart := startIngest_of_overflow (t := s.ingest) hopen
      (Nat.lt_of_not_le hfit) s.subjects.fragmentIngest n
    exact ⟨_, by simp only [staff, startIngestWorkers, hn, hstart]; rfl⟩

end Deployment

/-! ### Relays -/

namespace Relay

variable {s : Settings}

theorem deploy_eq (s : Settings) :
    deploy s =
      match s.deployment.staff s 1 with
      | (.error e, _) => .error (refusal e)
      | (.ok (), d) => .ok d := by
  unfold deploy Deployment.staff Settings.deployment
  rcases (Deployment.initial s.keys s.ttl s.ingest.dedupe).startIngestWorkers .bus
    s.subjects.fragmentIngest s.ingest
    with ⟨_ | _, d⟩ <;> rfl

theorem send_of_overflow (hvalid : s.validate = .ok ()) (hover : ¬ s.SlotsFit) (clock : UInt64)
    (payload : Octets) (wait : Span) :
    send s clock payload wait = .crashed Bus.slotOverflowText := by
  obtain ⟨cutter, hcutter, -⟩ := (Settings.valid_of_validate hvalid).splitter_ok
  obtain ⟨d', hstaff⟩ := Deployment.staff_of_overflow hvalid (d := s.deployment) rfl hover 1
  simp only [send, hcutter, deploy_eq, hstaff, refusal]

/-- A relay that loads such settings crashes if it has an input, unless it fails to listen first. -/
theorem run_of_overflow {site : Site} (hload : Settings.load site.settings site.lookup = .ok s)
    (hlisten : s.metricsListen.filter (fun a => !site.canListen a) = none) {payload : Octets}
    (hinput : site.input = some payload) (hover : ¬ s.SlotsFit) (wait : Span) :
    run site wait = .crashed Bus.slotOverflowText := by
  simp only [run, hload, hlisten, hinput, send_of_overflow (Settings.validate_of_load hload) hover]

end Relay

/-! ### Deadlines -/

/-- A record whose deadline the clock cannot show crashes the ingestion, and nothing is stored. -/
theorem Ingestor.ingest_overflow {g : Ingestor} {f : Fragment} {now : Instant} {span : Span}
    (hf : f.Genuine) (httl : g.ttl = some span)
    (hlate : Instant.horizon ≤ now + span.nanos) (s : Store) :
    (g.ingest f).alone now s = (.crashed Instant.overflowText, s) := by
  obtain ⟨i, hi⟩ := hf.exists_belongsTo
  rw [ingest_eq_write hf hi, httl]
  exact Access.alone_set_none (Store.set_of_horizon_le hlate _ _)

namespace Settings

variable {s : Settings} {now : Instant}

/-- The ingestor of a deployment with these settings. -/
def ingestor (s : Settings) : Ingestor := s.deployment.ingestor

/-- The reassembler of a deployment with these settings. -/
def reassembler (s : Settings) : Reassembler := s.deployment.reassembler

theorem nanos_ofSeconds (n : UInt64) : (Span.ofSeconds n.toNat).nanos = n.toNat * 1000000000 := by
  have hword := n.toNat_lt
  have hlimit : Span.limit = 18446744073709551615999999999 := rfl
  rw [Span.ofSeconds, Span.nanos_ofNanos, Nat.min_eq_left (by omega)]

theorem deadlineFits_iff :
    s.DeadlineFits now ↔ ∀ span ∈ s.ttl, now + span.nanos < Instant.horizon := by
  unfold DeadlineFits ttl
  cases s.ttlSecs with
  | none => simp
  | some n => simp [nanos_ofSeconds]

theorem exists_of_not_deadlineFits (h : ¬ s.DeadlineFits now) :
    ∃ span, s.ttl = some span ∧ Instant.horizon ≤ now + span.nanos := by
  rw [deadlineFits_iff] at h
  push Not at h
  exact h

/-- **Storing a record crashes exactly if the record is genuine and the clock cannot show its
deadline.** -/
theorem ingest_crashes_iff (s : Settings) (f : Fragment) (now : Instant) (store : Store) :
    (∃ text, ((s.ingestor.ingest f).alone now store).1 = .crashed text) ↔ f.Genuine ∧
    ¬ s.DeadlineFits now := by
  constructor
  · rintro ⟨text, hcrash⟩
    by_contra hnot
    have hvalue : ∃ r, ((s.ingestor.ingest f).alone now store).1 = .value r := by
      by_cases hf : f.Genuine
      · have hfits : s.DeadlineFits now := by
          by_contra hlate
          exact hnot ⟨hf, hlate⟩
        exact (Ingestor.ingest_sure (g := s.ingestor) (deadlineFits_iff.1 hfits) f).exists_value
          Faults.none_lenient () store
      · obtain ⟨e, he⟩ := Ingestor.ingest_of_not_genuine s.ingestor hf
        exact ⟨.error e, by rw [he, Access.alone_done]⟩
    obtain ⟨r, hr⟩ := hvalue
    cases hcrash.symm.trans hr
  · rintro ⟨hf, hlate⟩
    obtain ⟨span, httl, hspan⟩ := exists_of_not_deadlineFits hlate
    exact ⟨_, congrArg Prod.fst (Ingestor.ingest_overflow (g := s.ingestor) hf httl hspan store)⟩

/-- **Storing a header crashes exactly if the header is sound and the clock cannot show its
deadline.** -/
theorem cacheHeader_crashes_iff (s : Settings) (h : Header) (now : Instant) (store : Store) :
    (∃ text, ((s.reassembler.cacheHeader h).alone now store).1 = .crashed text) ↔
      (∃ i, h.identity = .ok i) ∧ ¬ s.DeadlineFits now := by
  cases hi : h.identity with
  | error d =>
    rw [Reassembler.cacheHeader_of_error hi, Access.alone_done]
    simp
  | ok i =>
    constructor
    · rintro ⟨text, hcrash⟩
      refine ⟨⟨i, rfl⟩, fun hfits => ?_⟩
      obtain ⟨r, hr⟩ :=
        (Reassembler.cacheHeader_sure (m := s.reassembler)
        (deadlineFits_iff.1 hfits) h).exists_value
          Faults.none_lenient () store
      cases hcrash.symm.trans hr
    · rintro ⟨-, hlate⟩
      obtain ⟨span, httl, hspan⟩ := exists_of_not_deadlineFits hlate
      have hset : store.set now (s.reassembler.keys.headerKey i)
          (Wire.encode h) s.reassembler.ttl = none := by
        rw [show s.reassembler.ttl = some span from httl]
        exact Store.set_of_horizon_le hspan _ _
      exact ⟨_, congrArg Prod.fst (Reassembler.cacheHeader_overflow hi hset)⟩

end Settings

/-! ### Both limits -/

/-- **Settings that pass their check crash beyond two limits, and nowhere within them**: on a
subscription if the slots do not fit, and on a write if the clock cannot show its deadline. -/
theorem Settings.crashes_beyond_limits {s : Settings} (hvalid : s.validate = .ok ())
    {d : Deployment} (hopen : d.bus.closed = false) (capacity : Nat) (now : Instant) :
    (s.SlotsFit → ∃ d', d.staff s capacity = (.ok (), d') ∧
      d'.workers.length = d.workers.length + s.ingest.workers.toNat + 1) ∧
    (¬ s.SlotsFit → ∃ d', d.staff s capacity = (.error (.crashed Bus.slotOverflowText), d')) ∧
    (∀ f store, (∃ text, ((s.ingestor.ingest f).alone now store).1 = .crashed text) ↔
      f.Genuine ∧ ¬ s.DeadlineFits now) ∧
    ∀ h store, (∃ text, ((s.reassembler.cacheHeader h).alone now store).1 = .crashed text) ↔
      (∃ i, h.identity = .ok i) ∧ ¬ s.DeadlineFits now :=
  ⟨fun hfit => Deployment.staff_of_fit hvalid hopen hfit capacity,
    fun hover => Deployment.staff_of_overflow hvalid hopen hover capacity,
    fun f store => ingest_crashes_iff s f now store, fun h store =>
      cacheHeader_crashes_iff s h now store⟩

namespace Settings

/-- Settings at both limits. -/
def edgeSettings : Settings where
  ingest := { maxInFlight := 2305843009213693951 }
  reassembly := { maxInFlight := 2305843009213693951 }
  ttlSecs := some 9223372036854775806

/-- All workers are started, and two seconds after the start the deadline of a record no longer
fits. -/
theorem edgeSettings_crashes :
    edgeSettings.validate = .ok () ∧
    (∃ d', edgeSettings.deployment.staff edgeSettings 1 = (.ok (), d') ∧ d'.workers.length = 5) ∧
    (¬ ∃ text, ((edgeSettings.ingestor.ingest Batch.smallFirst).alone 1999999999 {}).1 =
      .crashed text) ∧
    ∃ text, ((edgeSettings.ingestor.ingest Batch.smallFirst).alone 2000000000 {}).1 =
      .crashed text := by
  have hvalid : edgeSettings.validate = .ok () := by decide
  have hgenuine := Batch.smallBatch_cut.genuine Batch.smallFirst_mem
  have hbefore := crashes_beyond_limits hvalid (d := edgeSettings.deployment) rfl 1 1999999999
  have hafter := crashes_beyond_limits hvalid (d := edgeSettings.deployment) rfl 1 2000000000
  refine ⟨hvalid, hbefore.1 ⟨by decide, by decide⟩, fun hcrash => ?_,
    (hafter.2.2.1 _ _).2 ⟨hgenuine, fun hfits => ?_⟩⟩
  · exact ((hbefore.2.2.1 _ _).1 hcrash).2 fun n hn => by cases hn; decide
  · exact absurd (hfits _ rfl) (by decide)

/-- A relay whose settings file asks for one slot too many. -/
def wideSite : Relay.Site where
  settings := .bytes (Octets.ofText "[ingest]\nmax_in_flight = 2305843009213693952")
  lookup := fun _ => none
  canListen := fun _ => true
  input := some [1, 2, 3]
  canWrite := true
  clock := 0

/-- Settings under which stored values outlive the clock. -/
def lastingSettings : Settings := { ttlSecs := some 18446744073709551615 }

/-- Settings can pass their check and crash the relay, or the store on a record and on a header. -/
theorem valid_settings_crash :
    Settings.load wideSite.settings wideSite.lookup =
      .ok { ingest := { maxInFlight := 2305843009213693952 } } ∧
    Relay.run wideSite (Span.ofSeconds 30) = .crashed Bus.slotOverflowText ∧
    lastingSettings.validate = .ok () ∧
    (lastingSettings.ingestor.ingest Batch.smallFirst).alone 0 {} =
      (.crashed Instant.overflowText, {}) ∧
    (lastingSettings.reassembler.cacheHeader Batch.smallBatch.header).alone 0 {} =
      (.crashed Instant.overflowText, {}) := by
  have hload : Settings.load wideSite.settings wideSite.lookup =
      .ok { ingest := { maxInFlight := 2305843009213693952 } } := by decide +kernel
  have hlate : Instant.horizon ≤ 0 + (Span.ofSeconds 18446744073709551615).nanos := by decide
  refine ⟨hload, Relay.run_of_overflow hload rfl rfl (fun hfit => absurd hfit.1 (by decide)) _,
    by decide, ?_, ?_⟩
  · exact Ingestor.ingest_overflow (Batch.smallBatch_cut.genuine Batch.smallFirst_mem) rfl hlate {}
  · exact Reassembler.cacheHeader_overflow Batch.smallBatch_cut.identity_ok
      (Store.set_of_horizon_le hlate _ _)

end Settings

end FragmentRelay
