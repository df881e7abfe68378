import FragmentRelay.Proofs.Pipeline.Vigil

/-!
# Polling: the bus tries when a poll would

A poll counts its attempts and sleeps between them. On the bus the count travels with the message,
each delay is that of a refusal, and the limit is known to the bus and to the worker alike. Yet the
attempts are made at the same instants.

Between two attempts the message is behind a timer that runs out when the poll wakes up
(`Standing.resting`), and once the poll has ended the message is acknowledged (`Standing.ended`).

* `Pending.work`: an attempt.
* `OnSchedule.pass`: one moment; `OnSchedule.run`: any number of them, by induction.
* `bus_polls_directly`: what it says of the attempts, the packet and the message.
-/

namespace FragmentRelay

open Pipeline

variable {v : Vigil} {capacity last n : Nat} {p : Pipeline} {x : Moment}

/-! ### The message and the log -/

/-- The message is queued for an attempt that is due. -/
structure Pending (v : Vigil) (capacity n : Nat) (p : Pipeline) : Prop where
  sole : Sole v.settings capacity p.deployment (v.queued n)
  now_eq : p.deployment.now = v.time n
  taken_eq : taken p.log = v.visits n
  emitted_eq : emitted p.log = []

/-- No message is queued: the next attempt is still to come, or the last one has been made. -/
inductive Standing (v : Vigil) (capacity last : Nat) (p : Pipeline) : Prop
  | resting (n : Nat) (lt_last : n < last)
      (sole : Sole v.settings capacity p.deployment (v.resting n))
      (time_le : v.time n ≤ p.deployment.now) (lt_time : p.deployment.now < v.time (n + 1))
      (taken_eq : taken p.log = v.visits (n + 1)) (emitted_eq : emitted p.log = [])
  | ended (sole : Sole v.settings capacity p.deployment (v.settled last))
      (time_le : v.time last ≤ p.deployment.now) (taken_eq : taken p.log = v.visits (last + 1))
      (emitted_eq : emitted p.log = (v.outcome (v.time last)).delivered.map fun q =>
        (v.time last, q))

/-! ### Steps of the worker -/

/-- Where no message is queued, a step changes nothing. -/
theorem Standing.rest (h : Standing v capacity last p)
    (hslots : 0 < v.settings.reassembly.options.maxInFlight) :
    Standing v capacity last (p.next (.work 0)) := by
  cases h with
  | resting n hn hsole hle hlt htaken hemitted =>
    obtain ⟨hsole', hnow, hlog⟩ := hsole.rest hslots rfl
    rw [← taken_quiet, ← hlog] at htaken
    rw [← emitted_quiet, ← hlog] at hemitted
    exact .resting n hn hsole' (hnow ▸ hle) (hnow ▸ hlt) htaken hemitted
  | ended hsole hle htaken hemitted =>
    obtain ⟨hsole', hnow, hlog⟩ := hsole.rest hslots rfl
    rw [← taken_quiet, ← hlog] at htaken
    rw [← emitted_quiet, ← hlog] at hemitted
    exact .ended hsole' (hnow ▸ hle) htaken hemitted

theorem Pending.outcome_eq (h : Pending v capacity n p) (hv : v.Regular last)
    (hstore : p.deployment.store.AgreeOn v.settings.keys.HoldsNoHeader (v.history (v.time n)))
    (hspares : p.deployment.outage.SparesReads) {r : Except ReassemblyError Unit × Operation}
    (hr : v.outcome (v.time n) = .value r) (hready : ∀ e, r.1 = .error e → e.notReady = true) :
    (p.deployment.call (HeaderHandling.ofBody p.deployment.reassembler (v.envelope n).body
      (v.envelope n).attempt)).1 =
      .value (.attempted r.1 r.2) := by
  have hm : p.deployment.reassembler = v.reassembler := h.sole.reassembler_eq
  rw [hm]
  -- Only the first attempt keeps the header, and that is made at the start.
  have hfirst :
      n + 1 = 1 → ∀ span ∈ v.reassembler.ttl, v.time n + span.nanos < Instant.horizon := by
    intro hn
    obtain rfl : n = 0 := by omega
    exact hv.shown
  have hdecode := Reassembler.decode_encode_of_outcome hr hready
  have hout := HeaderHandling.outcome_of_decode hdecode hfirst hspares hstore hr
  rw [← h.now_eq] at hout
  exact hout

theorem Vigil.settleHeader_of_ok {t : Instant} {attempt : Nat} {o : Operation}
    (hr : v.outcome t = .value (.ok (), o)) :
    v.settings.settleHeader attempt (.value (.attempted (.ok ()) o)) = .ack := by
  obtain ⟨payload, rfl⟩ := Reassembler.exists_payload_of_ok hr
  rfl

/-- **An attempt is made when the poll makes it.** The message is refused for as long as the poll
sleeps, or acknowledged if the poll ends. -/
theorem Pending.work (h : Pending v capacity n p) (hv : v.Regular last) (hn : n ≤ last)
    (hstore : p.deployment.store.AgreeOn v.settings.keys.HoldsNoHeader (v.history (v.time n)))
    (hspares : p.deployment.outage.SparesReads) (hcap : 0 < capacity) :
    Standing v capacity last (p.next (.work 0)) := by
  obtain ⟨r, o, hr, hready⟩ := Outcome.exists_of_isExpected (hv.expected n hn)
  have hout := h.outcome_eq hv hstore hspares hr hready
  obtain ⟨hsole, hnow, hlog⟩ := h.sole.work hv.slots_pos hcap rfl
  rw [hout] at hsole hlog
  have htaken : taken (p.next (.work 0)).log = v.visits (n + 1) := by
    rw [hlog, taken_append, h.taken_eq, h.now_eq, v.visits_succ]
    rfl
  have hemitted : emitted (p.next (.work 0)).log =
      (v.outcome (v.time n)).delivered.map fun q => (v.time n, q) := by
    rw [hlog, emitted_append, h.emitted_eq, h.now_eq, hr]
    rfl
  rw [h.now_eq] at hnow hsole
  have hlt := hv.ends.lt_attempts
  cases r with
  | ok u =>
    -- A poll that is ready does not ask for another attempt.
    obtain rfl : n = last := by
      by_contra hne
      have hasks := Vigil.asks_of_lt hv.ends (n := n) (by omega)
      rw [hr] at hasks
      cases hasks
    rw [v.settleHeader_of_ok hr] at hsole
    exact .ended hsole hnow.ge htaken hemitted
  | error e =>
    have hmissing := hready e rfl
    rw [Settings.settleHeader_of_notReady hmissing] at hsole
    rcases Nat.lt_or_ge n last with hlast | hge
    · have hmore : ¬ v.settings.reassembly.maxDeliveries.toNat ≤ (v.envelope n).attempt := by
        change ¬ _ ≤ n + 1
        omega
      rw [if_neg hmore, show (v.envelope n).attempt = n + 1 from rfl, v.finish_queued n] at hsole
      refine .resting n hlast hsole hnow.ge ?_ htaken ?_
      · rw [hnow]
        exact v.strictMono_time (Nat.lt_succ_self n)
      · rw [hemitted, hr]
        rfl
    · obtain rfl : n = last := by omega
      have hasks : Deployment.asksAgain (v.outcome (v.time n)) = true := by
        rw [hr]
        exact hmissing
      have hspent : v.settings.reassembly.maxDeliveries.toNat ≤ (v.envelope n).attempt :=
        (Vigil.spent_of_asks hv.ends hasks).ge
      rw [if_pos hspent] at hsole
      exact .ended hsole hnow.ge htaken hemitted

/-! ### Passing time -/

/-- Facing a moment and letting time pass to it. -/
theorem Sole.arrive {s : Settings} {g : Bus.Group}
    (h : Sole s capacity p.deployment g) (x : Moment) :
    Sole s capacity ((p.face x).next (.wait x.instant)).deployment
      (g.fire (max p.deployment.now x.instant)) := by
  have hface : Sole s capacity (p.face x).deployment g :=
    ⟨h.reassembler_eq, h.outlets_eq, h.workers_eq, h.bus_eq, h.name_eq, h.resting⟩
  exact hface.wait x.instant

/-- The message waits for an attempt, or the next one is still to come or has been made. -/
def OnSchedule (v : Vigil) (capacity last : Nat) (p : Pipeline) : Prop :=
  Standing v capacity last p ∨ ∃ n ≤ last, Pending v capacity n p

theorem OnSchedule.arrive (h : OnSchedule v capacity last p) (hends : v.Ends last)
    (hadmits : p.deployment.Admits x.instant) :
    OnSchedule v capacity last ((p.face x).next (.wait x.instant)) := by
  have hnow : max p.deployment.now x.instant = x.instant := Nat.max_eq_right hadmits.now_le
  have hlater : ((p.face x).next (.wait x.instant)).deployment.now = x.instant := hnow
  have hlt := hends.lt_attempts
  rcases h with h | ⟨n, hn, h⟩
  · cases h with
    | resting n hn hsole hle hearly htaken hemitted =>
      have hfired := hsole.arrive x
      rw [hnow] at hfired
      obtain ⟨ticket, waiting, hbus⟩ := hsole.bus_eq
      have hdue : x.instant ≤ v.time (n + 1) := by
        refine hadmits.le_due ⟨v.time (n + 1), .delay, v.envelope n,
          v.settings.reassembly.maxDeliveries.toNat⟩ ?_
        rw [hbus, Bus.timers_lone]
        exact List.mem_singleton.2 rfl
      rcases Nat.lt_or_eq_of_le hdue with hbefore | hat
      · rw [v.fire_resting_of_lt hbefore] at hfired
        refine .inl (.resting n hn hfired ?_ ?_ htaken hemitted)
        · rw [hlater]
          exact hle.trans hadmits.now_le
        · rw [hlater]
          exact hbefore
      · rw [hat, v.fire_resting_of_due (by omega)] at hfired
        exact .inr ⟨n + 1, hn, hat ▸ hfired, hlater.trans hat, htaken, hemitted⟩
    | ended hsole hle htaken hemitted =>
      have hfired := hsole.arrive x
      rw [Bus.Group.fire_of_untimed rfl] at hfired
      refine .inl (.ended hfired ?_ htaken hemitted)
      rw [hlater]
      exact hle.trans hadmits.now_le
  · have hfired := h.sole.arrive x
    rw [Bus.Group.fire_of_untimed rfl] at hfired
    obtain ⟨ticket, waiting, hbus⟩ := h.sole.bus_eq
    have hsame : x.instant = p.deployment.now := by
      refine hadmits.handled ?_
      simp [hbus, Bus.queued, Bus.lone, Vigil.queued]
    exact .inr ⟨n, hn, hfired, (hlater.trans hsame).trans h.now_eq, h.taken_eq, h.emitted_eq⟩

/-! ### Whole runs -/

/-- Steps of the worker leave everything as it is once no message is queued. -/
theorem Standing.rests (h : Standing v capacity last p)
    (hslots : 0 < v.settings.reassembly.options.maxInFlight) (steps : Nat) :
    Standing v capacity last ((List.replicate steps (Event.work 0)).foldl Pipeline.next p) := by
  induction steps generalizing p with
  | zero => exact h
  | succ steps ih => exact ih (h.rest hslots)

/-- **At every moment the worker makes the attempt that is due, and no other.** -/
theorem OnSchedule.pass (h : OnSchedule v capacity last p) (hv : v.Regular last)
    (hcap : 0 < capacity) (hadmits : p.deployment.Admits x.instant) (hx : v.Shows x) :
    Standing v capacity last (p.pass x) := by
  have harrived := h.arrive hv.ends hadmits
  obtain ⟨steps, hsteps⟩ : ∃ steps, x.steps = steps + 1 :=
    ⟨x.steps - 1, by have := hx.steps_pos; omega⟩
  rw [Pipeline.pass, hsteps, List.replicate_succ, List.foldl_cons]
  refine Standing.rests ?_ hv.slots_pos steps
  rcases harrived with hstanding | ⟨n, hn, hpending⟩
  · exact hstanding.rest hv.slots_pos
  · have hinstant : x.instant = v.time n := by
      rw [← hpending.now_eq]
      exact (Nat.max_eq_right hadmits.now_le).symm
    exact hpending.work hv hn (hinstant ▸ hx.agrees) hx.spares hcap

theorem OnSchedule.run (h : OnSchedule v capacity last p) (hv : v.Regular last)
    (hcap : 0 < capacity) {moments : List Moment} (hne : moments ≠ [])
    (hshows : ∀ x ∈ moments, v.Shows x) (hprompt : p.Prompt moments) :
    Standing v capacity last (moments.foldl Pipeline.pass p) := by
  induction moments generalizing p with
  | nil => exact absurd rfl hne
  | cons x rest ih =>
    have hstanding := h.pass hv hcap hprompt.1 (hshows x List.mem_cons_self)
    cases rest with
    | nil => exact hstanding
    | cons y rest =>
      exact ih (.inl hstanding) (List.cons_ne_nil y rest)
        (fun z hz => hshows z (List.mem_cons_of_mem x hz)) hprompt.2

/-- Before the header is published there is nothing to take. -/
structure Idle (v : Vigil) (capacity : Nat) (p : Pipeline) : Prop where
  sole : Sole v.settings capacity p.deployment { name := v.settings.reassembly.queueGroup }
  now_le : p.deployment.now ≤ v.start
  taken_eq : taken p.log = []
  emitted_eq : emitted p.log = []

namespace Idle

theorem rest (h : Idle v capacity p) (hslots : 0 < v.settings.reassembly.options.maxInFlight) :
    Idle v capacity (p.next (.work 0)) := by
  obtain ⟨hsole, hnow, hlog⟩ := h.sole.rest hslots rfl
  exact ⟨hsole, hnow ▸ h.now_le, by rw [hlog, taken_quiet, h.taken_eq],
    by rw [hlog, emitted_quiet, h.emitted_eq]⟩

theorem pass (h : Idle v capacity p) (hslots : 0 < v.settings.reassembly.options.maxInFlight)
    (hx : x.instant ≤ v.start) : Idle v capacity (p.pass x) := by
  have hfired := h.sole.arrive x
  rw [Bus.Group.fire_of_untimed rfl] at hfired
  have harrived : Idle v capacity ((p.face x).next (.wait x.instant)) :=
    ⟨hfired, Nat.max_le.2 ⟨h.now_le, hx⟩, h.taken_eq, h.emitted_eq⟩
  rw [Pipeline.pass]
  generalize (p.face x).next (.wait x.instant) = q at harrived
  induction x.steps generalizing q with
  | zero => exact harrived
  | succ steps ih => exact ih _ (harrived.rest hslots)

theorem run (h : Idle v capacity p) (hslots : 0 < v.settings.reassembly.options.maxInFlight)
    {moments : List Moment} (hmoments : ∀ x ∈ moments, x.instant ≤ v.start) :
    Idle v capacity (moments.foldl Pipeline.pass p) := by
  induction moments generalizing p with
  | nil => exact h
  | cons x rest ih =>
    exact ih (h.pass hslots (hmoments x List.mem_cons_self)) fun y hy =>
      hmoments y (List.mem_cons_of_mem x hy)

/-- The header that is published waits for its first attempt. -/
theorem publish (h : Idle v capacity p) : Pending v capacity 0 (v.publish p) := by
  have hfired := h.sole.wait v.start
  rw [Bus.Group.fire_of_untimed rfl] at hfired
  obtain ⟨hsole, hnow, hlog⟩ := hfired.publish (Wire.encode v.header)
  refine ⟨hsole, hnow.trans (Nat.max_eq_right h.now_le), ?_, ?_⟩
  · rw [Vigil.publish, hlog]
    exact h.taken_eq
  · rw [Vigil.publish, hlog]
    exact h.emitted_eq

end Idle

/-! ### What a run shows -/

theorem Vigil.exists_before {m k : Nat} {t : Instant}
    (ht : ((List.range m).map v.time)[k + 1]? = some t) :
    ∃ u, ((List.range m).map v.time)[k]? = some u ∧
      t = u + (v.settings.reassembly.backoff.delayAfter (k + 1)).nanos := by
  rw [List.getElem?_map, Option.map_eq_some_iff] at ht
  obtain ⟨j, hj, rfl⟩ := ht
  obtain ⟨hk, rfl⟩ := List.getElem?_eq_some_iff.1 hj
  rw [List.length_range] at hk
  refine ⟨v.time k, ?_, by rw [List.getElem_range]; rfl⟩
  rw [List.getElem?_map, List.getElem?_range (by omega)]
  rfl

theorem Vigil.filter_times (hn : n ≤ last + 1) {now : Instant} (hbefore : ∀ j < n, v.time j ≤ now)
    (hafter : ∀ j ≤ last, n ≤ j → now < v.time j) :
    ((List.range (last + 1)).map v.time).filter (fun t => decide (t ≤ now)) =
      (List.range n).map v.time := by
  obtain ⟨k, hk⟩ := Nat.exists_eq_add_of_le hn
  rw [hk, List.range_add, List.map_append, List.filter_append, List.filter_eq_self.2,
    List.filter_eq_nil_iff.2, List.append_nil]
  · intro t ht
    simp only [List.mem_map, List.mem_range] at ht
    obtain ⟨_, ⟨j, hj, rfl⟩, rfl⟩ := ht
    simpa using hafter (n + j) (by omega) (Nat.le_add_right n j)
  · intro t ht
    obtain ⟨j, hj, rfl⟩ := List.mem_map.1 ht
    simpa using hbefore j (List.mem_range.1 hj)

theorem Vigil.visits_eq (v : Vigil) (n : Nat) :
    v.visits n = (((List.range n).map v.time).zipIdx 1).map fun x =>
      (x.1, ⟨0, Wire.encode v.header, x.2⟩) := by
  refine List.ext_getElem (by simp [visits]) fun j hj hj' => ?_
  simp [visits, envelope, Nat.add_comm]

namespace Standing

theorem taken_eq (h : Standing v capacity last p) :
    taken p.log = ((((List.range (last + 1)).map v.time).filter fun t =>
      decide (t ≤ p.deployment.now)).zipIdx 1).map
      fun x => (x.1, ⟨0, Wire.encode v.header, x.2⟩) := by
  cases h with
  | resting n hn hsole hle hlt htaken hemitted =>
    rw [htaken, v.visits_eq, Vigil.filter_times (n := n + 1) (by omega)]
    · exact fun j hj => (v.strictMono_time.monotone (Nat.le_of_lt_succ hj)).trans hle
    · exact fun j _ hj => hlt.trans_le (v.strictMono_time.monotone hj)
  | ended hsole hle htaken hemitted =>
    rw [htaken, v.visits_eq, Vigil.filter_times (Nat.le_refl _)]
    · exact fun j hj => (v.strictMono_time.monotone (Nat.le_of_lt_succ hj)).trans hle
    · exact fun j hj hj' => absurd hj' (by omega)

theorem emitted_eq (h : Standing v capacity last p) :
    emitted p.log = if v.time last ≤ p.deployment.now
      then (v.outcome (v.time last)).delivered.map fun q => (v.time last, q)
      else [] := by
  cases h with
  | resting n hn hsole hle hlt htaken hemitted =>
    rw [hemitted, if_neg (Nat.not_le.2 (hlt.trans_le (v.strictMono_time.monotone hn)))]
  | ended hsole hle htaken hemitted => rw [hemitted, if_pos hle]

theorem exists_group (h : Standing v capacity last p) :
    ∃ g, p.deployment.bus.group? v.settings.subjects.reassembly
        v.settings.reassembly.queueGroup = some g ∧ g.dead = [] ∧
      g.acknowledged = if v.time last ≤ p.deployment.now then [v.envelope last] else [] := by
  have hgroup : ∀ {g : Bus.Group}, Sole v.settings capacity p.deployment g → ∃ turn,
      p.deployment.bus.group? v.settings.subjects.reassembly v.settings.reassembly.queueGroup =
        some { g with turn } := by
    intro g hsole
    obtain ⟨ticket, waiting, hbus⟩ := hsole.bus_eq
    rw [hbus, ← hsole.name_eq]
    exact ⟨_, Bus.group?_lone⟩
  cases h with
  | resting n hn hsole hle hlt htaken hemitted =>
    obtain ⟨turn, hg⟩ := hgroup hsole
    rw [if_neg (Nat.not_le.2 (hlt.trans_le (v.strictMono_time.monotone hn)))]
    exact ⟨_, hg, rfl, rfl⟩
  | ended hsole hle htaken hemitted =>
    obtain ⟨turn, hg⟩ := hgroup hsole
    rw [if_pos hle]
    exact ⟨_, hg, rfl, rfl⟩

end Standing

/-- **A header on the bus is tried exactly when a poll would try its operation**, with the same
end at the same instant, as long as the worker lets no timer run out unseen. The message is
acknowledged when the poll ends, and not before. -/
theorem bus_polls_directly (v : Vigil) (hvalid : v.settings.validate = .ok ()) {capacity : Nat}
    (hcap : 0 < capacity) {dedupe : Bool} {d : Deployment}
    (hstart : (Deployment.initial v.settings.keys v.settings.ttl dedupe).startReassemblyWorker .bus
      v.settings.subjects.reassembly v.settings.reassembly capacity = (.ok (), d))
    (hshown : ∀ span ∈ v.settings.ttl, v.start + span.nanos < Instant.horizon)
    (hexpected : ∀ t ∈ v.polled.2.tried, (v.outcome t).isExpected = true)
    {before after : List Moment} (hbefore : ∀ x ∈ before, x.instant ≤ v.start) (hafter : after ≠ [])
    (hshows : ∀ x ∈ after, v.Shows x)
    (hprompt : (v.publish (before.foldl Pipeline.pass { deployment := d })).Prompt after) :
    let p := v.run d before after
    let now := p.deployment.now
    let tried := v.polled.2.tried
    let ended := v.polled.2.now
    taken p.log = ((tried.filter fun t => decide (t ≤ now)).zipIdx 1).map
      (fun x => (x.1, ⟨0, Wire.encode v.header, x.2⟩)) ∧
    tried[0]? = some v.start ∧
    (∀ k t, tried[k + 1]? = some t → ∃ u, tried[k]? = some u ∧
      t = u + (v.settings.reassembly.backoff.delayAfter (k + 1)).nanos) ∧
    (∀ o, v.polled.1 = .value (.ok (), o) → ∃ payload, o.payload = some payload ∧
      emitted p.log = if ended ≤ now then [(ended, ⟨v.header, payload⟩)] else []) ∧
    (∀ e o, v.polled.1 = .value (.error e, o) →
      emitted p.log = [] ∧ tried.length = v.settings.reassembly.maxDeliveries.toNat) ∧
    ∃ g, p.deployment.bus.group? v.settings.subjects.reassembly
        v.settings.reassembly.queueGroup = some g ∧ g.dead = [] ∧
      g.acknowledged = if ended ≤ now then [⟨0, Wire.encode v.header, tried.length⟩] else [] := by
  have hsettings := Settings.valid_of_validate hvalid
  obtain ⟨last, hends⟩ :=
    Backoff.exists_ends Deployment.asksAgain v.outcome v.settings.reassembly.backoff v.start
    hsettings.reassembly_deliveries
  have hpolled := Vigil.polled_eq hends
  have hregular : v.Regular last := by
    refine ⟨hsettings.reassembly_slots, hshown, hends, fun n hn => hexpected _ ?_⟩
    rw [hpolled]
    exact List.mem_map_of_mem (List.mem_range.2 (Nat.lt_succ_of_le hn))
  obtain ⟨hsole, hnow⟩ := Sole.start hstart
  have hidle : Idle v capacity { deployment := d } := ⟨hsole, hnow ▸ Nat.zero_le _, rfl, rfl⟩
  have hpending := (hidle.run hregular.slots_pos hbefore).publish
  have h : Standing v capacity last (v.run d before after) :=
    OnSchedule.run (.inr ⟨0, Nat.zero_le last, hpending⟩) hregular hcap hafter hshows hprompt
  intro p now tried ended
  have htried : tried = (List.range (last + 1)).map v.time := congrArg (·.2.tried) hpolled
  have hended : ended = v.time last := congrArg (·.2.now) hpolled
  have hlength : tried.length = last + 1 := by simp [htried]
  refine ⟨?_, ?_, fun k t ht => ?_, fun o ho => ?_, fun e o ho => ?_, ?_⟩
  · rw [htried]
    exact h.taken_eq
  · rw [htried]
    simp [Vigil.time, Backoff.instantAfter]
  · rw [htried] at ht ⊢
    exact Vigil.exists_before ht
  · have hlast : v.outcome (v.time last) = .value (.ok (), o) :=
      (congrArg Prod.fst hpolled).symm.trans ho
    obtain ⟨payload, rfl⟩ := Reassembler.exists_payload_of_ok hlast
    refine ⟨payload, rfl, ?_⟩
    rw [hended, h.emitted_eq, hlast]
    rfl
  · have hlast : v.outcome (v.time last) = .value (.error e, o) :=
      (congrArg Prod.fst hpolled).symm.trans ho
    have hmissing := hregular.expected last (Nat.le_refl last)
    rw [hlast] at hmissing
    refine ⟨?_, ?_⟩
    · rw [h.emitted_eq, hlast]
      exact ite_self []
    · rw [hlength]
      refine Vigil.spent_of_asks hends ?_
      rw [hlast]
      exact hmissing
  · obtain ⟨g, hg, hdead, hacknowledged⟩ := h.exists_group
    refine ⟨g, hg, hdead, ?_⟩
    rw [hacknowledged, hended, hlength]
    rfl

/-- A header whose one fragment arrives within a millisecond of it. -/
def octetVigil : Vigil where
  settings.keyspace := "octet"
  settings.reassembly := { pollInitialMs := 1, pollMaxMs := 2, maxDeliveries := 3 }
  header := Batch.headerOf 5 1 [7]
  start := 1000000
  history t := if t < 1500000 then {} else Reassembler.octetStore

/-- The deployment of its settings. -/
def octetDeployment : Deployment :=
  ((Deployment.initial octetVigil.settings.keys none true).startReassemblyWorker .bus
    octetVigil.settings.subjects.reassembly octetVigil.settings.reassembly 1).2

/-- A look before the header is published, an attempt at once and another one a millisecond
later. -/
def octetMoments : List Moment × List Moment :=
  ([⟨0, {}, {}, 1⟩], [⟨1000000, {}, {}, 2⟩, ⟨2000000, Reassembler.octetStore, {}, 1⟩])

theorem octetVigil_polled : octetVigil.polled =
    (.value (.ok (), { header := Batch.headerOf 5 1 [7], payload := some [7] }),
      ⟨2000000, [1000000, 2000000]⟩) := by
  decide +kernel

theorem octetMoments_prompt :
    (octetVigil.publish (octetMoments.1.foldl Pipeline.pass
      { deployment := octetDeployment })).Prompt octetMoments.2 := by
  refine ⟨⟨?_, ?_, ?_⟩, ⟨?_, ?_, ?_⟩, trivial⟩
  all_goals decide +kernel

theorem octetVigil_run :
    let log := (octetVigil.run octetDeployment octetMoments.1 octetMoments.2).log
    taken log = [(1000000, ⟨0, Wire.encode octetVigil.header, 1⟩),
      (2000000, ⟨0, Wire.encode octetVigil.header, 2⟩)] ∧
      emitted log = [(2000000, ⟨octetVigil.header, [7]⟩)] := by
  have hstart :
      (Deployment.initial octetVigil.settings.keys octetVigil.settings.ttl true).startReassemblyWorker
        .bus octetVigil.settings.subjects.reassembly octetVigil.settings.reassembly 1 =
      (.ok (), octetDeployment) :=
    Prod.ext (by decide +kernel) rfl
  have hexpected : ∀ t ∈ octetVigil.polled.2.tried, (octetVigil.outcome t).isExpected = true := by
    rw [octetVigil_polled]
    decide +kernel
  have hshows : ∀ x ∈ octetMoments.2, octetVigil.Shows x := by
    intro x hx
    rcases List.mem_cons.1 hx with rfl | hx
    · exact ⟨fun _ _ => rfl, ⟨rfl, rfl⟩, by decide⟩
    · obtain rfl := List.mem_singleton.1 hx
      exact ⟨fun _ _ => rfl, ⟨rfl, rfl⟩, by decide⟩
  have hnow :
      (octetVigil.run octetDeployment octetMoments.1 octetMoments.2).deployment.now = 2000000 := by
    decide +kernel
  obtain ⟨htaken, -, -, hready, -, -⟩ :=
    bus_polls_directly octetVigil (by decide +kernel) Nat.one_pos hstart
    (fun span hspan => by cases hspan) hexpected (by decide) (by decide) hshows octetMoments_prompt
  rw [hnow, octetVigil_polled] at htaken
  obtain ⟨payload, hpayload, hemitted⟩ := hready _ (congrArg Prod.fst octetVigil_polled)
  rw [hnow, octetVigil_polled] at hemitted
  obtain rfl : [7] = payload := Option.some.inj hpayload
  exact ⟨htaken, hemitted⟩

end FragmentRelay
