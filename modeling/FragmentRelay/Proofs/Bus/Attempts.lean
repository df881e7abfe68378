import FragmentRelay.Proofs.Bus.Audience
import FragmentRelay.Proofs.Bus.Ledger

/-!
# Attempts: how often a message is delivered

Where all subscribers of a group allow the same number of deliveries, a message is delivered with
the attempts `1, 2, …` up to that number, each one after the one before has ended; an
acknowledgement in time is the last that is heard of a message; and what ends its last attempt makes
it dead.

* `exists_subscription`: every delivery allows what some subscriber asked for.
* `Recorded.attempts_eq`, `Recorded.mem_dead_iff`: attempts and dead messages, by the notes.
* `Ledger.not_delivered_again`: after an acknowledgement in time.
* `attempts_consecutive`: all of it, for every run.
-/

namespace FragmentRelay.Bus

/-! ### Subscribers -/

/-- The options of a subscription to a group that does not fail. -/
def Happening.options? (topic group : String) : Happening → Option SubscribeOptions
  | .subscribe subject name options =>
    if subject = topic ∧ name = group ∧ options.maxInFlight ≠ 0 ∧ options.maxInFlight ≤ maxSlots
      then some options
    else none
  | _ => none

/-- What the subscribers of a group have asked for. -/
def subscriptions (topic group : String) (events : List Happening) : List SubscribeOptions :=
  (opened events).filterMap (Happening.options? topic group)

variable {b b' : Bus} {c : Clocked} {topic group : String} {events : List Happening} {e : Happening}
  {f : Group → Group} {s : Subscriber} {o : SubscribeOptions}

theorem subscriptions_append (topic group : String) (events : List Happening) (e : Happening)
    (h : o ∈ subscriptions topic group events) : o ∈ subscriptions topic group (events ++ [e]) := by
  simp only [subscriptions, opened_append_singleton] at h ⊢
  split_ifs
  · exact h
  · rw [List.filterMap_append]
    exact List.mem_append_left _ h

/-- All subscribers of a bus were subscribers of another one, for the same group and with the same
options. -/
def Retains (b b' : Bus) : Prop :=
  ∀ s ∈ b'.subscribers, ∃ r ∈ b.subscribers, r.topic = s.topic ∧ r.group = s.group ∧
    r.options = s.options

theorem Retains.of_subset (h : ∀ s ∈ b'.subscribers, s ∈ b.subscribers) : Retains b b' :=
  fun s hs => ⟨s, h s hs, rfl, rfl, rfl⟩

theorem Retains.refl (b : Bus) : Retains b b := .of_subset fun _ hs => hs

theorem retains_changeFree (b : Bus) (id : Nat) (f : Nat → Nat) :
    Retains b (b.changeFree id f) := by
  intro s hs
  obtain ⟨r, hr, rfl⟩ := List.mem_map.1 hs
  refine ⟨r, hr, ?_⟩
  split_ifs <;> exact ⟨rfl, rfl, rfl⟩

theorem retains_unsubscribe (b : Bus) (id : Nat) : Retains b (b.unsubscribe id) := by
  unfold unsubscribe
  split
  · exact .refl _
  · exact .of_subset fun s hs => (List.mem_filter.1 hs).1

theorem retains_settle (b : Bus) (ticket : Nat) (f : Group → Group) :
    Retains b (b.settle ticket f) := by
  unfold settle
  split
  · exact .refl _
  · exact retains_changeFree b _ _

theorem retains_reserve (b : Bus) (s : Subscriber) : Retains b (b.reserve s) := by
  unfold reserve
  split
  · exact .refl _
  · exact retains_changeFree b s.id (· - 1)

theorem retains_poll (b : Bus) (now : Instant) (id : Nat) : Retains b (b.poll now id).2 := by
  have h := polled b now id
  generalize b.poll now id = p at h ⊢
  cases h with
  | absent => exact .refl b
  | closed id => exact retains_unsubscribe b id
  | pending s => exact retains_reserve b s
  | @ready s d b' h =>
    obtain ⟨g, e, rest, -, -, -, rfl, rfl⟩ := deliver_eq h
    exact retains_reserve b s

namespace Clocked

/-- Whoever subscribes to a bus is retained, and only subscriptions bring new subscribers. -/
theorem subscribers_next (c : Clocked) (e : Happening) :
    ∀ s ∈ (c.next e).bus.subscribers,
      (∃ r ∈ c.bus.subscribers, r.topic = s.topic ∧ r.group = s.group ∧ r.options = s.options) ∨
        c.bus.closed = false ∧ e.options? s.topic s.group = some s.options := by
  have hretains : Retains c.bus (c.next e).bus → ∀ s ∈ (c.next e).bus.subscribers,
      (∃ r ∈ c.bus.subscribers, r.topic = s.topic ∧ r.group = s.group ∧ r.options = s.options) ∨
        c.bus.closed = false ∧ e.options? s.topic s.group = some s.options :=
          fun h s hs => .inl (h s hs)
  cases e with
  | publish subject body =>
    refine hretains (.of_subset ?_)
    simp only [next, publish]
    split_ifs <;> exact fun _ => id
  | subscribe subject name options =>
    rcases c.next_subscribe subject name options with ⟨-, h⟩ | ⟨⟨hopen, hsome⟩, h | ⟨hfew, h⟩⟩
    · exact hretains (by rw [h]; exact .refl _)
    · exact hretains (by rw [h]; exact .refl _)
    · rw [h]
      intro s hs
      rcases List.mem_append.1 hs with hs | hs
      · exact .inl ⟨s, hs, rfl, rfl, rfl⟩
      · obtain rfl := List.mem_singleton.1 hs
        exact .inr ⟨hopen, if_pos ⟨rfl, rfl, hsome, hfew⟩⟩
  | unsubscribe id => exact hretains (retains_unsubscribe c.bus id)
  | poll id => exact hretains (retains_poll c.bus c.now id)
  | ack ticket => exact hretains (retains_settle c.bus ticket _)
  | nack ticket after => exact hretains (retains_settle c.bus ticket _)
  | drop ticket => exact hretains (retains_settle c.bus ticket _)
  | lapse subject name index => exact hretains (.refl _)
  | fire => exact hretains (.refl _)
  | pass span => exact hretains (.refl _)
  | close => exact hretains (.refl _)

theorem exists_subscriber {h : Handout} (hh : .handedOut h ∈ c.notes topic group e) :
    ∃ s ∈ c.bus.subscribers, s.topic = topic ∧ s.group = group ∧
      h.maxDeliveries = s.options.maxDeliveries.toNat := by
  cases noted hh with
  | poll id h hnow =>
    simp only [notes, handout?] at hh
    split at hh
    · rename_i s d hs hd
      split_ifs at hh with hgroup
      · obtain ⟨x, -, hx⟩ := Option.map_eq_some_iff.1 (Option.mem_toList.1 hh)
        cases hx
        exact ⟨s, List.mem_of_find?_eq_some hs, hgroup.1, hgroup.2, rfl⟩
      · cases hh
    · cases hh

end Clocked

theorem subscribers_run (events : List Happening) :
    ∀ s ∈ (run events).bus.subscribers, s.options ∈ subscriptions s.topic s.group events := by
  induction events using List.reverseRecOn with
  | nil => exact fun s hs => nomatch hs
  | append_singleton events e ih =>
    rw [run_append_singleton]
    intro s hs
    rcases (run events).subscribers_next e s hs with ⟨r, hr, htopic, hgroup, hoptions⟩ |
      ⟨hopen, hoptions⟩
    · rw [← htopic, ← hgroup, ← hoptions]
      exact subscriptions_append _ _ events e (ih r hr)
    · have hmem : .close ∉ events := by
        rw [(follows_run events).closed_eq] at hopen
        exact of_decide_eq_false hopen
      have he : e ≠ .close := by
        rintro rfl
        cases hoptions
      rw [subscriptions, opened_append_singleton, if_neg (not_or.2 ⟨hmem, he⟩),
        List.filterMap_append]
      exact List.mem_append_right _ (by simp [hoptions])

/-- **Every delivery allows what some subscriber of the group asked for.** -/
theorem exists_subscription (topic group : String) (events : List Happening) :
    ∀ h ∈ handouts (chronicle topic group events), ∃ o ∈ subscriptions topic group events,
      h.maxDeliveries = o.maxDeliveries.toNat := by
  induction events using List.reverseRecOn with
  | nil => exact fun h hh => nomatch hh
  | append_singleton events e ih =>
    intro h hh
    rw [chronicle_append_singleton, mem_handouts, List.mem_append] at hh
    rcases hh with hh | hh
    · obtain ⟨o, ho, heq⟩ := ih h (mem_handouts.2 hh)
      exact ⟨o, subscriptions_append _ _ events e ho, heq⟩
    · obtain ⟨s, hs, rfl, rfl, heq⟩ := Clocked.exists_subscriber hh
      exact ⟨s.options, subscriptions_append _ _ events e (subscribers_run events s hs), heq⟩

/-! ### Attempts and dead messages -/

section Notes

variable {notes : List Note} {g : Group} {h : Handout} {x : Note} {fate : Fate} {spot : Spot}
  {ticket m n : Nat}

theorem Spent.exists_last {hs : List Handout} (hp : Spent notes hs) (hpos : 0 < hs.length) :
    ∃ h ∈ hs, h.envelope.attempt = hs.length := by
  have hlast : hs.length ∈ hs.map (·.envelope.attempt) := by
    rw [hp.attempts_eq, List.mem_range'_1]
    omega
  exact List.mem_map.1 hlast

theorem Spent.length_lt {hs : List Handout} (hp : Spent notes hs)
    (hm : ∀ h ∈ hs, h.maxDeliveries = m) : hs.length < max 1 m := by
  rcases Nat.eq_zero_or_pos hs.length with hzero | hpos
  · omega
  · obtain ⟨h, hh, hattempt⟩ := hp.exists_last hpos
    have hallowed := hp.allowed h hh
    rw [hm h hh, hattempt] at hallowed
    omega

theorem Latest.attempts_eq (hl : Latest notes h fate)
    (hm : ∀ h ∈ handouts notes, h.maxDeliveries = m) :
    h.envelope.attempt ≤ max 1 m ∧
      (tries notes h.envelope.serial).map
        (·.envelope.attempt) = List.range' 1 h.envelope.attempt := by
  obtain ⟨earlier, htries, hspent, hattempt⟩ := hl.exists_earlier
  have hlt := hspent.length_lt fun o ho => hm o (mem_tries.1 (htries ▸ List.mem_append_left _ ho)).1
  refine ⟨by omega, ?_⟩
  rw [htries, List.map_append, hspent.attempts_eq, hattempt, List.range'_concat]
  simp [hattempt, Nat.add_comm]

/-- A message is on an attempt that is allowed, and the attempts so far are numbered from one. -/
theorem Told.attempts_eq (ht : Told notes spot) (hm : ∀ h ∈ handouts notes, h.maxDeliveries = m) :
    spot.envelope.attempt ≤ max 1 m ∧ ∃ k ≤ max 1 m,
      (tries notes spot.envelope.serial).map (·.envelope.attempt) = List.range' 1 k := by
  have hlatest : ∀ {h fate}, Latest notes h fate → h.envelope = spot.envelope →
      spot.envelope.attempt ≤ max 1 m ∧ ∃ k ≤ max 1 m,
        (tries notes spot.envelope.serial).map (·.envelope.attempt) = List.range' 1 k := by
    rintro h fate hl henvelope
    obtain ⟨hle, hattempts⟩ := hl.attempts_eq hm
    rw [henvelope] at hle hattempts
    exact ⟨hle, _, hle, hattempts⟩
  cases spot with
  | queued e =>
    obtain ⟨hspent, hattempt⟩ := ht
    have hlt := hspent.length_lt fun h hh => hm h (mem_tries.1 hh).1
    exact ⟨by simp only [Spot.envelope]; omega, _, Nat.le_of_lt hlt, hspent.attempts_eq⟩
  | timed t =>
    obtain ⟨h, henvelope, -, ⟨-, -, hl⟩ | ⟨-, hl⟩⟩ := ht
    · exact hlatest hl henvelope
    · exact hlatest hl henvelope
  | acknowledged e =>
    obtain ⟨h, henvelope, hl⟩ := ht
    exact hlatest hl henvelope
  | dead e =>
    obtain ⟨h, henvelope, -, hl⟩ := ht
    exact hlatest hl henvelope

namespace Recorded

theorem attempts_eq (hr : Recorded notes g ticket)
    (hm : ∀ h ∈ handouts notes, h.maxDeliveries = m) (n : Nat) :
    ∃ k ≤ max 1 m, (tries notes n).map (·.envelope.attempt) = List.range' 1 k := by
  cases htries : tries notes n with
  | nil => exact ⟨0, Nat.zero_le _, rfl⟩
  | cons h hs =>
    have hmem : h ∈ tries notes n := htries ▸ List.mem_cons_self
    obtain ⟨spot, hspot, hserial⟩ := hr.covered h (mem_tries.1 hmem).1
    rw [← htries, ← (mem_tries.1 hmem).2, ← hserial]
    exact ((hr.told spot hspot).attempts_eq hm).2

/-- **A message is dead when its last attempt has ended.** -/
theorem mem_dead_iff (hr : Recorded notes g ticket)
    (hm : ∀ h ∈ handouts notes, h.maxDeliveries = m) (n : Nat) :
    (∃ e ∈ g.dead, e.serial = n) ↔
      ∃ h ∈ tries notes n, h.envelope.attempt = max 1 m ∧ h.fate notes = .ended := by
  constructor
  · rintro ⟨e, he, rfl⟩
    obtain ⟨h, rfl, hle, hl⟩ := hr.told _ (Group.mem_spots_dead.2 he)
    obtain ⟨earlier, -, -, hattempt⟩ := hl.exists_earlier
    have hmax := (hl.attempts_eq hm).1
    rw [hm h hl.mem] at hle
    exact ⟨h, mem_tries.2 ⟨hl.mem, rfl⟩, by omega, hl.fate_eq⟩
  · rintro ⟨h, hh, hattempt, hended⟩
    obtain ⟨hmem, rfl⟩ := mem_tries.1 hh
    obtain ⟨spot, hspot, hserial⟩ := hr.covered h hmem
    have hlast : ¬ h.envelope.attempt < h.maxDeliveries := by
      rw [hm h hmem]
      omega
    rcases (hr.told spot hspot).cases_of_try (hserial ▸ hh) with
      ⟨-, hlt⟩ | ⟨t, rfl, -, hf⟩ | ⟨t, rfl, hf⟩ | ⟨e, rfl, hf⟩ | ⟨e, rfl, -⟩
    · exact absurd hlt hlast
    · exact absurd (hended.symm.trans hf) Fate.noConfusion
    · exact absurd (hended.symm.trans hf) Fate.noConfusion
    · exact absurd (hended.symm.trans hf) Fate.noConfusion
    · exact ⟨e, Group.mem_spots_dead.1 hspot, hserial⟩

theorem exists_ended_before (hr : Recorded notes g ticket) {before after : List Note}
    (hsplit : notes = before ++ .handedOut h :: after) (hagain : 1 < h.envelope.attempt) :
    ∃ o ∈ tries before h.envelope.serial, o.envelope.attempt + 1 = h.envelope.attempt ∧
      o.fate before = .ended := by
  obtain ⟨hspent, hattempt⟩ := hr.opened before h after hsplit
  obtain ⟨o, ho, hlength⟩ := hspent.exists_last (by omega)
  exact ⟨o, ho, by omega, hspent.ended o ho⟩

end Recorded

/-! ### Settlements -/

namespace Handout

theorem exists_of_not_awaited (hf : h.fate notes ≠ .awaited) :
    ∃ x ∈ notes, x.settled? = some h.ticket ∨ h.due ≤ x.instant := by
  induction notes using List.reverseRecOn with
  | nil => exact absurd rfl hf
  | append_singleton notes x ih =>
    by_cases hbefore : h.fate notes = .awaited
    · refine ⟨x, by simp, ?_⟩
      rw [fate_append, hbefore] at hf
      cases x with
      | handedOver now body => exact absurd rfl hf
      | handedOut o => exact absurd rfl hf
      | acknowledged now k =>
        by_cases hk : k = h.ticket
        · exact .inl (congrArg some hk)
        · simp [next, hk] at hf
      | refused now k after =>
        by_cases hk : k = h.ticket
        · exact .inl (congrArg some hk)
        · simp [next, hk] at hf
      | lapsed now t =>
        by_cases hdue : t.wait = .settlement h.ticket ∧ h.due ≤ now
        · exact .inr hdue.2
        · simp [next, hdue] at hf
    · obtain ⟨y, hy, hcause⟩ := ih hbefore
      exact ⟨y, List.mem_append_left _ hy, hcause⟩

theorem fate_acknowledged (more : List Note) (hf : h.fate notes = .acknowledged) :
    h.fate (notes ++ more) = .acknowledged := by
  induction more using List.reverseRecOn with
  | nil => rwa [List.append_nil]
  | append_singleton more x ih => rw [← List.append_assoc, fate_append, ih, next_acknowledged]

end Handout

theorem Group.Steps.eq_of_settled {g' : Group} {xs : List Note} (hs : Group.Steps g xs g')
    (hsettled : ∀ x ∈ xs, x.settled? = some ticket)
    (hnone : g.awaiting? ticket = none) : g' = g := by
  induction hs with
  | done => rfl
  | @next g g₁ g' x xs hstep hs ih =>
    have hx := hsettled x List.mem_cons_self
    have hsame : g₁ = g := by
      cases hstep with
      | acknowledge =>
        cases hx
        simp [Group.acknowledge, hnone]
      | refuse =>
        cases hx
        simp [Group.refuse, hnone]
      | handOver => cases hx
      | handOut hq => cases hx
      | lapse ht hdue => cases hx
    subst hsame
    exact ih (fun y hy => hsettled y (List.mem_cons_of_mem x hy)) hnone

namespace Ledger

/-- **A message that was acknowledged in time is not delivered again.** -/
theorem not_delivered_again (hl : Ledger c topic group notes)
    {before after : List Note} {now : Instant}
    (hsplit : notes = before ++ .acknowledged now h.ticket :: after) (hh : h ∈ handouts before)
    (hnow : now < h.due) : ∀ o ∈ handouts after, o.envelope.serial ≠ h.envelope.serial := by
  -- until then it was not settled, as nothing is settled twice, and its ack wait was not over
  have hawaited : h.fate before = .awaited := by
    by_contra hf
    obtain ⟨x, hx, hsettled | hdue⟩ := Handout.exists_of_not_awaited hf
    · have hnodup := hl.settled_nodup
      rw [hsplit, settlements_append, List.nodup_append] at hnodup
      have hagain : h.ticket ∈ settlements (.acknowledged now h.ticket :: after) := by
        simp [settlements, Note.settled?]
      exact hnodup.2.2 h.ticket (List.mem_filterMap.2 ⟨x, hx, hsettled⟩) h.ticket hagain rfl
    · have hsorted := hl.sorted
      rw [hsplit, List.pairwise_append] at hsorted
      have hle : x.instant ≤ now := hsorted.2.2 x hx _ List.mem_cons_self
      exact absurd (Nat.le_trans hdue hle) (Nat.not_le.2 hnow)
  have hacknowledged : h.fate (before ++ [.acknowledged now h.ticket]) = .acknowledged := by
    rw [Handout.fate_append, hawaited]
    simp [Handout.next]
  -- a later delivery of the message would find this one ended
  intro o ho hserial
  obtain ⟨mid, rest, hafter⟩ := List.append_of_mem (mem_handouts.1 ho)
  have hnotes :
      notes = (before ++ [.acknowledged now h.ticket] ++ mid) ++ .handedOut o :: rest := by
    rw [hsplit, hafter]
    simp
  have hspent := (hl.recorded.opened _ _ _ hnotes).1
  have htry : h ∈ tries (before ++ [.acknowledged now h.ticket] ++ mid) o.envelope.serial := by
    refine mem_tries.2 ⟨mem_handouts.2 ?_, hserial.symm⟩
    exact List.mem_append_left _ (List.mem_append_left _ (mem_handouts.1 hh))
  have hended := hspent.ended h htry
  rw [Handout.fate_acknowledged mid hacknowledged] at hended
  cases hended

/-- **Settling a delivery that nobody awaits leaves the group as it is.** -/
theorem part_settled_late (hl : Ledger c topic group notes) (hh : h ∈ handouts notes)
    (hf : h.fate notes ≠ .awaited) (he : e = .ack h.ticket ∨ ∃ after, e = .nack h.ticket after) :
    (c.next e).bus.part topic group = c.bus.part topic group := by
  have hnone : (c.bus.part topic group).awaiting? h.ticket = none := by
    refine Group.awaiting?_eq_none_iff.2 fun t ht hw => ?_
    obtain ⟨o, -, -, hk, -, ho⟩ :=
      Told.settlement (hl.recorded.told _ (Group.mem_spots_timed.2 ht)) hw
    obtain rfl := eq_of_ticket_eq hl.recorded.tickets_nodup ho.mem hh hk
    exact hf ho.fate_eq
  refine (c.steps_next topic group e).eq_of_settled (fun x hx => ?_) hnone
  rcases he with rfl | ⟨after, rfl⟩
  · cases Clocked.noted hx
    rfl
  · cases Clocked.noted hx
    rfl

end Ledger

end Notes

/-- **Attempts are consecutive and bounded, and an acknowledgement ends them**, where all
subscribers of a group allow the same number of deliveries. -/
theorem attempts_consecutive {m : UInt32} {events : List Happening} {topic group : String}
    (hm : ∀ o ∈ subscriptions topic group events, o.maxDeliveries = m) :
    let bus := (run events).bus
    let notes := chronicle topic group events
    let most := max 1 m.toNat
    (∀ n, ∃ k ≤ most, (tries notes n).map (·.envelope.attempt) = List.range' 1 k) ∧
    (∀ before h after, notes = before ++ .handedOut h :: after → 1 < h.envelope.attempt →
      ∃ o ∈ tries before h.envelope.serial, o.envelope.attempt + 1 = h.envelope.attempt ∧
        o.fate before = .ended) ∧
    (∀ before now h after, notes = before ++ .acknowledged now h.ticket :: after →
      h ∈ handouts before → now < h.due →
      ∀ o ∈ handouts after, o.envelope.serial ≠ h.envelope.serial) ∧
    (∀ n, (∃ e ∈ (bus.part topic group).dead, e.serial = n) ↔
      ∃ h ∈ tries notes n, h.envelope.attempt = most ∧ h.fate notes = .ended) ∧
    (∀ h ∈ handouts notes, h.fate notes ≠ .awaited →
      ∀ e, (e = .ack h.ticket ∨ ∃ after, e = .nack h.ticket after) →
        (run (events ++ [e])).bus.part topic group = bus.part topic group) ∧
    ∀ e ∈ (bus.part topic group).places, e.attempt ≤ most ∧ most < UInt32.size := by
  have hl := ledger_run events topic group
  have hr := hl.recorded
  have hall : ∀ h ∈ handouts (chronicle topic group events), h.maxDeliveries = m.toNat := by
    intro h hh
    obtain ⟨o, ho, heq⟩ := exists_subscription topic group events h hh
    rw [heq, hm o ho]
  refine ⟨hr.attempts_eq hall, fun before h after => hr.exists_ended_before,
    fun before now h after => hl.not_delivered_again, hr.mem_dead_iff hall, fun h hh hf e he => ?_,
    fun e he => ⟨?_, ?_⟩⟩
  · rw [run_append_singleton]
    exact hl.part_settled_late hh hf he
  · rw [Group.places_eq_spots] at he
    obtain ⟨spot, hspot, rfl⟩ := List.mem_map.1 he
    exact ((hr.told spot hspot).attempts_eq hall).1
  · exact Nat.max_lt.2 ⟨by decide, m.toNat_lt_size⟩

/-- One message is acknowledged in time; another one is not, and is acknowledged late and refused
when it is delivered again. -/
def lateRun : List Happening := [
  .subscribe "events" "workers" { maxDeliveries := 2 },
  .publish "events" [1],
  .publish "events" [2],
  .poll 0,
  .poll 0,
  .ack 1,
  .pass (Span.ofSeconds 30),
  .lapse "events" "workers" 0,
  .poll 0,
  .ack 0,
  .nack 2 (Span.ofNanos 0)]

theorem lateRun_attempts :
    (∃ k ≤ 2, (tries (chronicle "events" "workers" lateRun) 0).map (·.envelope.attempt) =
      List.range' 1 k) ∧
    (∀ o ∈ handouts ((chronicle "events" "workers" lateRun).drop 5), o.envelope.serial ≠ 1) ∧
    ∃ e ∈ ((run lateRun).bus.part "events" "workers").dead, e.serial = 0 := by
  have hm : ∀ o ∈ subscriptions "events" "workers" lateRun, o.maxDeliveries = 2 := by decide +kernel
  obtain ⟨hattempts, -, hacknowledged, hdead, -⟩ := attempts_consecutive hm
  have hsplit : chronicle "events" "workers" lateRun =
    (chronicle "events" "workers" lateRun).take 4 ++
      .acknowledged 0 1 :: (chronicle "events" "workers" lateRun).drop 5 := by decide +kernel
  refine ⟨hattempts 0, hacknowledged _ _ ⟨0, 1, ⟨1, [2], 1⟩, 30000000000, 2⟩ _ hsplit
    (by decide +kernel) (by decide), (hdead 0).2 ?_⟩
  decide +kernel

end FragmentRelay.Bus
