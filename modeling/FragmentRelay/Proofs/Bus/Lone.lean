import FragmentRelay.Proofs.Bus.Turns

/-!
# Lone: a bus with one subscriber

On a bus with one group and one subscriber there is nobody to wait for: a poll brings the first
message of the queue whenever there is one. Between deliveries such a bus is its group, a ticket
number, and whether the subscriber has asked for a message that has not come (`lone`), and
everything that can happen leads to another one.

* `publish_lone`, `fire_lone`: publishing and passing time.
* `poll_lone_empty`, `poll_lone_ready`: polls.
* `settleAs_lone`: a message that is settled at the instant at which it is taken.
-/

namespace FragmentRelay.Bus

/-- A bus with one group and one subscriber that holds no delivery. A subscriber that waits for a
message has its turn and has reserved a slot; otherwise all its slots are free. -/
def lone (topic : String) (options : SubscribeOptions) (ticket : Nat) (waiting : Bool)
    (g : Group) : Bus where
  topics := [{ name := topic, groups := [{ g with turn := if waiting then [0] else [] }] }]
  subscribers :=
    [⟨0, topic, g.name, options, if waiting then options.maxInFlight - 1 else options.maxInFlight⟩]
  nextSubscriber := 1
  nextTicket := ticket

variable {topic : String} {options : SubscribeOptions} {ticket : Nat} {waiting : Bool} {g : Group}
  {e : Envelope} {rest : List Envelope}

theorem group?_lone :
    (lone topic options ticket waiting g).group? topic g.name =
      some { g with turn := if waiting then [0] else [] } := by
  simp [lone, group?, topic?]

theorem subscriber?_lone :
    (lone topic options ticket waiting g).subscriber? 0 =
      some ⟨0, topic, g.name, options,
        if waiting then options.maxInFlight - 1 else options.maxInFlight⟩ := rfl

theorem timers_lone :
    (lone topic options ticket waiting g).timers = g.timers := by simp [lone, timers]

theorem publish_lone (body : Octets) :
    (lone topic options ticket waiting g).publish topic body =
      .ok (lone topic options ticket waiting (g.handOver body)) := by
  simp [lone, publish, changeTopic, Group.handOver]

theorem fire_lone (now : Instant) :
    (lone topic options ticket waiting g).fire now =
      lone topic options ticket waiting (g.fire now) := by
  simp only [lone, fire, List.map_cons, List.map_nil, fire_turn, name_fire]

/-! ### Polling -/

theorem reserve_lone (hslots : 0 < options.maxInFlight) (free : Nat)
    (hfree : free = if waiting then options.maxInFlight - 1 else options.maxInFlight) :
    (lone topic options ticket waiting g).reserve ⟨0, topic, g.name, options, free⟩ =
      lone topic options ticket true g := by
  subst hfree
  cases waiting with
  | true => simp [reserve, Bus.waiting, group?_lone]
  | false =>
    have hnot : (lone topic options ticket false g).waiting
        ⟨0, topic, g.name, options, options.maxInFlight⟩ = false := by
      simp [Bus.waiting, group?_lone]
    have hne : options.maxInFlight ≠ 0 := Nat.ne_of_gt hslots
    simp only [reserve, if_neg, hnot, Bool.false_or, beq_iff_eq, hne, Bool.false_eq_true,
      not_false_eq_true]
    simp [lone, changeFree, changeGroup]

theorem poll_lone_empty (hslots : 0 < options.maxInFlight) (hq : g.queue = []) (now : Instant) :
    (lone topic options ticket waiting g).poll now 0 =
      (.pending, lone topic options ticket true g) := by
  have hopen : (lone topic options ticket waiting g).closed = false := rfl
  simp only [poll, subscriber?_lone, hopen, Bool.false_eq_true, if_false, reserve_lone hslots _ rfl,
    deliver, group?_lone, Group.take, hq]
  simp

/-- What the bus is while the first message of its queue is held. -/
def loneTaken (topic : String) (options : SubscribeOptions) (ticket : Nat) (now : Instant)
    (g : Group) (e : Envelope) (rest : List Envelope) : Bus :=
  { lone topic options (ticket + 1) false { g with
      queue := rest
      timers := g.timers ++
        [⟨now + options.ackWait.nanos, .settlement ticket, e, options.maxDeliveries.toNat⟩] } with
    subscribers := [⟨0, topic, g.name, options, options.maxInFlight - 1⟩]
    holdings := [⟨ticket, 0, topic, g.name⟩] }

theorem poll_lone_ready (hslots : 0 < options.maxInFlight) (hq : g.queue = e :: rest)
    (now : Instant) :
    (lone topic options ticket waiting g).poll now 0 =
      (.ready ⟨ticket, e.body, e.attempt⟩, loneTaken topic options ticket now g e rest) := by
  have hopen : (lone topic options ticket waiting g).closed = false := rfl
  simp only [poll, subscriber?_lone, hopen, Bool.false_eq_true, if_false, reserve_lone hslots _ rfl,
    deliver, group?_lone, Group.take, hq]
  simp [lone, loneTaken, changeGroup]

/-! ### Settling -/

theorem Group.calm_eq_self (h : g.turn = []) : g.calm = g := by
  rw [calm, ← h]

theorem Group.finish_turn (g : Group) (turn : List Nat) (now : Instant) (e : Envelope)
    (rest : List Envelope) (n : Nat) (d : Disposition) :
    { g with turn }.finish now e rest n d = { g.finish now e rest n d with turn } := by
  cases d with
  | ack => rfl
  | nack after =>
    simp only [finish]
    split
    · exact redeliver_turn { g with queue := rest } turn e n
    · rfl

theorem Group.name_finish (g : Group) (now : Instant) (e : Envelope) (rest : List Envelope)
    (n : Nat) (d : Disposition) : (g.finish now e rest n d).name = g.name := by
  cases d with
  | ack => rfl
  | nack after =>
    simp only [finish]
    split
    · exact name_redeliver _ _ _
    · rfl

/-- **A message that is settled at the instant at which it is taken moves between places**, and its
slot is free again. -/
theorem settleAs_lone (hslots : 0 < options.maxInFlight)
    (hdelay : ∀ t ∈ g.timers, t.wait = .delay) (now : Instant) (d : Disposition) :
    (loneTaken topic options ticket now g e rest).settleAs now ticket d =
      lone topic options (ticket + 1) false
        (g.finish now e rest options.maxDeliveries.toNat d) := by
  let held : Group := { g with
    queue := rest
    timers := g.timers ++
      [⟨now + options.ackWait.nanos, .settlement ticket, e, options.maxDeliveries.toNat⟩]
    turn := [] }
  have hsettled : held.settleAs now ticket d =
      { g.finish now e rest options.maxDeliveries.toNat d with turn := [] } := by
    have hturn : (held.settleAs now ticket d).turn = [] := turn_settleAs held now ticket d
    rw [← Group.calm_eq_self hturn, Group.calm_settleAs (g := g) hdelay rfl]
    exact Group.finish_turn g [] now e rest _ d
  have hbus : (loneTaken topic options ticket now g e rest).settleAs now ticket d =
      { topics := [{ name := topic, groups := [held.settleAs now ticket d] }]
        subscribers := [⟨0, topic, g.name, options, options.maxInFlight - 1 + 1⟩]
        nextSubscriber := 1
        nextTicket := ticket + 1 } := by
    rw [settleAs_eq]
    simp [settle, loneTaken, lone, changeFree, changeGroup, held]
  rw [hbus, hsettled, Nat.sub_add_cancel hslots]
  simp only [lone, Group.name_finish]
  rfl

end FragmentRelay.Bus
