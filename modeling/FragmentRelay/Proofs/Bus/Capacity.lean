import FragmentRelay.Proofs.Bus.Line
import FragmentRelay.Proofs.Bus.Order

/-!
# Capacity: how many deliveries a subscriber holds

A delivery is unsettled from the poll that brought it until it is acknowledged, refused or dropped,
whether or not its timer has run out by then. The unsettled deliveries of a subscriber, the slot
that a call reserves while it waits, and the free slots make up the bound that the subscriber asked
for, after any run. So no slot is lost: whoever has settled everything can hold as many deliveries
as before.

* `unsettled`, `ticketsOf_run`: the deliveries that a subscriber holds, by the events.
* `Manned.next`, `manned_run`: who is in the turn of a group is a member of it.
* `balance_run`: deliveries, a reserved slot and free slots make up the bound.
* `Supplied.serve`: the first in the turn gets the first message of the queue; `Supplied.drain`:
  everybody in the turn gets one; `Supplied.fill`: a subscriber gets one after the other;
  `Supplied.exists_refilled`: up to its bound.
* `slots_conserved`: the slots of a subscriber after any run.
-/

namespace FragmentRelay.Bus

variable {b b' : Bus} {c : Clocked} {s : Subscriber} {topic group : String} {id : Nat}

/-! ### Unsettled deliveries -/

namespace Clocked

/-- The unsettled deliveries of a subscriber after an event. -/
def unsettledAfter (c : Clocked) (id : Nat) (held : List Nat) : Happening → List Nat
  | .poll i =>
    match (c.bus.poll c.now i).1 with
    | .ready d => if i = id then held ++ [d.ticket] else held
    | _ => held
  | .ack ticket => held.filter (· != ticket)
  | .nack ticket _ => held.filter (· != ticket)
  | .drop ticket => held.filter (· != ticket)
  | _ => held

/-- The unsettled deliveries of a subscriber after some events. -/
def unsettled (id : Nat) : Clocked → List Nat → List Happening → List Nat
  | _, held, [] => held
  | c, held, e :: es => unsettled id (c.next e) (c.unsettledAfter id held e) es

end Clocked

/-- The tickets of the deliveries that a subscriber got in a run and that were neither acknowledged
nor refused nor dropped since. -/
def unsettled (id : Nat) (events : List Happening) : List Nat :=
  ({} : Clocked).unsettled id [] events

theorem unsettled_append_singleton (id : Nat) (events : List Happening) (e : Happening) :
    unsettled id (events ++ [e]) = (run events).unsettledAfter id (unsettled id events) e :=
  along_append_singleton (F := Clocked.unsettled id) (fun _ _ => rfl)
    (fun _ _ _ _ => rfl) [] events e

/-- The tickets that a subscriber holds. -/
def ticketsOf (b : Bus) (id : Nat) : List Nat :=
  (b.holdings.filter fun o => o.subscriber = id).map (·.ticket)

theorem length_ticketsOf (b : Bus) (id : Nat) : (b.ticketsOf id).length = b.heldBy id := by
  rw [ticketsOf, List.length_map, heldBy, List.countP_eq_length_filter]

theorem ticketsOf_congr (h : b'.holdings = b.holdings) (id : Nat) :
    b'.ticketsOf id = b.ticketsOf id := by
  rw [ticketsOf, h, ticketsOf]

theorem ticketsOf_settle (b : Bus) (ticket : Nat) (f : Group → Group) (id : Nat) :
    (b.settle ticket f).ticketsOf id = (b.ticketsOf id).filter (· != ticket) := by
  have hfilter : ((b.holdings.filter fun o => o.ticket != ticket).filter fun o =>
    o.subscriber = id).map (·.ticket) =
      (b.ticketsOf id).filter (· != ticket) := by
    rw [ticketsOf, List.filter_map, List.filter_comm]
    rfl
  rw [← hfilter]
  unfold settle
  cases ho : b.holdings.find? fun o => o.ticket == ticket with
  | some o => rfl
  | none =>
    -- no delivery has this ticket, so nothing is left out
    have hall : (b.holdings.filter fun o => o.ticket != ticket) = b.holdings := by
      rw [List.filter_eq_self]
      intro o hmem
      simpa using List.find?_eq_none.1 ho o hmem
    rw [hall]
    rfl

theorem ticketsOf_poll (c : Clocked) (i id : Nat) :
    (c.bus.poll c.now i).2.ticketsOf id = c.unsettledAfter id (c.bus.ticketsOf id) (.poll i) := by
  simp only [Clocked.unsettledAfter]
  cases hs : c.bus.subscriber? i with
  | none => simp [poll, hs]
  | some s =>
    obtain ⟨-, rfl⟩ := subscriber?_some hs
    cases hclosed : c.bus.closed with
    | true =>
      have hpoll : c.bus.poll c.now s.id = (.closed, c.bus.unsubscribe s.id) := by
        simp [poll, hs, hclosed]
      rw [hpoll]
      exact ticketsOf_congr (holdings_unsubscribe c.bus s.id) id
    | false =>
      rcases @poll_cases c.bus c.now s.id s hs hclosed with ⟨b', hb', halike⟩ |
        ⟨b', g, e, rest, hb', ht⟩
      · rw [hb']
        exact ticketsOf_congr halike.holdings_eq id
      · rw [hb', ticketsOf, ht.holdings_eq, List.filter_append, List.map_append, ticketsOf]
        by_cases hid : s.id = id <;> simp [hid]

/-- **What a subscriber holds is what it got and has not settled.** -/
theorem ticketsOf_run (events : List Happening) (id : Nat) :
    (run events).bus.ticketsOf id = unsettled id events := by
  induction events using List.reverseRecOn with
  | nil => rfl
  | append_singleton events e ih =>
    rw [run_append_singleton, unsettled_append_singleton, ← ih]
    cases e with
    | poll i => exact ticketsOf_poll (run events) i id
    | ack ticket => exact ticketsOf_settle _ ticket _ id
    | nack ticket after => exact ticketsOf_settle _ ticket _ id
    | drop ticket => exact ticketsOf_settle _ ticket _ id
    | publish subject body =>
      simp only [Clocked.next, publish]
      split_ifs <;> rfl
    | subscribe subject name options =>
      rcases (run events).next_subscribe subject name options
        with ⟨-, h⟩ | ⟨-, h | ⟨-, h⟩⟩ <;> rw [h] <;> rfl
    | unsubscribe i => exact ticketsOf_congr (holdings_unsubscribe _ i) id
    | _ => rfl

theorem heldBy_run (events : List Happening) (id : Nat) :
    (run events).bus.heldBy id = (unsettled id events).length := by
  rw [← ticketsOf_run, length_ticketsOf]

/-! ### Members in the turn -/

theorem exists_subscriber_of_subscription (h : b'.subscription? id = b.subscription? id)
    (hs : b.subscriber? id = some s) :
    ∃ s', b'.subscriber? id = some s' ∧ s'.topic = s.topic ∧ s'.group = s.group ∧
      s'.options = s.options := by
  rw [subscription?, subscription?, hs, Option.map_some] at h
  obtain ⟨s', hs', he⟩ := Option.map_eq_some_iff.1 h
  cases s
  cases s'
  cases he
  exact ⟨_, hs', rfl, rfl, rfl⟩

/-- A subscription lasts until its subscriber ends it, or asks for a message after the bus was
closed. -/
theorem Clocked.subscription?_next (c : Clocked) (e : Happening)
    (hs : c.bus.subscriber? id = some s) (hstay : e ≠ .unsubscribe id)
    (hopen : e = .poll id → c.bus.closed = false) :
    (c.next e).bus.subscription? id = c.bus.subscription? id := by
  have hleft : ∀ i, i ≠ id → (c.bus.unsubscribe i).subscription? id = c.bus.subscription? id := by
    intro i hne
    unfold unsubscribe
    split
    · rfl
    · simp only [subscription?, subscriber?, List.find?_filter]
      congr 2
      funext t
      by_cases ht : t.id = id
      · simp [ht, Ne.symm hne]
      · simp [ht]
  have hsettle : ∀ ticket f, (c.bus.settle ticket f).subscription? id = c.bus.subscription? id := by
    intro ticket f
    unfold settle
    split
    · rfl
    · exact subscription?_changeFree c.bus _ id _
  cases e with
  | publish subject body =>
    simp only [next, publish]
    split_ifs <;> rfl
  | subscribe subject name options =>
    rcases c.next_subscribe subject name options with ⟨-, h⟩ | ⟨-, h | ⟨-, h⟩⟩ <;> rw [h]
    · rfl
    · have hfound := hs
      unfold subscriber? at hfound
      simp only [subscription?, subscriber?, List.find?_append, hfound, Option.some_or]
  | unsubscribe i => exact hleft i fun he => hstay (he ▸ rfl)
  | poll i =>
    simp only [next]
    cases hi : c.bus.subscriber? i with
    | none => simp [poll, hi]
    | some t =>
      cases hclosed : c.bus.closed with
      | true =>
        have hne : i ≠ id := by
          rintro rfl
          rw [hopen rfl] at hclosed
          cases hclosed
        have hpoll : c.bus.poll c.now i = (.closed, c.bus.unsubscribe i) := by
          simp [poll, hi, hclosed]
        rw [hpoll]
        exact hleft i hne
      | false =>
        rcases @poll_cases c.bus c.now i t hi hclosed with ⟨b', hb', halike⟩ |
          ⟨b', g, e, rest, hb', ht⟩
        · rw [hb']
          exact halike.subscription_eq id
        · rw [hb']
          exact ht.subscription_eq id
  | ack ticket => exact hsettle ticket _
  | nack ticket after => exact hsettle ticket _
  | drop ticket => exact hsettle ticket _
  | _ => rfl

/-- Who is in the turn of a group is a member of it. -/
def Manned (b : Bus) : Prop :=
  ∀ topic group, ∀ i ∈ b.turnOf topic group, (b.member? topic group i).isSome

theorem Clocked.member?_next (c : Clocked) (e : Happening)
    (hm : (c.bus.member? topic group id).isSome) (hstay : e ≠ .unsubscribe id)
    (hopen : e = .poll id → c.bus.closed = false) :
    ((c.next e).bus.member? topic group id).isSome := by
  obtain ⟨s, hmember⟩ := Option.isSome_iff_exists.1 hm
  obtain ⟨hs, rfl, rfl⟩ := member?_eq_some.1 hmember
  obtain ⟨s', hs', htopic, hgroup, -⟩ :=
    exists_subscriber_of_subscription (c.subscription?_next e hs hstay hopen) hs
  rw [member?_eq_some.2 ⟨hs', htopic, hgroup⟩]
  rfl

/-- **Every event keeps the turns manned**: who joins a turn is a member, and who ends its
subscription leaves. -/
theorem Manned.next (h : Manned c.bus) (hseated : Seated c.bus) (e : Happening) :
    Manned (c.next e).bus := by
  intro topic group i hi
  rw [hseated.turnOf_next] at hi
  have hbefore : (c.bus.member? topic group i).isSome := by
    by_contra hnone
    have hout : i ∉ c.bus.turnOf topic group := fun hmem => hnone (h topic group i hmem)
    cases e with
    | poll id =>
      simp only [Clocked.lineUp] at hi
      split at hi
      · exact hout hi
      · rename_i s hs
        split at hi
        · split_ifs at hi
          · exact hout hi
          · rcases List.mem_append.1 hi with hi | hi
            · exact hout hi
            · obtain rfl := List.mem_singleton.1 hi
              exact hnone (by rw [hs]; rfl)
        · exact hout (List.mem_filter.1 hi).1
    | unsubscribe id =>
      simp only [Clocked.lineUp] at hi
      split_ifs at hi
      · exact hout (List.mem_filter.1 hi).1
      · exact hout hi
    | _ => exact hout hi
  refine c.member?_next e hbefore ?_ ?_
  · rintro rfl
    simp [Clocked.lineUp, hbefore] at hi
  · rintro rfl
    cases hclosed : c.bus.closed with
    | false => rfl
    | true =>
      obtain ⟨s, hs⟩ := Option.isSome_iff_exists.1 hbefore
      have hpoll : (c.bus.poll c.now i).1 = .closed := by
        simp [poll, (member?_eq_some.1 hs).1, hclosed]
      simp [Clocked.lineUp, hs, hpoll] at hi

theorem manned_run (events : List Happening) : Manned (run events).bus := by
  induction events using List.reverseRecOn with
  | nil => exact fun _ _ => List.forall_mem_nil _
  | append_singleton events e ih =>
    rw [run_append_singleton]
    exact ih.next (seated_run events) e

/-! ### Balance -/

variable {events : List Happening}

theorem balance_run (hs : (run events).bus.subscriber? id = some s) :
    (unsettled id events).length + (if id ∈ line s.topic s.group events then 1 else 0) + s.free =
      s.options.maxInFlight := by
  obtain ⟨hsubscribed, rfl⟩ := subscriber?_some hs
  have hslots := (seated_run events).slots s hsubscribed
  rw [slotsOf, heldBy_run, turnOf_run] at hslots
  omega

/-! ### Messages for everybody in the turn -/

variable {turn : List Nat} {queue : List Envelope} {k bound : Nat}

/-- A member of a group that may hold a number of deliveries. -/
def Entitled (events : List Happening) (topic group : String) (id bound : Nat) : Prop :=
  ∃ s, (run events).bus.member? topic group id = some s ∧ s.options.maxInFlight = bound

/-- A run that leaves the bus open, and the turn and the queue of a group after it. -/
structure Supplied (events : List Happening) (topic group : String) (turn : List Nat)
    (queue : List Envelope) :
    Prop where
  isOpen : (run events).bus.closed = false
  turn_eq : (run events).bus.turnOf topic group = turn
  queue_eq : ((run events).bus.part topic group).queue = queue

theorem Entitled.append_singleton (h : Entitled events topic group id bound) (e : Happening)
    (hstay : e ≠ .unsubscribe id) (hopen : (run events).bus.closed = false) :
    Entitled (events ++ [e]) topic group id bound := by
  obtain ⟨s, hmember, rfl⟩ := h
  obtain ⟨hs, rfl, rfl⟩ := member?_eq_some.1 hmember
  obtain ⟨s', hs', htopic, hgroup, hoptions⟩ :=
    exists_subscriber_of_subscription ((run events).subscription?_next e hs hstay fun _ => hopen) hs
  rw [← run_append_singleton] at hs'
  exact ⟨s', member?_eq_some.2 ⟨hs', htopic, hgroup⟩, by rw [hoptions]⟩

theorem Entitled.append {more : List Happening} (h : Entitled events topic group id bound)
    (hstay : .unsubscribe id ∉ more) (hopen : (run (events ++ more)).bus.closed = false) :
    Entitled (events ++ more) topic group id bound := by
  induction more using List.reverseRecOn with
  | nil => rwa [List.append_nil]
  | append_singleton more e ih =>
    rw [List.mem_append, List.mem_singleton, not_or] at hstay
    -- a bus that is open was open before
    rw [← List.append_assoc, run_append_singleton, Clocked.closed_next,
      Bool.or_eq_false_iff] at hopen
    rw [← List.append_assoc]
    exact (ih hstay.1 hopen.1).append_singleton e (Ne.symm hstay.2) hopen.1

theorem Entitled.length_unsettled_le (h : Entitled events topic group id bound) :
    (unsettled id events).length ≤ bound := by
  obtain ⟨s, hmember, rfl⟩ := h
  have hbalance := balance_run (member?_eq_some.1 hmember).1
  omega

namespace Supplied

/-- **The first in the turn gets the first message of the queue**, if it may hold another
delivery. -/
theorem serve {e : Envelope} (h : Supplied events topic group turn (e :: queue))
    (hm : Entitled events topic group id bound) (hfree : (unsettled id events).length < bound)
    (hfirst : ∀ i ∈ turn.head?, i = id) :
    ((run events).bus.poll (run events).now id).1 =
      .ready ⟨(run events).bus.nextTicket, e.body, e.attempt⟩ ∧
      Supplied (events ++ [.poll id]) topic group (turn.filter (· != id)) queue := by
  obtain ⟨s, hmember, rfl⟩ := hm
  obtain ⟨hs, rfl, rfl⟩ := member?_eq_some.1 hmember
  rw [← heldBy_run] at hfree
  have hpoll := (seated_run events).poll_eq (run events).now h.isOpen hs hfree h.queue_eq
  rw [h.turn_eq, if_pos hfirst] at hpoll
  refine ⟨hpoll, ?_⟩
  rcases @poll_cases (run events).bus (run events).now id s hs h.isOpen with ⟨b', hb', -⟩ |
    ⟨b', g, e', rest, hb', ht⟩
  · rw [hb'] at hpoll
    cases hpoll
  · have hqueue := ht.queue_eq
    rw [← part_of_view_some ht.before, h.queue_eq, List.cons.injEq] at hqueue
    refine ⟨?_, ?_, ?_⟩
    · rw [run_append_singleton]
      simp only [Clocked.next, hb']
      exact ht.closed_eq.trans h.isOpen
    · rw [run_append_singleton, (seated_run events).turnOf_next, h.turn_eq]
      simp only [Clocked.lineUp, hmember, hpoll]
    · rw [run_append_singleton]
      simp only [Clocked.next, hb', part_of_view_some ht.after, hqueue.2]

/-- **Everybody in the turn gets a message**, in turn, if there are enough. -/
theorem drain (h : Supplied events topic group turn queue) (hlength : turn.length ≤ queue.length) :
    Supplied (events ++ turn.map .poll) topic group [] (queue.drop turn.length) := by
  induction turn generalizing events queue with
  | nil => simpa using h
  | cons i turn ih =>
    cases queue with
    | nil => cases hlength
    | cons e queue =>
      have hmem : i ∈ (run events).bus.turnOf topic group := h.turn_eq ▸ List.mem_cons_self
      obtain ⟨s, hmember⟩ := Option.isSome_iff_exists.1 (manned_run events topic group i hmem)
      obtain ⟨hs, rfl, rfl⟩ := member?_eq_some.1 hmember
      obtain ⟨hsubscribed, rfl⟩ := subscriber?_some hs
      -- its place in the turn takes one of its slots
      have hslots := (seated_run events).slots s hsubscribed
      rw [slotsOf, if_pos hmem, heldBy_run] at hslots
      have hnodup := (seated_run events).turn_nodup s.topic s.group
      rw [h.turn_eq, List.nodup_cons] at hnodup
      have hrest : (s.id :: turn).filter (· != s.id) = turn := by
        rw [List.filter_cons_of_neg (by simp), List.filter_eq_self]
        intro j hj
        rw [bne_iff_ne]
        exact fun he => hnodup.1 (he ▸ hj)
      obtain ⟨-, hnext⟩ := h.serve ⟨s, hmember, rfl⟩ (by omega) (by simp)
      rw [hrest] at hnext
      simpa [List.append_assoc] using ih hnext (by simpa using hlength)

/-- **A subscriber gets one message after the other** while it may hold another delivery and nobody
else is in the turn. -/
theorem fill (h : Supplied events topic group turn queue) (hself : ∀ i ∈ turn, i = id)
    (hm : Entitled events topic group id bound) (hk : k ≤ queue.length)
    (hle : (unsettled id events).length + k ≤ bound) :
    (unsettled id (events ++ List.replicate k (.poll id))).length =
      (unsettled id events).length + k ∧
      ((run events).received topic group (List.replicate k (.poll id))).map (fun d =>
        (d.body, d.attempt)) =
        (queue.take k).map fun e => (e.body, e.attempt) := by
  induction k generalizing events turn queue with
  | zero => simp [Clocked.received]
  | succ k ih =>
    cases queue with
    | nil => cases hk
    | cons e queue =>
      obtain ⟨hpoll, hnext⟩ := h.serve hm (by omega) fun i hi => hself i (List.mem_of_mem_head? hi)
      have hunsettled : unsettled id (events ++ [.poll id]) =
          unsettled id events ++ [(run events).bus.nextTicket] := by
        rw [unsettled_append_singleton]
        simp only [Clocked.unsettledAfter, hpoll, if_true]
      have hlength := congrArg List.length hunsettled
      rw [List.length_append, List.length_singleton] at hlength
      obtain ⟨hmore, hreceived⟩ := ih hnext (fun i hi => hself i (List.mem_filter.1 hi).1)
        (hm.append_singleton _ (by simp) h.isOpen) (by simpa using hk) (by omega)
      rw [List.replicate_succ]
      constructor
      · rw [List.append_assoc, List.singleton_append] at hmore
        rw [hmore]
        omega
      · obtain ⟨s, hmember, -⟩ := hm
        obtain ⟨hs, rfl, rfl⟩ := member?_eq_some.1 hmember
        rw [run_append_singleton] at hreceived
        simp only [Clocked.received, Clocked.received?, hs, hpoll, and_self, if_true,
          Option.toList_some, List.singleton_append, List.map_cons, List.take_succ_cons, hreceived]

theorem publish (h : Supplied events topic group turn queue)
    (hm : Entitled events topic group id bound) (body : Octets) :
    ∃ e, Supplied (events ++ [.publish topic body]) topic group turn (queue ++ [e]) := by
  obtain ⟨s, hmember, -⟩ := hm
  obtain ⟨hs, rfl, rfl⟩ := member?_eq_some.1 hmember
  have hfounded := (seated_run events).founded s (subscriber?_some hs).1
  rw [turn?, Option.isSome_map] at hfounded
  obtain ⟨g, hg⟩ := Option.isSome_iff_exists.1 hfounded
  have hview : (run events).bus.view s.topic s.group = some g.calm := by
    rw [view, hg, Option.map_some]
  have hqueue := h.queue_eq
  rw [part_of_view_some hview] at hqueue
  refine ⟨⟨g.calm.handed, body, 1⟩, ?_, ?_, ?_⟩
  all_goals rw [run_append_singleton]
  · simp only [Clocked.next, Bus.publish, h.isOpen]
    rfl
  · rw [(seated_run events).turnOf_next, h.turn_eq]
    rfl
  · simp only [Clocked.next]
    cases hb : (run events).bus.publish s.topic body with
    | error e => simp [Bus.publish, h.isOpen] at hb
    | ok bus =>
      have hafter := view_publish hb s.topic s.group
      rw [if_pos rfl, hview, Option.map_some] at hafter
      simp only [part_of_view_some hafter, Group.handOver, hqueue]

theorem exists_stocked (h : Supplied events topic group turn queue)
    (hm : Entitled events topic group id bound) (n : Nat) : ∃ queue', n ≤ queue'.length ∧
      Entitled (events ++ List.replicate n (.publish topic [])) topic group id bound ∧
      Supplied (events ++ List.replicate n (.publish topic [])) topic group turn queue' := by
  induction n with
  | zero => exact ⟨queue, Nat.zero_le _, by simpa using hm, by simpa using h⟩
  | succ n ih =>
    obtain ⟨queue', hlength, hm', h'⟩ := ih
    obtain ⟨e, hnext⟩ := h'.publish hm' []
    refine ⟨queue' ++ [e], by simpa using hlength, ?_, ?_⟩
    all_goals rw [List.replicate_succ', ← List.append_assoc]
    · exact hm'.append_singleton _ (by simp) h'.isOpen
    · exact hnext

/-- **A subscriber can get messages until it holds as many as its bound**, whatever it holds and
whoever waits: enough messages are published, everybody in the turn gets one, and the subscriber
gets the next ones. -/
theorem exists_refilled (h : Supplied events topic group turn queue)
    (hm : Entitled events topic group id bound) :
    ∃ more, (∀ e ∈ more, (∃ body, e = .publish topic body) ∨ ∃ i, e = .poll i) ∧
      (unsettled id (events ++ more)).length = bound := by
  let published : List Happening := List.replicate (turn.length + bound) (.publish topic [])
  let served : List Happening := turn.map .poll
  obtain ⟨queue', hlength, hstocked, hlong⟩ := h.exists_stocked hm (turn.length + bound)
  have hdrained :
      Supplied (events ++ published ++ served) topic group [] (queue'.drop turn.length) :=
    hlong.drain (by omega)
  have hstill : Entitled (events ++ published ++ served) topic group id bound :=
    hstocked.append (by simp [served]) hdrained.isOpen
  have hheld := hstill.length_unsettled_le
  let missing := bound - (unsettled id (events ++ published ++ served)).length
  have henough : missing ≤ (queue'.drop turn.length).length := by
    rw [List.length_drop]
    omega
  obtain ⟨hfull, -⟩ := hdrained.fill (List.forall_mem_nil _) hstill henough (by omega)
  refine ⟨published ++ served ++ List.replicate missing (.poll id), fun e he => ?_, ?_⟩
  · rcases List.mem_append.1 he with he | he
    · rcases List.mem_append.1 he with he | he
      · exact .inl ⟨[], List.eq_of_mem_replicate he⟩
      · obtain ⟨i, -, rfl⟩ := List.mem_map.1 he
        exact .inr ⟨i, rfl⟩
    · exact .inr ⟨id, List.eq_of_mem_replicate he⟩
  · rw [← List.append_assoc, ← List.append_assoc, hfull]
    omega

end Supplied

/-! ### Slots after a run -/

/-- **No slot is lost.** On an open bus, after any run, the deliveries that a subscriber holds,
the slot that its waiting call has reserved and the free slots make up its bound, and it can get
messages until it holds as many again. -/
theorem slots_conserved (hopen : (run events).bus.closed = false)
    (hs : (run events).bus.subscriber? id = some s) :
    let waiting := line s.topic s.group events
    let queue := ((run events).bus.part s.topic s.group).queue
    let asking := List.replicate s.options.maxInFlight (.poll id)
    (unsettled id events).length + (if id ∈ waiting then 1 else 0) + s.free =
      s.options.maxInFlight ∧
    (unsettled id events).length ≤ s.options.maxInFlight ∧
    (unsettled id events = [] → (∀ i ∈ waiting, i = id) → s.options.maxInFlight ≤ queue.length →
      ((run events).received s.topic s.group asking).map (fun d => (d.body, d.attempt)) =
        (queue.take s.options.maxInFlight).map (fun e => (e.body, e.attempt)) ∧
      (unsettled id (events ++ asking)).length = s.options.maxInFlight) ∧
    ∃ more, (∀ e ∈ more, (∃ body, e = .publish s.topic body) ∨ ∃ i, e = .poll i) ∧
      (unsettled id (events ++ more)).length = s.options.maxInFlight := by
  have hbalance := balance_run hs
  have hsupplied : Supplied events s.topic s.group (line s.topic s.group events)
      ((run events).bus.part s.topic s.group).queue := ⟨hopen, turnOf_run events _ _, rfl⟩
  have hentitled : Entitled events s.topic s.group id s.options.maxInFlight :=
    ⟨s, member?_eq_some.2 ⟨hs, rfl, rfl⟩, rfl⟩
  refine ⟨hbalance, by omega, fun hnone hself hqueue => ?_, ?_⟩
  · obtain ⟨hlength, hreceived⟩ := hsupplied.fill hself hentitled hqueue (by simp [hnone])
    exact ⟨hreceived, by simpa [hnone] using hlength⟩
  · exact hsupplied.exists_refilled hentitled

/-- A subscriber waits for a message, and its deliveries end in every way: acknowledged, refused at
once and with a delay, acknowledged after the timer has run out, and dropped. -/
def settledRun : List Happening := [
  .subscribe "events" "workers" ⟨Span.ofSeconds 1, 2, 5⟩,
  .poll 0,
  .publish "events" [1],
  .publish "events" [2],
  .publish "events" [3],
  .publish "events" [4],
  .publish "events" [5],
  .poll 0,
  .poll 0,
  .poll 0,
  .ack 0,
  .nack 1 (Span.ofNanos 0),
  .poll 0,
  .poll 0,
  .nack 2 (Span.ofSeconds 2),
  .pass (Span.ofSeconds 2),
  .lapse "events" "workers" 0,
  .lapse "events" "workers" 0,
  .ack 3,
  .poll 0,
  .drop 4]

theorem settledRun_slots :
    unsettled 0 settledRun = [] ∧
    ((run settledRun).received "events" "workers" [.poll 0, .poll 0]).map (fun d =>
      (d.body, d.attempt)) =
      [([2], 2), ([4], 2)] ∧
    (unsettled 0 (settledRun ++ [.poll 0, .poll 0])).length = 2 := by
  have hs : (run settledRun).bus.subscriber? 0 =
      some ⟨0, "events", "workers", ⟨Span.ofSeconds 1, 2, 5⟩, 2⟩ := by
    decide +kernel
  obtain ⟨-, -, hagain, -⟩ :=
    slots_conserved (by decide +kernel : (run settledRun).bus.closed = false) hs
  have hnone : unsettled 0 settledRun = [] := by decide +kernel
  obtain ⟨hreceived, hlength⟩ := hagain hnone (by decide +kernel) (by decide +kernel)
  refine ⟨hnone, hreceived.trans ?_, hlength⟩
  decide +kernel

end FragmentRelay.Bus
