import FragmentRelay.Proofs.Bus.Fates

/-!
# Runs: a bus under a clock

A run is a list of events: publications, subscriptions, polls, settlements, timers that run out,
time that passes and the closing of the bus, in any order and at any times. Timers may run out one
by one, each as late as it likes, or all that are due at once. The notes of a group say what each
event did to it.

* `Clocked.steps_next`: every event is some steps of each group, and its notes say which.
* `view_found`, `view_settle`: subscriptions and settlements.
-/

namespace FragmentRelay.Bus

/-- What can happen to a bus. -/
inductive Happening where
  | publish (topic : String) (body : Octets)
  | subscribe (topic group : String) (options : SubscribeOptions)
  | unsubscribe (subscriber : Nat)
  | poll (subscriber : Nat)
  | ack (ticket : Nat)
  | nack (ticket : Nat) (after : Span)
  | drop (ticket : Nat)
  | lapse (topic group : String) (index : Nat)
  | fire
  | pass (span : Span)
  | close
deriving DecidableEq

/-- Lets one timer of a group run out, if its time has come. -/
def Group.lapse (g : Group) (now : Instant) (index : Nat) : Group :=
  match g.timers[index]? with
  | none => g
  | some t => if t.due ≤ now then (g.without t).redeliver t.envelope t.maxDeliveries else g

/-- Lets one timer of the bus run out, if its time has come. -/
def lapse (b : Bus) (now : Instant) (topic group : String) (index : Nat) : Bus :=
  b.changeGroup topic group fun g => g.lapse now index

/-- A bus and the time. -/
structure Clocked where
  bus : Bus := {}
  now : Instant := 0

namespace Clocked

/-- One event. What the bus refuses changes nothing. -/
def next (c : Clocked) : Happening → Clocked
  | .publish topic body =>
    match c.bus.publish topic body with
    | .ok bus => { c with bus }
    | .error _ => c
  | .subscribe topic group options => { c with bus := (c.bus.subscribe topic group options).2 }
  | .unsubscribe id => { c with bus := c.bus.unsubscribe id }
  | .poll id => { c with bus := (c.bus.poll c.now id).2 }
  | .ack ticket => { c with bus := c.bus.ack ticket }
  | .nack ticket after => { c with bus := c.bus.nack c.now ticket after }
  | .drop ticket => { c with bus := c.bus.drop ticket }
  | .lapse topic group index => { c with bus := c.bus.lapse c.now topic group index }
  | .fire => { c with bus := c.bus.fire c.now }
  | .pass span => { c with now := c.now + span.nanos }
  | .close => { c with bus := c.bus.close }

end Clocked

/-- The bus and the time after some events, from an empty bus on. -/
def run (events : List Happening) : Clocked := events.foldl Clocked.next {}

/-! ### Notes -/

/-- Whether a delivery of a group has not been settled or dropped. -/
def holds (b : Bus) (topic group : String) (ticket : Nat) : Bool :=
  (b.holdings.find? fun h => h.ticket == ticket).any fun h => h.topic == topic && h.group == group

/-- A group by its subject and name, without its turn; one that has not been founded yet has no
messages. -/
def part (b : Bus) (topic group : String) : Group := (b.view topic group).getD { name := group }

/-- The messages that are kept for the first group of a subject. -/
def kept (b : Bus) (topic : String) : List Octets :=
  match b.topic? topic with
  | none => []
  | some t => t.backlog

namespace Clocked

/-- The note of a poll, if a subscriber of the group got a message. -/
def handout? (c : Clocked) (topic group : String) (id : Nat) : Option Note :=
  match c.bus.subscriber? id, (c.bus.poll c.now id).1 with
  | some s, .ready d =>
    if s.topic = topic ∧ s.group = group then
      (c.bus.part topic group).queue.head?.map fun e => .handedOut {
        instant := c.now
        ticket := d.ticket
        envelope := ⟨e.serial, d.body, d.attempt⟩
        due := c.now + s.options.ackWait.nanos
        maxDeliveries := s.options.maxDeliveries.toNat }
    else none
  | _, _ => none

/-- What an event does to a group. -/
def notes (c : Clocked) (topic group : String) : Happening → List Note
  | .publish subject body =>
    if c.bus.closed = false ∧ subject = topic ∧ (c.bus.view topic group).isSome
      then [.handedOver c.now body] else []
  | .subscribe subject name options =>
    if c.bus.closed = false ∧ options.maxInFlight ≠ 0 ∧ subject = topic ∧ name = group then
      (c.bus.kept topic).map (.handedOver c.now)
    else []
  | .poll id => (c.handout? topic group id).toList
  | .ack ticket => if c.bus.holds topic group ticket then [.acknowledged c.now ticket] else []
  | .nack ticket after =>
    if c.bus.holds topic group ticket then [.refused c.now ticket after] else []
  | .lapse subject name index =>
    if subject = topic ∧ name = group then
      ((c.bus.part topic group).timers[index]?.filter fun t =>
        t.due ≤ c.now).toList.map (.lapsed c.now)
    else []
  | .fire => ((c.bus.part topic group).dueTimers c.now).map (.lapsed c.now)
  | _ => []

/-- What some events do to a group. -/
def chronicle (topic group : String) : Clocked → List Happening → List Note
  | _, [] => []
  | c, e :: es => c.notes topic group e ++ chronicle topic group (c.next e) es

end Clocked

/-- What happened to a group in a run. -/
def chronicle (topic group : String) (events : List Happening) : List Note :=
  ({} : Clocked).chronicle topic group events

theorem run_append_singleton (events : List Happening) (e : Happening) :
    run (events ++ [e]) = (run events).next e := by
  simp [run]

theorem along_append_singleton {β : Type} {F : Clocked → β → List Happening → β}
    {f : Clocked → β → Happening → β} (hnil : ∀ c x, F c x [] = x)
    (hcons : ∀ c x e es, F c x (e :: es) = F (c.next e) (f c x e) es) (x : β)
    (events : List Happening) (e : Happening) :
    F {} x (events ++ [e]) = f (run events) (F {} x events) e := by
  have hsnoc : ∀ (c : Clocked) (x : β) (es : List Happening),
      F c x (es ++ [e]) = f (es.foldl Clocked.next c) (F c x es) e := by
    intro c x es
    induction es generalizing c x with
    | nil => rw [List.nil_append, hcons, hnil, hnil, List.foldl_nil]
    | cons d es ih => rw [List.cons_append, hcons, hcons, ih, List.foldl_cons]
  exact hsnoc {} x events

theorem chronicle_append_singleton (topic group : String) (events : List Happening)
    (e : Happening) :
    chronicle topic group (events ++ [e]) =
      chronicle topic group events ++ (run events).notes topic group e := by
  have hsnoc : ∀ (c : Clocked) (es : List Happening), c.chronicle topic group (es ++ [e]) =
      c.chronicle topic group es ++ (es.foldl Clocked.next c).notes topic group e := by
    intro c es
    induction es generalizing c with
    | nil => simp [Clocked.chronicle]
    | cons d es ih => simp [Clocked.chronicle, ih]
  exact hsnoc {} events

/-- Which note an event can leave. -/
inductive Noted (c : Clocked) : Happening → Note → Prop where
  | publish (subject : String) (body : Octets) :
      Noted c (.publish subject body) (.handedOver c.now body)
  | subscribe (subject name : String) (options : SubscribeOptions) (body : Octets) :
    Noted c (.subscribe subject name options) (.handedOver c.now body)
  | poll (id : Nat) (h : Handout) (hnow : h.instant = c.now) : Noted c (.poll id) (.handedOut h)
  | ack (ticket : Nat) : Noted c (.ack ticket) (.acknowledged c.now ticket)
  | nack (ticket : Nat) (after : Span) : Noted c (.nack ticket after) (.refused c.now ticket after)
  | lapse (subject name : String) (index : Nat) (t : Timer) :
      Noted c (.lapse subject name index) (.lapsed c.now t)
  | fire (t : Timer) : Noted c .fire (.lapsed c.now t)

theorem Clocked.noted {c : Clocked} {topic group : String} {e : Happening} {x : Note}
    (hx : x ∈ c.notes topic group e) : Noted c e x := by
  cases e with
  | publish subject body =>
    simp only [notes] at hx
    split_ifs at hx
    · obtain rfl := List.mem_singleton.1 hx
      exact .publish subject body
    · cases hx
  | subscribe subject name options =>
    simp only [notes] at hx
    split_ifs at hx
    · obtain ⟨body, -, rfl⟩ := List.mem_map.1 hx
      exact .subscribe subject name options body
    · cases hx
  | poll id =>
    simp only [notes, handout?] at hx
    split at hx
    · split_ifs at hx
      · obtain ⟨e, -, rfl⟩ := Option.map_eq_some_iff.1 (Option.mem_toList.1 hx)
        exact .poll id _ rfl
      · cases hx
    · cases hx
  | ack ticket =>
    simp only [notes] at hx
    split_ifs at hx
    · obtain rfl := List.mem_singleton.1 hx
      exact .ack ticket
    · cases hx
  | nack ticket after =>
    simp only [notes] at hx
    split_ifs at hx
    · obtain rfl := List.mem_singleton.1 hx
      exact .nack ticket after
    · cases hx
  | lapse subject name index =>
    simp only [notes] at hx
    split_ifs at hx
    · obtain ⟨t, -, rfl⟩ := List.mem_map.1 hx
      exact .lapse subject name index t
    · cases hx
  | fire =>
    obtain ⟨t, -, rfl⟩ := List.mem_map.1 hx
    exact .fire t
  | unsubscribe id => cases hx
  | drop ticket => cases hx
  | pass span => cases hx
  | close => cases hx

/-! ### Groups of a changed bus -/

variable {b b' : Bus} {topic group subject name : String} {id ticket : Nat} {now : Instant}
  {f : Group → Group}

/-- A delivery takes the first message of the queue, a ticket and a place among those that are
held. -/
theorem deliver_eq {s : Subscriber} {d : Delivery} (h : b.deliver now s = some (d, b')) :
    ∃ g e rest, b.group? s.topic s.group = some g ∧ g.name = s.group ∧ g.queue = e :: rest ∧
      d = ⟨b.nextTicket, e.body, e.attempt⟩ ∧
      b' = { b.changeGroup s.topic s.group fun _ => { g with
          queue := rest
          timers := g.timers ++
            [⟨now + s.options.ackWait.nanos, .settlement b.nextTicket, e,
              s.options.maxDeliveries.toNat⟩]
          turn := g.turn.tail } with
        holdings := b.holdings ++ [⟨b.nextTicket, s.id, s.topic, s.group⟩]
        nextTicket := b.nextTicket + 1 } := by
  unfold deliver at h
  cases hg : b.group? s.topic s.group with
  | none =>
    rw [hg] at h
    cases h
  | some g =>
    have hname : g.name = s.group := by
      obtain ⟨t, -, ht⟩ := Option.bind_eq_some_iff.1 hg
      simpa using List.find?_some ht
    simp only [hg, Group.take] at h
    split_ifs at h
    cases hq : g.queue with
    | nil =>
      rw [hq] at h
      cases h
    | cons e rest =>
      rw [hq] at h
      cases h
      exact ⟨g, e, rest, rfl, hname, hq, rfl, rfl⟩

/-- What a poll does. -/
inductive Polled (b : Bus) (now : Instant) : Poll × Bus → Prop where
  | absent : Polled b now (.closed, b)
  | closed (id : Nat) : Polled b now (.closed, b.unsubscribe id)
  | pending (s : Subscriber) : Polled b now (.pending, b.reserve s)
  | ready {s : Subscriber} {d : Delivery} {b' : Bus}
      (h : (b.reserve s).deliver now s = some (d, b')) :
    Polled b now (.ready d, b')

theorem polled (b : Bus) (now : Instant) (id : Nat) : Polled b now (b.poll now id) := by
  unfold poll
  split
  · exact .absent
  · rename_i s hs
    split_ifs
    · exact .closed id
    · simp only
      split
      · exact .pending s
      · rename_i h
        exact .ready h

theorem calm_handOver (g : Group) (body : Octets) :
    (g.handOver body).calm = g.calm.handOver body := rfl

theorem calm_foldl_handOver (g : Group) (bodies : List Octets) :
    (bodies.foldl Group.handOver g).calm = bodies.foldl Group.handOver g.calm := by
  induction bodies generalizing g with
  | nil => rfl
  | cons body bodies ih => rw [List.foldl_cons, List.foldl_cons, ih, calm_handOver]

theorem name_foldl_handOver (g : Group) (bodies : List Octets) :
    (bodies.foldl Group.handOver g).name = g.name := by
  induction bodies generalizing g with
  | nil => rfl
  | cons body bodies ih =>
    rw [List.foldl_cons, ih]
    rfl

/-- Whoever joins a subject finds the group of a name, founded if need be, with what was kept. -/
theorem find?_join (t : Topic) (group group' : String) :
    ((t.join group).groups.find? fun g => g.name == group') =
      if group' = group then
        some (t.backlog.foldl Group.handOver
          ((t.groups.find? fun g => g.name == group).getD { name := group }))
      else t.groups.find? fun g => g.name == group' := by
  have hf : ∀ g : Group, g.name = group → (t.backlog.foldl Group.handOver g).name = group :=
    fun g hg => (name_foldl_handOver g _).trans hg
  simp only [Topic.join]
  rw [find?_change Group.name hf]
  split_ifs with h hany hany
  · obtain ⟨g, hg⟩ := Option.isSome_iff_exists.1 (List.find?_isSome.2 (List.any_eq_true.1 hany))
    simp [hg]
  · have hnone : (t.groups.find? fun g => g.name == group) = none := by
      rw [List.find?_eq_none]
      intro g hg hname
      exact hany (List.any_eq_true.2 ⟨g, hg, hname⟩)
    simp [List.find?_append, hnone]
  · rfl
  · rw [List.find?_append]
    have hne : ¬ group = group' := Ne.symm h
    simp [hne]

theorem group?_found (b : Bus) (topic group topic' group' : String) :
    (b.found topic group).group? topic' group' =
      if topic' = topic ∧ group' = group then
        some ((b.kept topic).foldl Group.handOver ((b.group? topic group).getD { name := group }))
      else b.group? topic' group' := by
  have hname : ∀ t : Topic, (t.join group).name = t.name := fun t => rfl
  simp only [group?, topic?, found, topic?_changeTopic hname]
  by_cases htopic : topic' = topic
  · subst htopic
    simp only [if_true, Option.bind_some, find?_join, true_and, kept, topic?]
    cases b.topics.find? fun t => t.name == topic' with
    | none => rfl
    | some t => rfl
  · simp only [htopic, false_and, if_false]

/-- **A group that is founded gets what was kept.** -/
theorem view_found (b : Bus) (topic group topic' group' : String) :
    (b.found topic group).view topic' group' =
      if topic' = topic ∧ group' = group
        then some ((b.kept topic).foldl Group.handOver (b.part topic group))
      else b.view topic' group' := by
  rw [view, group?_found]
  split_ifs with h
  · rw [Option.map_some, calm_foldl_handOver, part, view]
    cases b.group? topic group <;> rfl
  · rfl

namespace Clocked

/-- **A subscription is refused and changes nothing, or founds its group; unless it crashes, there
is one more subscriber then.** -/
theorem next_subscribe (c : Clocked) (topic group : String) (options : SubscribeOptions) :
    (¬ (c.bus.closed = false ∧ options.maxInFlight ≠ 0) ∧
      c.next (.subscribe topic group options) = c) ∨
      (c.bus.closed = false ∧ options.maxInFlight ≠ 0) ∧
        (c.next (.subscribe topic group options) = { c with bus := c.bus.found topic group } ∨
          options.maxInFlight ≤ maxSlots ∧ c.next (.subscribe topic group options) =
            { c with bus := { c.bus.found topic group with
                subscribers := c.bus.subscribers ++
                  [⟨c.bus.nextSubscriber, topic, group, options, options.maxInFlight⟩]
                nextSubscriber := c.bus.nextSubscriber + 1 } }) := by
  simp only [next, subscribe]
  split_ifs with hclosed hzero hmany
  · exact .inl ⟨by simp [hclosed], rfl⟩
  · exact .inl ⟨fun h => h.2 hzero, rfl⟩
  · exact .inr ⟨⟨by simpa using hclosed, hzero⟩, .inl rfl⟩
  · exact .inr ⟨⟨by simpa using hclosed, hzero⟩, .inr ⟨Nat.not_lt.1 hmany, rfl⟩⟩

end Clocked

theorem view_unsubscribe (b : Bus) (id : Nat) :
    (b.unsubscribe id).view topic group = b.view topic group := by
  unfold unsubscribe
  split
  · rfl
  · rename_i s hs
    change (b.changeGroup s.topic s.group (·.leave id)).view topic group = _
    rw [view_changeGroup (f := fun g => g.leave id) fun g hg => hg]
    split_ifs with h
    · rw [h.1, h.2]
      rfl
    · rfl

/-- **Settling a delivery changes the group that it came from.** -/
theorem view_settle (b : Bus) (topic group : String) (ticket : Nat)
    (hname : ∀ g, (f g).name = g.name) (hcalm : ∀ g, (f g).calm = f g.calm) :
    (b.settle ticket f).view topic group =
      if b.holds topic group ticket then (b.view topic group).map f else b.view topic group := by
  unfold settle holds
  cases hh : b.holdings.find? fun h => h.ticket == ticket with
  | none => simp
  | some h =>
    change ((b.changeFree h.subscriber (· + 1)).changeGroup h.topic h.group f).view topic group = _
    rw [view_changeGroup fun g hg => (hname g).trans hg, group?_changeFree]
    by_cases hg : topic = h.topic ∧ group = h.group
    · obtain ⟨rfl, rfl⟩ := hg
      simp [view, hcalm, Function.comp_def]
    · have hg' : ¬ (h.topic = topic ∧ h.group = group) := fun he => hg ⟨he.1.symm, he.2.symm⟩
      rw [if_neg hg]
      simp [hg']
      rfl

namespace Group

theorem calm_acknowledge (g : Group) (ticket : Nat) :
    (g.acknowledge ticket).calm = g.calm.acknowledge ticket := by
  have hawait : g.calm.awaiting? ticket = g.awaiting? ticket := rfl
  simp only [acknowledge, hawait]
  split <;> rfl

theorem calm_refuse (g : Group) (now : Instant) (ticket : Nat) (after : Span) :
    (g.refuse now ticket after).calm = g.calm.refuse now ticket after := by
  have hawait : g.calm.awaiting? ticket = g.awaiting? ticket := rfl
  simp only [refuse, hawait]
  split
  · rfl
  · split
    · exact calm_redeliver _ _ _
    · rfl

theorem calm_lapse (g : Group) (now : Instant) (index : Nat) :
    (g.lapse now index).calm = g.calm.lapse now index := by
  have htimers : g.calm.timers = g.timers := rfl
  simp only [lapse, htimers]
  split
  · rfl
  · split
    · exact calm_redeliver _ _ _
    · rfl

theorem name_lapse (g : Group) (now : Instant) (index : Nat) :
    (g.lapse now index).name = g.name := by
  unfold lapse
  split
  · rfl
  · split
    · exact name_redeliver _ _ _
    · rfl

end Group

theorem view_lapse (b : Bus) (now : Instant) (subject name : String) (index : Nat)
    (topic group : String) :
    (b.lapse now subject name index).view topic group =
      if topic = subject ∧ group = name then (b.view topic group).map (·.lapse now index)
        else b.view topic group := by
  unfold lapse
  rw [view_changeGroup fun g hg => (Group.name_lapse g now index).trans hg]
  split_ifs with h
  · rw [h.1, h.2]
    simp [view, Group.calm_lapse, Function.comp_def]
  · rfl

/-! ### Every event is some steps -/

theorem part_of_view_eq (h : b'.view topic group = b.view topic group) :
    b'.part topic group = b.part topic group := by
  rw [part, part, h]

theorem part_of_view_some {g : Group} (h : b.view topic group = some g) :
    b.part topic group = g := by
  rw [part, h, Option.getD_some]

theorem part_of_view_map (h : b'.view topic group = (b.view topic group).map f)
    (hf : f { name := group } = { name := group }) :
    b'.part topic group = f (b.part topic group) := by
  rw [part, part, h]
  cases b.view topic group with
  | none => exact hf.symm
  | some g => rfl

theorem steps_same (h : b'.view topic group = b.view topic group) :
    Group.Steps (b.part topic group) [] (b'.part topic group) := by
  rw [part_of_view_eq h]
  exact .done

namespace Group

theorem steps_lapse_at (g : Group) (now : Instant) (index : Nat) :
    Steps g ((g.timers[index]?.filter fun t => t.due ≤ now).toList.map (.lapsed now))
      (g.lapse now index) := by
  unfold lapse
  cases ht : g.timers[index]? with
  | none => exact .done
  | some t =>
    by_cases hdue : t.due ≤ now
    · simp only [Option.filter_some, hdue, decide_true, if_true, Option.toList_some,
        List.map_singleton]
      exact (Step.lapse (List.mem_of_getElem? ht) hdue).steps
    · simp only [Option.filter_some, hdue, decide_false, if_false, Bool.false_eq_true,
        Option.toList_none, List.map_nil]
      exact .done

theorem acknowledge_empty (name : String) (ticket : Nat) :
    Group.acknowledge { name } ticket = { name } := rfl

theorem refuse_empty (name : String) (now : Instant) (ticket : Nat) (after : Span) :
    Group.refuse { name } now ticket after = { name } := rfl

theorem lapse_empty (name : String) (now : Instant) (index : Nat) :
    Group.lapse { name } now index = { name } := rfl

end Group

namespace Clocked

variable {c : Clocked}

theorem steps_publish (c : Clocked) (subject : String) (body : Octets) :
    Group.Steps (c.bus.part topic group) (c.notes topic group (.publish subject body))
      ((c.next (.publish subject body)).bus.part topic group) := by
  simp only [notes, next]
  cases h : c.bus.publish subject body with
  | error e =>
    have hclosed : ¬ c.bus.closed = false := by
      intro hopen
      simp [publish, hopen] at h
    rw [if_neg fun h => hclosed h.1]
    exact .done
  | ok bus =>
    have hopen : c.bus.closed = false := by
      unfold publish at h
      split_ifs at h with hclosed
      simpa using hclosed
    have hview := view_publish h topic group
    by_cases htopic : topic = subject
    · rw [if_pos htopic] at hview
      cases hg : c.bus.view topic group with
      | none =>
        rw [if_neg (by simp)]
        exact steps_same (by rw [hview, hg]; rfl)
      | some g =>
        rw [if_pos ⟨hopen, htopic.symm, rfl⟩, part_of_view_some hg,
          part_of_view_some (by rw [hview, hg]; rfl)]
        exact Group.Step.handOver.steps
    · rw [if_neg htopic] at hview
      rw [if_neg fun h => htopic h.2.1.symm]
      exact steps_same hview

theorem steps_subscribe (c : Clocked) (subject name : String) (options : SubscribeOptions) :
    Group.Steps (c.bus.part topic group) (c.notes topic group (.subscribe subject name options))
      ((c.next (.subscribe subject name options)).bus.part topic group) := by
  simp only [notes]
  rcases c.next_subscribe subject name options with ⟨hrefused, hnext⟩ | ⟨⟨hopen, hsome⟩, hnext⟩
  · rw [if_neg fun h => hrefused ⟨h.1, h.2.1⟩, hnext]
    exact .done
  · have hview : (c.next (.subscribe subject name options)).bus.view topic group =
        (c.bus.found subject name).view topic group := by
      rcases hnext with hnext | ⟨-, hnext⟩
      · rw [hnext]
      · rw [hnext]
        rfl
    rw [view_found] at hview
    by_cases hg : topic = subject ∧ group = name
    · obtain ⟨rfl, rfl⟩ := hg
      rw [if_pos ⟨rfl, rfl⟩] at hview
      rw [if_pos ⟨hopen, hsome, rfl, rfl⟩, part_of_view_some hview]
      exact Group.steps_handOver _ _ _
    · rw [if_neg hg] at hview
      rw [if_neg fun h => hg ⟨h.2.2.1.symm, h.2.2.2.symm⟩]
      exact steps_same hview

theorem notes_poll {id : Nat} {s : Subscriber} {g : Group} {e : Envelope} {rest : List Envelope}
    (hs : c.bus.subscriber? id = some s)
    (hpoll : c.bus.poll c.now id = (.ready ⟨c.bus.nextTicket, e.body, e.attempt⟩, b'))
    (ht : Taken c.bus b' c.now s g e rest) :
    c.notes s.topic s.group (.poll id) =
      [.handedOut ⟨c.now, c.bus.nextTicket, e, c.now + s.options.ackWait.nanos,
      s.options.maxDeliveries.toNat⟩] := by
  simp [notes, handout?, hs, hpoll, part_of_view_some ht.before, ht.queue_eq]

theorem steps_poll (c : Clocked) (id : Nat) :
    Group.Steps (c.bus.part topic group) (c.notes topic group (.poll id))
      ((c.next (.poll id)).bus.part topic group) := by
  cases hs : c.bus.subscriber? id with
  | none =>
    simp only [notes, handout?, hs]
    exact steps_same (by simp [next, poll, hs])
  | some s =>
    cases hclosed : c.bus.closed with
    | true =>
      simp only [notes, handout?, next, poll, hs, hclosed, if_true]
      exact steps_same (view_unsubscribe c.bus id)
    | false =>
      rcases @poll_cases c.bus c.now id s hs hclosed with ⟨b', hpoll, halike⟩ |
        ⟨b', g, e, rest, hpoll, ht⟩
      · simp only [notes, handout?, next, hs, hpoll]
        exact steps_same (halike.view_eq topic group not_false)
      · by_cases hg : s.topic = topic ∧ s.group = group
        · obtain ⟨rfl, rfl⟩ := hg
          rw [notes_poll hs hpoll ht, part_of_view_some ht.before]
          simp only [next, hpoll, part_of_view_some ht.after]
          exact (Group.Step.handOut ht.queue_eq).steps
        · simp only [notes, handout?, next, hs, hpoll, if_neg hg]
          exact steps_same (ht.alike topic group fun he => hg ⟨he.1.symm, he.2.symm⟩)

theorem steps_settle (b : Bus) (topic group : String) (ticket : Nat) {xs : List Note}
    (hname : ∀ g, (f g).name = g.name) (hcalm : ∀ g, (f g).calm = f g.calm)
    (hempty : f { name := group } = { name := group }) (hsteps : ∀ g, Group.Steps g xs (f g)) :
    Group.Steps (b.part topic group) (if b.holds topic group ticket then xs else [])
      ((b.settle ticket f).part topic group) := by
  have hview := view_settle b topic group ticket hname hcalm
  split_ifs at hview ⊢
  · rw [part_of_view_map hview hempty]
    exact hsteps _
  · exact steps_same hview

/-- **Every event is some steps of each group, and its notes say which.** -/
theorem steps_next (c : Clocked) (topic group : String) (e : Happening) :
    Group.Steps (c.bus.part topic group) (c.notes topic group e)
      ((c.next e).bus.part topic group) := by
  cases e with
  | publish subject body => exact c.steps_publish subject body
  | subscribe subject name options => exact c.steps_subscribe subject name options
  | unsubscribe id => exact steps_same (view_unsubscribe c.bus id)
  | poll id => exact c.steps_poll id
  | ack ticket =>
    exact steps_settle c.bus topic group ticket (fun g => Group.name_settleAs g c.now ticket .ack)
      (fun g => g.calm_acknowledge ticket) (Group.acknowledge_empty group ticket) fun g =>
        Group.Step.acknowledge.steps
  | nack ticket after =>
    exact steps_settle c.bus topic group ticket
      (fun g => Group.name_settleAs g c.now ticket (.nack after))
      (fun g => g.calm_refuse c.now ticket after) (Group.refuse_empty group c.now ticket after)
      fun g => Group.Step.refuse.steps
  | drop ticket =>
    have hsteps := steps_settle (f := id) c.bus topic group ticket (fun g => rfl) (fun g => rfl) rfl
      fun g => Group.Steps.done
    rwa [ite_self] at hsteps
  | lapse subject name index =>
    have hview := view_lapse c.bus c.now subject name index topic group
    simp only [notes, next]
    by_cases hg : topic = subject ∧ group = name
    · obtain ⟨rfl, rfl⟩ := hg
      rw [if_pos ⟨rfl, rfl⟩] at hview ⊢
      rw [part_of_view_map hview (Group.lapse_empty group c.now index)]
      exact Group.steps_lapse_at _ _ _
    · rw [if_neg hg] at hview
      rw [if_neg fun he => hg ⟨he.1.symm, he.2.symm⟩]
      exact steps_same hview
  | fire =>
    simp only [notes, next]
    rw [part_of_view_map (view_fire c.bus c.now topic group) (Group.fire_of_untimed rfl c.now)]
    exact Group.steps_fire _ _
  | pass span => exact .done
  | close => exact .done

end Clocked

end FragmentRelay.Bus
