import FragmentRelay.Bus.Group

/-!
# The bus: messages delivered at least once

Every group that has subscribed to a subject gets each message once, shared among its subscribers.
What is published before the first group subscribes is kept and handed to that group. A subscriber
holds at most `maxInFlight` deliveries; a slot is free again when its delivery is acknowledged,
refused or dropped, whether or not the message's timer has run out in the meantime.

Asking for a message is a poll: it reserves a slot and a place in the group's turn, and both stay
reserved if no message comes, also when nobody asks again.
-/

namespace FragmentRelay

namespace Bus

/-- A subject: what was published before any group subscribed, and the groups. -/
structure Topic where
  name : String
  backlog : List Octets := []
  groups : List Group := []
deriving DecidableEq

/-- A subscriber and its free slots. -/
structure Subscriber where
  id : Nat
  topic : String
  group : String
  options : SubscribeOptions
  free : Nat
deriving DecidableEq

/-- A delivery that its subscriber has not settled or dropped. -/
structure Holding where
  ticket : Nat
  subscriber : Nat
  topic : String
  group : String
deriving DecidableEq

/-- A message as a subscriber gets it. -/
structure Delivery where
  ticket : Nat
  body : Octets
  attempt : Nat
deriving DecidableEq

/-- Whether the bus has delivered the message before. -/
def Delivery.redelivery (d : Delivery) : Bool := decide (1 < d.attempt)

/-- The answer to a poll. -/
inductive Poll where
  | ready (d : Delivery)
  | pending
  | closed
deriving DecidableEq

end Bus

open Bus

/-- The state of a bus. -/
structure Bus where
  topics : List Topic := []
  subscribers : List Subscriber := []
  holdings : List Holding := []
  nextSubscriber : Nat := 0
  nextTicket : Nat := 0
  closed : Bool := false
deriving DecidableEq

namespace Bus

/-! ### Parts by name -/

/-- The topics with the one of a name changed; it is added if there is none. -/
def changeTopic (name : String) (f : Topic → Topic) : List Topic → List Topic
  | [] => [f { name }]
  | t :: r => if t.name = name then f t :: r else t :: changeTopic name f r

/-- The topic of a name. -/
def topic? (b : Bus) (name : String) : Option Topic := b.topics.find? fun t => t.name == name

/-- A group by its subject and name. -/
def group? (b : Bus) (topic group : String) : Option Group :=
  (b.topic? topic).bind fun t => t.groups.find? fun g => g.name == group

/-- The bus with one group changed. -/
def changeGroup (b : Bus) (topic group : String) (f : Group → Group) : Bus :=
  { b with topics := b.topics.map fun t =>
      if t.name = topic then
        { t with groups := t.groups.map fun g => if g.name = group then f g else g }
      else t }

/-- A subscriber by its number. -/
def subscriber? (b : Bus) (id : Nat) : Option Subscriber := b.subscribers.find? fun s => s.id == id

/-- The bus with the free slots of one subscriber changed. -/
def changeFree (b : Bus) (id : Nat) (f : Nat → Nat) : Bus :=
  { b with subscribers := b.subscribers.map fun s =>
      if s.id = id then { s with free := f s.free } else s }

/-! ### Counts -/

/-- The number of messages of a group that ran out of attempts. -/
def deadLetters (b : Bus) (topic group : String) : Nat :=
  match b.group? topic group with
  | none => 0
  | some g => g.dead.length

/-- The number of messages of a subject that wait for a first group. -/
def backlog (b : Bus) (topic : String) : Nat :=
  match b.topic? topic with
  | none => 0
  | some t => t.backlog.length

/-! ### Publishing and subscribing -/

/-- Publishes a message: it is handed to every group of the subject, or kept if there is none. -/
def publish (b : Bus) (topic : String) (body : Octets) : Except TransportError Bus :=
  if b.closed then .error .closed
  else
    .ok { b with topics := changeTopic topic (fun t =>
      if t.groups.isEmpty then { t with backlog := t.backlog ++ [body] }
      else { t with groups := t.groups.map fun g => g.handOver body }) b.topics }

/-- The topic with a group of this name, which gets everything that was kept. -/
def Topic.join (t : Topic) (group : String) : Topic :=
  let groups :=
    if t.groups.any fun g => g.name == group then t.groups else t.groups ++ [{ name := group }]
  { t with
    backlog := []
    groups := groups.map fun g => if g.name = group then t.backlog.foldl Group.handOver g else g }

/-- The most slots that a subscriber can have. -/
def maxSlots : Nat := (UInt64.size - 1) / 8

/-- How a subscription can fail: it is refused, or the bus crashes on more slots than it can
count. -/
inductive SubscribeFailure where
  | refused (e : TransportError)
  | crashed (text : String)
deriving DecidableEq

/-- The text of the crash on too many slots. -/
def slotOverflowText : String := s!"a subscriber cannot have more than {maxSlots} slots"

/-- Founds a group, if there is none of this name, and hands it what was kept. -/
def found (b : Bus) (topic group : String) : Bus :=
  { b with topics := changeTopic topic (fun t => t.join group) b.topics }

/-- Subscribes a new member of a group. A refusal changes nothing; a crash leaves the group
founded. -/
def subscribe (b : Bus) (topic group : String) (options : SubscribeOptions) :
    Except SubscribeFailure Nat × Bus :=
  if b.closed then (.error (.refused .closed), b)
  else if options.maxInFlight = 0 then
    (.error (.refused (.subscribe topic "max_in_flight must be at least one")), b)
  else if maxSlots < options.maxInFlight then
    (.error (.crashed slotOverflowText), b.found topic group)
  else
    let id := b.nextSubscriber
    (.ok id, { b.found topic group with
      subscribers := b.subscribers ++ [⟨id, topic, group, options, options.maxInFlight⟩]
      nextSubscriber := id + 1 })

/-- Ends a subscription and leaves the group's turn. -/
def unsubscribe (b : Bus) (id : Nat) : Bus :=
  match b.subscriber? id with
  | none => b
  | some s =>
    { b.changeGroup s.topic s.group (·.leave id) with
      subscribers := b.subscribers.filter fun s => s.id != id }

/-- Closes the bus: nothing more is published, subscribed or polled, but timers still run. -/
def close (b : Bus) : Bus := { b with closed := true }

/-! ### Polling -/

/-- Whether a subscriber has its place in the group's turn. -/
def waiting (b : Bus) (s : Subscriber) : Bool :=
  match b.group? s.topic s.group with
  | none => false
  | some g => g.turn.contains s.id

/-- Reserves a slot and a place in the turn, unless that is done or no slot is free. -/
def reserve (b : Bus) (s : Subscriber) : Bus :=
  if b.waiting s || s.free == 0 then b
  else
    (b.changeFree s.id (· - 1)).changeGroup s.topic s.group fun g =>
      { g with turn := g.turn ++ [s.id] }

/-- Takes the first message of the queue for the subscriber whose turn it is. -/
def deliver (b : Bus) (now : Instant) (s : Subscriber) : Option (Delivery × Bus) :=
  match b.group? s.topic s.group with
  | none => none
  | some g =>
    if g.turn.head? = some s.id then
      match g.take now b.nextTicket s.options with
      | none => none
      | some (e, g') =>
        some (⟨b.nextTicket, e.body, e.attempt⟩,
          { b.changeGroup s.topic s.group fun _ => { g' with turn := g'.turn.tail } with
            holdings := b.holdings ++ [⟨b.nextTicket, s.id, s.topic, s.group⟩]
            nextTicket := b.nextTicket + 1 })
    else none

/-- Asks for a subscriber's next message. On a closed bus the subscription ends. -/
def poll (b : Bus) (now : Instant) (id : Nat) : Poll × Bus :=
  match b.subscriber? id with
  | none => (.closed, b)
  | some s =>
    if b.closed then (.closed, b.unsubscribe id)
    else
      let b := b.reserve s
      match b.deliver now s with
      | none => (.pending, b)
      | some (d, b) => (.ready d, b)

/-! ### Settling -/

/-- Frees the slot of a delivery and lets its group know. -/
def settle (b : Bus) (ticket : Nat) (f : Group → Group) : Bus :=
  match b.holdings.find? fun h => h.ticket == ticket with
  | none => b
  | some h =>
    let b := (b.changeFree h.subscriber (· + 1)).changeGroup h.topic h.group f
    { b with holdings := b.holdings.filter fun h => h.ticket != ticket }

/-- Acknowledges a delivery. -/
def ack (b : Bus) (ticket : Nat) : Bus := b.settle ticket (·.acknowledge ticket)

/-- Refuses a delivery; its message comes back after a delay. -/
def nack (b : Bus) (now : Instant) (ticket : Nat) (after : Span) : Bus :=
  b.settle ticket (·.refuse now ticket after)

/-- Drops a delivery unsettled: its timer runs on. -/
def drop (b : Bus) (ticket : Nat) : Bus := b.settle ticket id

/-! ### Time -/

/-- Lets all timers run out whose time has come. -/
def fire (b : Bus) (now : Instant) : Bus :=
  { b with topics := b.topics.map fun t => { t with groups := t.groups.map fun g => g.fire now } }

/-- All timers of the bus. -/
def timers (b : Bus) : List Timer := b.topics.flatMap fun t => t.groups.flatMap fun g => g.timers

/-- The number of messages that are queued or behind a timer. -/
def inTransit (b : Bus) : Nat :=
  (b.topics.flatMap fun t => t.groups.flatMap fun g => g.queue).length + b.timers.length

end Bus

end FragmentRelay
