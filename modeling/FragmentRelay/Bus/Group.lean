import FragmentRelay.Bus.Subscription
import FragmentRelay.Store.Basic

/-!
# Groups: subscribers that share the messages of a subject

A message handed to a group gets the next serial number and is always in one place: in the queue,
behind a timer, acknowledged or dead. A delivery starts a timer; if it runs out before the delivery
is settled, the message is delivered again. A refusal with a delay is a timer too. A message whose
last allowed attempt ends without an acknowledgement is dead.

Only one subscriber takes messages at a time: the first in `turn`. A subscriber that asks for a
message takes its place at the end and leaves when it gets one.
-/

namespace FragmentRelay.Bus

/-- A message on one of its attempts; the serial number is its place in the order of handing
over. -/
structure Envelope where
  serial : Nat
  body : Octets
  attempt : Nat
deriving DecidableEq

/-- What a timer waits for: the settlement of a delivery, or the end of a refusal's delay. -/
inductive Wait where
  | settlement (ticket : Nat)
  | delay
deriving DecidableEq

/-- A message that comes back when its time is due. -/
structure Timer where
  due : Instant
  wait : Wait
  envelope : Envelope
  maxDeliveries : Nat
deriving DecidableEq

/-- A group of subscribers. -/
structure Group where
  name : String
  handed : Nat := 0
  queue : List Envelope := []
  timers : List Timer := []
  acknowledged : List Envelope := []
  dead : List Envelope := []
  turn : List Nat := []
deriving DecidableEq

namespace Group

/-- Hands a message to the group: it joins the end of the queue on its first attempt. -/
def handOver (g : Group) (body : Octets) : Group :=
  { g with handed := g.handed + 1, queue := g.queue ++ [⟨g.handed, body, 1⟩] }

/-- Ends an attempt without an acknowledgement: the message joins the queue for its next attempt, or
is dead if this was its last. -/
def redeliver (g : Group) (e : Envelope) (maxDeliveries : Nat) : Group :=
  if maxDeliveries ≤ e.attempt then { g with dead := e :: g.dead }
  else { g with queue := g.queue ++ [{ e with attempt := e.attempt + 1 }] }

/-- The timer that waits for a delivery's settlement. -/
def awaiting? (g : Group) (ticket : Nat) : Option Timer :=
  g.timers.find? fun t => t.wait == .settlement ticket

/-- The group without the timer that waits for a delivery's settlement. -/
def stopAwaiting (g : Group) (ticket : Nat) : Group :=
  { g with timers := g.timers.filter fun t => t.wait != .settlement ticket }

/-- Acknowledges a delivery, if it is still awaited. -/
def acknowledge (g : Group) (ticket : Nat) : Group :=
  match g.awaiting? ticket with
  | none => g
  | some t => { g.stopAwaiting ticket with acknowledged := t.envelope :: g.acknowledged }

/-- Refuses a delivery, if it is still awaited: the message comes back at once or after a delay. -/
def refuse (g : Group) (now : Instant) (ticket : Nat) (after : Span) : Group :=
  match g.awaiting? ticket with
  | none => g
  | some t =>
    let g := g.stopAwaiting ticket
    if after.nanos = 0 then g.redeliver t.envelope t.maxDeliveries
    else { g with timers := g.timers ++ [{ t with due := now + after.nanos, wait := .delay }] }

/-- Takes the first message out of the queue for a delivery, whose timer starts. -/
def take (g : Group) (now : Instant) (ticket : Nat) (options : SubscribeOptions) :
    Option (Envelope × Group) :=
  match g.queue with
  | [] => none
  | e :: rest =>
    some (e, { g with
      queue := rest
      timers := g.timers ++
        [⟨now + options.ackWait.nanos, .settlement ticket, e, options.maxDeliveries.toNat⟩] })

/-- The timers that have run out, the earliest first. -/
def dueTimers (g : Group) (now : Instant) : List Timer :=
  (g.timers.filter fun t => decide (t.due ≤ now)).mergeSort fun s t => decide (s.due ≤ t.due)

/-- Lets the timers run out whose time has come. -/
def fire (g : Group) (now : Instant) : Group :=
  (g.dueTimers now).foldl (fun g t => g.redeliver t.envelope t.maxDeliveries)
    { g with timers := g.timers.filter fun t => decide (now < t.due) }

/-- Takes a subscriber out of the turn. -/
def leave (g : Group) (subscriber : Nat) : Group :=
  { g with turn := g.turn.filter fun s => s != subscriber }

end Group

end FragmentRelay.Bus
