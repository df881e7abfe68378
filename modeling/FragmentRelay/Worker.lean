import FragmentRelay.Bus.Basic
import FragmentRelay.Handling

/-!
# Workers: who handles deliveries

A worker takes deliveries from one source, one at a time, and settles each before it takes the next.
Its source is a subscription on the bus or a feed, which is filled by hand. A reassembly worker
whose outlet is full waits with the packet in hand and its delivery unsettled.
-/

namespace FragmentRelay

/-- Where a worker's deliveries come from. -/
inductive Source where
  | bus (subscriber : Nat)
  | feed (number : Nat)
deriving DecidableEq, Repr

/-- A source that is filled by hand, and what its subscriber asked for. -/
structure Feed where
  subject : String
  group : String
  options : SubscribeOptions
  inbox : List Bus.Delivery := []
  isOpen : Bool := true
deriving DecidableEq

/-- What a worker does with its deliveries. -/
inductive Role where
  | ingest (redeliverAfter : Span)
  | reassembly (policy : PollPolicy) (outlet : Nat)
deriving DecidableEq

/-- The delay of the refusal with which a crash on a delivery ends. -/
def Role.crashDelay : Role → Span
  | ingest redeliverAfter => redeliverAfter
  | reassembly policy _ => policy.backoff.initial

/-- What a worker is at. -/
inductive Activity where
  | idle
  | sending (outlet : Nat) (packet : Packet) (ticket : Nat)
  | stopped
deriving DecidableEq

/-- A worker. -/
structure Worker where
  source : Source
  role : Role
  activity : Activity := .idle
deriving DecidableEq

end FragmentRelay
