import FragmentRelay.Span

/-!
# Subscriptions: what a subscriber asks of a bus

A subscriber asks how long a delivery may stay unsettled, how many it holds at once and after how
many attempts a message is given up. A bus may refuse a publication or a subscription.
-/

namespace FragmentRelay

/-- What a subscriber asks for. -/
structure SubscribeOptions where
  ackWait : Span := Span.ofSeconds 30
  maxInFlight : Nat := 64
  maxDeliveries : UInt32 := 5
deriving DecidableEq

/-- Why a bus refused. -/
inductive TransportError where
  | closed
  | publish (subject reason : String)
  | subscribe (subject reason : String)
deriving DecidableEq, Repr

/-- The text of a refusal. -/
def TransportError.message : TransportError → String
  | closed => "transport closed"
  | publish subject reason => s!"failed to publish on {subject}: {reason}"
  | subscribe subject reason => s!"failed to subscribe to {subject}: {reason}"

/-- The two subjects of a deployment. -/
structure Subjects where
  reassembly : String := "fragcast.reassembly"
  fragmentIngest : String := "fragcast.fragments.ingest"
deriving DecidableEq, Repr

end FragmentRelay
