import FragmentRelay.Handling

/-!
# Outlets: packets on their way out

An outlet keeps reassembled packets until they are taken. It has room for a number of them; whoever
has one more must wait. Once it is closed it takes no packet and has none.
-/

namespace FragmentRelay

/-- Packets that wait to be taken. -/
structure Outlet where
  capacity : Nat
  packets : List Packet := []
  isOpen : Bool := true
deriving DecidableEq

namespace Outlet

/-- What becomes of an offered packet. -/
inductive Offer where
  | accepted (o : Outlet)
  | full
  | closed
deriving DecidableEq

/-- Offers a packet. -/
def offer (o : Outlet) (p : Packet) : Offer :=
  if o.isOpen = false then .closed
  else if o.packets.length < o.capacity then .accepted { o with packets := o.packets ++ [p] }
  else .full

/-- The outlet after all its packets were taken. -/
def emptied (o : Outlet) : Outlet := { o with packets := [] }

/-- The outlet after nobody takes packets any more. -/
def close (o : Outlet) : Outlet := { o with packets := [], isOpen := false }

end Outlet

end FragmentRelay
