import FragmentRelay.Store.Access

/-!
# Outages: planned failures of the store

An outage lets some reads and writes pass, then fails a number of them; it fails a number of
increments, of keys for one purpose if it names one; and it can crash every read.
-/

namespace FragmentRelay

/-- What is still to fail. -/
structure Outage where
  skipSets : Nat := 0
  failSets : Nat := 0
  skipGets : Nat := 0
  failGets : Nat := 0
  failIncrements : Nat := 0
  scope : Option String := none
  crashGets : Option String := none

namespace Outage

/-- The error of a planned failure. -/
def error : StoreError := .unavailable "injected failure"

/-- Whether an increment of a key is among those that fail. -/
def inScope (o : Outage) (key : Key) : Bool :=
  match o.scope with
  | none => true
  | some purpose => ('.' :: purpose.toList).isSuffixOf key.text.toList

/-- The outage as a failure rule. -/
def rule : Faults Outage
  | o, .get _ =>
    match o.crashGets with
    | some text => (.crash text, o)
    | none =>
      if 0 < o.skipGets then (.pass, { o with skipGets := o.skipGets - 1 })
      else if 0 < o.failGets then (.fail error, { o with failGets := o.failGets - 1 })
      else (.pass, o)
  | o, .set _ =>
    if 0 < o.skipSets then (.pass, { o with skipSets := o.skipSets - 1 })
    else if 0 < o.failSets then (.fail error, { o with failSets := o.failSets - 1 })
    else (.pass, o)
  | o, .increment key =>
    if 0 < o.failIncrements ∧ o.inScope key = true then
      (.fail error, { o with failIncrements := o.failIncrements - 1 })
    else (.pass, o)

end Outage

end FragmentRelay
