import FragmentRelay.Tally

/-!
# Handling: what is done with a delivery

A fragment that was delivered is ingested; a header that was delivered has its operation tried. Each
delivery ends acknowledged or refused with a delay: refused if another attempt may help.
-/

namespace FragmentRelay

/-- How a delivery is settled. -/
inductive Disposition where
  | ack
  | nack (after : Span)
deriving DecidableEq

/-! ### Fragments -/

/-- What an ingest worker found in a delivery. -/
inductive FragmentHandling where
  | undecodable
  | ingested (result : Except IngestError Ingested)

namespace FragmentHandling

/-- Handles a delivery on the ingest subject. -/
def ofBody (g : Ingestor) (body : Octets) : Access FragmentHandling :=
  match Wire.decode Fragment body with
  | .error _ => return undecodable
  | .ok f => do
    let result ← g.ingest f
    return ingested result

/-- A fragment that may be ingested later is refused, all else acknowledged. -/
def disposition (redeliverAfter : Span) : FragmentHandling → Disposition
  | undecodable => .ack
  | ingested (.ok _) => .ack
  | ingested (.error e) => if e.retryable then .nack redeliverAfter else .ack

/-- Counts a handled delivery. -/
def tally (t : Tally) : FragmentHandling → Tally
  | undecodable => t.addUndecodable
  | ingested r => t.addIngest r

end FragmentHandling

/-! ### Headers -/

/-- A reassembled payload and the header it was reassembled from. -/
structure Packet where
  header : Header
  payload : Octets
deriving DecidableEq

/-- When a reassembly worker tries again, and when it gives up. -/
structure PollPolicy where
  backoff : Backoff
  maxDeliveries : UInt32
deriving DecidableEq

/-- What a reassembly worker made of a delivery. -/
inductive HeaderHandling where
  | undecodable
  | attempted (result : Except ReassemblyError Unit) (operation : Operation)

namespace HeaderHandling

/-- Handles a delivery on the reassembly subject: on its first attempt the header is cached, and on
every attempt the operation is tried. -/
def ofBody (m : Reassembler) (body : Octets) (attempt : Nat) : Access HeaderHandling :=
  match Wire.decode Header body with
  | .error _ => return undecodable
  | .ok h => do
    if attempt = 1 then
      let _ ← m.cacheHeader h
    let (result, operation) ← m.reassemble { header := h }
    return attempted result operation

/-- The packet to hand on, if the operation is reassembled. -/
def packet? : HeaderHandling → Option Packet
  | attempted (.ok ()) o => o.payload.map fun payload => { header := o.header, payload }
  | _ => none

/-- An operation that may be ready later is refused until its last attempt, all else
acknowledged. -/
def disposition (p : PollPolicy) (attempt : Nat) : HeaderHandling → Disposition
  | undecodable => .ack
  | attempted (.ok ()) _ => .ack
  | attempted (.error e) _ =>
    if e.retryable then
      if p.maxDeliveries.toNat ≤ attempt then .ack else .nack (p.backoff.delayAfter attempt)
    else .ack

/-- Counts a handled delivery. -/
def tally (t : Tally) : HeaderHandling → Tally
  | undecodable => t
  | attempted r _ => t.addReassembly r

end HeaderHandling

/-! ### Crashes -/

/-- What a crashed worker left behind: a text, or a value that has none. -/
inductive CrashReport where
  | text (s : String)
  | value
deriving DecidableEq

/-- The text of a crash report. -/
def CrashReport.message : CrashReport → String
  | text s => s
  | value => "Any \x7b .. \x7d"

end FragmentRelay
