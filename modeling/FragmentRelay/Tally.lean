import FragmentRelay.Reassembly

/-!
# The tally: what has happened so far

Every ingested fragment, every attempt at a reassembly, every published fragment and every crash of
a worker is counted under a name and, for some, a label.
-/

namespace FragmentRelay

/-- Counts of what has happened. -/
structure Tally where
  ingested : Nat := 0
  duplicate : Nat := 0
  rejectedMalformed : Nat := 0
  rejectedChecksum : Nat := 0
  rejectedEncode : Nat := 0
  rejectedStore : Nat := 0
  rejectedDecode : Nat := 0
  complete : Nat := 0
  incomplete : Nat := 0
  checksum : Nat := 0
  failed : Nat := 0
  published : Nat := 0
  crashes : Nat := 0
deriving DecidableEq, Repr

namespace Tally

/-- Counts the end of an ingestion. -/
def addIngest (t : Tally) : Except IngestError Ingested → Tally
  | .ok i =>
    if i.duplicate then { t with duplicate := t.duplicate + 1 }
    else { t with ingested := t.ingested + 1 }
  | .error (.malformed _) => { t with rejectedMalformed := t.rejectedMalformed + 1 }
  | .error (.checksumMismatch _ _) => { t with rejectedChecksum := t.rejectedChecksum + 1 }
  | .error (.encode _) => { t with rejectedEncode := t.rejectedEncode + 1 }
  | .error (.store _) => { t with rejectedStore := t.rejectedStore + 1 }

/-- Counts bytes that are not a fragment. -/
def addUndecodable (t : Tally) : Tally := { t with rejectedDecode := t.rejectedDecode + 1 }

/-- Counts the end of an attempt at a reassembly. -/
def addReassembly {α : Type} (t : Tally) : Except ReassemblyError α → Tally
  | .ok _ => { t with complete := t.complete + 1 }
  | .error (.checksumMismatch _ _) => { t with checksum := t.checksum + 1 }
  | .error e =>
    if e.notReady then { t with incomplete := t.incomplete + 1 }
    else { t with failed := t.failed + 1 }

/-- Counts published fragments. -/
def addPublished (t : Tally) (n : Nat) : Tally := { t with published := t.published + n }

/-- Counts the crash of a worker. -/
def addCrash (t : Tally) : Tally := { t with crashes := t.crashes + 1 }

/-- All counts by name and label. -/
def all (t : Tally) : List (String × Option (String × String) × Nat) :=
  let rejected := "fragcast_fragments_rejected_total"
  let reassemblies := "fragcast_reassemblies_total"
  [("fragcast_fragments_ingested_total", none, t.ingested),
    ("fragcast_fragments_duplicate_total", none, t.duplicate),
    (rejected, some ("reason", "malformed"), t.rejectedMalformed),
    (rejected, some ("reason", "checksum"), t.rejectedChecksum),
    (rejected, some ("reason", "encode"), t.rejectedEncode),
    (rejected, some ("reason", "store"), t.rejectedStore),
    (rejected, some ("reason", "decode"), t.rejectedDecode),
    (reassemblies, some ("outcome", "complete"), t.complete),
    (reassemblies, some ("outcome", "incomplete"), t.incomplete),
    (reassemblies, some ("outcome", "checksum"), t.checksum),
    (reassemblies, some ("outcome", "failed"), t.failed),
    ("fragcast_fragments_published_total", none, t.published),
    ("fragcast_worker_panics_total", none, t.crashes)]

/-- The counts above zero. -/
def nonzero (t : Tally) : List (String × Option (String × String) × Nat) :=
  t.all.filter fun c => decide (0 < c.2.2)

end Tally

end FragmentRelay
