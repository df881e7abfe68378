import FragmentRelay.Settings.Basic
import FragmentRelay.Toml.Document

/-!
# Settings from a file

A settings file is a TOML document. Every section may be a table, of which any fields may be left
out but none added, or an array of its fields in order, of which the last ones may be left out.
-/

namespace FragmentRelay.Settings

open Toml

/-! ### Values of fields -/

/-- A text. -/
def text? : Value → Option String
  | .string s => some s
  | _ => none

/-- A whole number below a bound. -/
def natBelow? (bound : Nat) : Value → Option Nat
  | .integer n => if 0 ≤ n ∧ n.toNat < bound then some n.toNat else none
  | _ => none

/-- A number of 64 bits. -/
def word64? (v : Value) : Option UInt64 := (natBelow? UInt64.size v).map UInt64.ofNat

/-- A number of 32 bits. -/
def word32? (v : Value) : Option UInt32 := (natBelow? UInt32.size v).map UInt32.ofNat

/-- Yes or no. -/
def flag? : Value → Option Bool
  | .boolean b => some b
  | _ => none

/-- A number of 64 bits that is not zero. -/
def positive? (v : Value) : Option UInt64 := (word64? v).filter fun n => n != 0

/-- An address. -/
def address? (v : Value) : Option SocketAddress := (text? v).bind SocketAddress.ofText?

/-! ### Sections -/

/-- A section: its fields by name, in order, each with the way it changes the settings. -/
abbrev Section (α : Type) := List (String × (Value → α → Option α))

/-- A field of a section. -/
def field {α β : Type} (name : String) (read : Value → Option β) (put : β → α → α) :
    String × (Value → α → Option α) :=
  (name, fun v a => (read v).map fun b => put b a)

/-- Reads the fields of a table, all of which must be known. -/
def readTable {α : Type} (s : Section α) : Fields → α → Option α
  | [], a => some a
  | (name, v) :: rest, a =>
    match s.find? fun f => f.1 == name with
    | none => none
    | some f => (f.2 v a).bind (readTable s rest)

/-- Reads fields in order; what is beyond the last field does not count. -/
def readItems {α : Type} : Section α → List Value → α → Option α
  | [], _, a => some a
  | _, [], a => some a
  | f :: s, v :: vs, a => (f.2 v a).bind (readItems s vs)

/-- Reads a section. -/
def readSection {α : Type} (s : Section α) (a : α) : Value → Option α
  | .table _ fields => readTable s fields a
  | .array items => readItems s items a
  | .tables items => readItems s (items.map fun fields => .table .header fields) a
  | _ => none

/-- The fields of the subjects. -/
def subjectFields : Section Subjects :=
  [field "reassembly" text? fun v s => { s with reassembly := v },
    field "fragment_ingest" text? fun v s => { s with fragmentIngest := v }]

/-- The fields of the ingest workers. -/
def ingestFields : Section IngestSettings :=
  [field "workers" word64? fun v s => { s with workers := v },
    field "queue_group" text? fun v s => { s with queueGroup := v },
    field "ack_wait_ms" word64? fun v s => { s with ackWaitMs := v },
    field "max_in_flight" word64? fun v s => { s with maxInFlight := v },
    field "max_deliveries" word32? fun v s => { s with maxDeliveries := v },
    field "redeliver_after_ms" word64? fun v s => { s with redeliverAfterMs := v },
    field "dedupe_redeliveries" flag? fun v s => { s with dedupe := v }]

/-- The fields of the reassembly worker. -/
def reassemblyFields : Section ReassemblySettings :=
  [field "queue_group" text? fun v s => { s with queueGroup := v },
    field "ack_wait_ms" word64? fun v s => { s with ackWaitMs := v },
    field "max_in_flight" word64? fun v s => { s with maxInFlight := v },
    field "max_deliveries" word32? fun v s => { s with maxDeliveries := v },
    field "poll_initial_ms" word64? fun v s => { s with pollInitialMs := v },
    field "poll_max_ms" word64? fun v s => { s with pollMaxMs := v }]

/-- The fields of the broadcast section. -/
def broadcastFields : Section (Option UInt64) := [field "publish_rate" positive? fun v _ => some v]

/-- The fields of the store section. -/
def storeFields : Section (Option UInt64) := [field "ttl_secs" word64? fun v _ => some v]

/-- All fields of a settings file. -/
def fileFields : Section Settings :=
  [field "namespace" text? fun v s => { s with keyspace := v },
    field "chunk_size" word64? fun v s => { s with chunkSize := v },
    field "subjects" (readSection subjectFields {}) fun v s => { s with subjects := v },
    field "ingest" (readSection ingestFields {}) fun v s => { s with ingest := v },
    field "reassembly" (readSection reassemblyFields {}) fun v s => { s with reassembly := v },
    field "broadcast" (readSection broadcastFields none) fun v s => { s with publishRate := v },
    field "store" (readSection storeFields none) fun v s => { s with ttlSecs := v },
    field "metrics_listen" address? fun v s => { s with metricsListen := some v }]

/-- The settings that a file says. -/
def ofText? (s : String) : Option Settings :=
  (Toml.parse s).bind fun fields => readTable fileFields fields {}

/-- What was found where a settings file is looked for. -/
inductive Source where
  | absent
  | unreadable
  | bytes (bs : Octets)

/-- Loads settings: from the file if there is one, then from the environment, then checked. -/
def load (source : Source) (lookup : String → Option String) : Except SettingsError Settings :=
  let base : Except SettingsError Settings :=
    match source with
    | .absent => .ok {}
    | .unreadable => .error .read
    | .bytes bs =>
      match bs.toText? with
      | none => .error .read
      | some s =>
        match ofText? s with
        | none => .error .parse
        | some settings => .ok settings
  match base with
  | .error e => .error e
  | .ok s =>
    match s.withEnvironment lookup with
    | (_, .error e) => .error (.override e)
    | (s, .ok ()) =>
      match s.validate with
      | .error reason => .error (.invalid reason)
      | .ok () => .ok s

end FragmentRelay.Settings
