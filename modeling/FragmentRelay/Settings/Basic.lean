import FragmentRelay.Backoff
import FragmentRelay.Batch
import FragmentRelay.Bus.Subscription
import FragmentRelay.Key
import FragmentRelay.SocketAddress
import FragmentRelay.Text.Blank
import FragmentRelay.Text.Quoted
import FragmentRelay.Wire.Reading

/-!
# Settings: how a deployment is set up

Every setting has a default. Settings come from a file and are then overridden by environment
variables; only after that are they checked, so that an override can mend a file.
-/

namespace FragmentRelay

/-- The largest chunk that leaves room for the other fields of a record. -/
def maxChunkSize : Nat := Wire.maxRecordLength - 256

/-- The settings of the ingest workers. -/
structure IngestSettings where
  workers : UInt64 := 4
  queueGroup : String := "fragcast-ingest"
  ackWaitMs : UInt64 := 30000
  maxInFlight : UInt64 := 64
  maxDeliveries : UInt32 := 5
  redeliverAfterMs : UInt64 := 1000
  dedupe : Bool := true
deriving DecidableEq, Repr

namespace IngestSettings

/-- What an ingest worker asks of the bus. -/
def options (s : IngestSettings) : SubscribeOptions :=
  { ackWait := Span.ofMillis s.ackWaitMs.toNat
    maxInFlight := s.maxInFlight.toNat
    maxDeliveries := s.maxDeliveries }

/-- The delay after which a refused fragment comes back. -/
def redeliverAfter (s : IngestSettings) : Span := Span.ofMillis s.redeliverAfterMs.toNat

end IngestSettings

/-- The settings of the reassembly worker. -/
structure ReassemblySettings where
  queueGroup : String := "fragcast-reassembly"
  ackWaitMs : UInt64 := 30000
  maxInFlight : UInt64 := 64
  maxDeliveries : UInt32 := 60
  pollInitialMs : UInt64 := 50
  pollMaxMs : UInt64 := 2000
deriving DecidableEq, Repr

namespace ReassemblySettings

/-- What the reassembly worker asks of the bus. -/
def options (s : ReassemblySettings) : SubscribeOptions :=
  { ackWait := Span.ofMillis s.ackWaitMs.toNat
    maxInFlight := s.maxInFlight.toNat
    maxDeliveries := s.maxDeliveries }

/-- The delays between attempts. -/
def backoff (s : ReassemblySettings) : Backoff :=
  Backoff.normalized ⟨Span.ofMillis s.pollInitialMs.toNat, Span.ofMillis s.pollMaxMs.toNat⟩

end ReassemblySettings

/-- The settings of a deployment. -/
structure Settings where
  keyspace : String := "fragcast"
  chunkSize : UInt64 := 4500
  subjects : Subjects := {}
  ingest : IngestSettings := {}
  reassembly : ReassemblySettings := {}
  publishRate : Option UInt64 := none
  ttlSecs : Option UInt64 := none
  metricsListen : Option SocketAddress := none
deriving DecidableEq, Repr

/-- A variable whose value is not a number, with the value. -/
structure OverrideError where
  name : String
  value : String
deriving DecidableEq, Repr

/-- Why there are no settings. -/
inductive SettingsError where
  | read
  | parse
  | override (e : OverrideError)
  | invalid (reason : String)
deriving DecidableEq, Repr

/-- The text of an override error. -/
def OverrideError.message (e : OverrideError) : String :=
  s!"environment variable {e.name}={Text.quoted e.value} is invalid"

/-- The text of an error about a setting out of its range. -/
def SettingsError.invalidMessage (reason : String) : String := s!"invalid configuration: {reason}"

namespace Settings

/-- How long stored values are kept. -/
def ttl (s : Settings) : Option Span := s.ttlSecs.map fun n => Span.ofSeconds n.toNat

/-- The part of the store that the deployment uses. -/
def keys (s : Settings) : Keyspace := ⟨s.keyspace⟩

/-- The cutter of payloads, unless the chunk size is zero. -/
def splitter (s : Settings) : Except String Splitter :=
  if h : 0 < s.chunkSize.toNat then .ok { chunk := s.chunkSize.toNat, chunk_pos := h }
  else .error "chunk_size must be non-zero"

/-- The rules that settings must meet and what is said if one is not met, in the order in which they
are checked. -/
def rules (s : Settings) : List (Bool × String) :=
  [(s.chunkSize != 0, "chunk_size must be non-zero"),
    (decide (s.chunkSize.toNat ≤ maxChunkSize),
      s!"chunk_size must not exceed {maxChunkSize} bytes"),
    (s.subjects.reassembly != "" && s.subjects.fragmentIngest != "", "subjects must not be empty"),
    (s.subjects.reassembly != s.subjects.fragmentIngest,
      "reassembly and fragment_ingest subjects must differ"),
    (s.ingest.workers != 0, "ingest.workers must be at least one"),
    (s.ingest.maxInFlight != 0 && s.reassembly.maxInFlight != 0,
      "max_in_flight must be at least one"),
    (s.ingest.maxDeliveries != 0 && s.reassembly.maxDeliveries != 0,
      "max_deliveries must be at least one"),
    (s.ingest.ackWaitMs != 0 && s.reassembly.ackWaitMs != 0, "ack_wait_ms must be non-zero")]

/-- Checks the rules: what is said about the first one that is not met. -/
def validate (s : Settings) : Except String Unit :=
  match s.rules.find? fun r => !r.1 with
  | none => .ok ()
  | some r => .error r.2

/-! ### Overrides -/

/-- The number that the value of a variable writes, blanks around it aside. -/
def overrideValue? (name value : String) : Except OverrideError UInt64 :=
  match Decimal.natBelow? UInt64.size (Text.trim value.toList) with
  | some n => .ok (UInt64.ofNat n)
  | none => .error ⟨name, value⟩

/-- The variables that override settings and the settings they override, in the order in which they
are applied. -/
def overrides : List (String × (UInt64 → Settings → Settings)) :=
  [("FRAGCAST_CHUNK_SIZE", fun n s => { s with chunkSize := n }),
    ("FRAGCAST_INGEST_WORKERS", fun n s => { s with ingest := { s.ingest with workers := n } }),
    ("FRAGCAST_MAX_IN_FLIGHT", fun n s => { s with ingest := { s.ingest with maxInFlight := n } }),
    ("FRAGCAST_ACK_WAIT_MS", fun n s => { s with ingest := { s.ingest with ackWaitMs := n } }),
    ("FRAGCAST_STORE_TTL_SECS", fun n s => { s with ttlSecs := some n })]

/-- Applies overrides up to the first that is no number: the settings so far, and that one. -/
def applyOverrides (lookup : String → Option String) :
    List (String × (UInt64 → Settings → Settings)) → Settings → Settings × Except OverrideError Unit
  | [], s => (s, .ok ())
  | (name, apply) :: rest, s =>
    match lookup name with
    | none => applyOverrides lookup rest s
    | some value =>
      match overrideValue? name value with
      | .error e => (s, .error e)
      | .ok n => applyOverrides lookup rest (apply n s)

/-- Applies all overrides that an environment has. -/
def withEnvironment (s : Settings) (lookup : String → Option String) :
    Settings × Except OverrideError Unit :=
  applyOverrides lookup overrides s

end Settings

end FragmentRelay
