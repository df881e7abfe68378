import FragmentRelay.Deployment.Workers
import FragmentRelay.Settings.File

/-!
# The relay: one payload through a whole deployment

A relay loads its settings, starts the workers, broadcasts its input on the bus of the deployment
and waits until the packet with the nonce of the broadcast comes out. Time is that of the
deployment's clock, so that a relay always has the same end.

Steps that can fail are taken in a fixed order, and the first failure is the end: settings,
listener, input, chunk size, subscriptions, broadcast, packet, output.
-/

namespace FragmentRelay.Relay

/-- Why a relay failed. -/
inductive Failure where
  | settings (e : SettingsError)
  | listener (a : SocketAddress)
  | input
  | chunkSize (reason : String)
  | transport (e : TransportError)
  | broadcast (e : BroadcastError)
  | timedOut
  | output
deriving DecidableEq

/-- The text of a failure. -/
def Failure.message : Failure → String
  | settings .read => "the settings cannot be read"
  | settings .parse => "the settings cannot be parsed"
  | settings (.override e) => e.message
  | settings (.invalid reason) => SettingsError.invalidMessage reason
  | listener a => s!"no listener on {a.text}"
  | input => "the input cannot be read"
  | chunkSize reason => SettingsError.invalidMessage reason
  | transport e => e.message
  | broadcast e => e.message
  | timedOut => "the payload was not reassembled in time"
  | output => "the output cannot be written"

/-- How a relay ended. -/
inductive End where
  | delivered (payload : Octets)
  | failed (f : Failure)
  | crashed (text : String)
deriving DecidableEq

/-- The exit code of an end. -/
def End.exitCode : End → Nat
  | delivered _ => 0
  | failed _ => 1
  | crashed _ => 101

/-- What a relay finds around it. -/
structure Site where
  settings : Settings.Source
  lookup : String → Option String
  canListen : SocketAddress → Bool
  input : Option Octets
  canWrite : Bool
  clock : UInt64

/-! ### Waiting for the packet -/

/-- Looks for the packet of a nonce at every event up to a deadline; at most as many as the number
says. -/
def awaitWithin (nonce : UInt64) (deadline : Instant) : Nat → Deployment → Option Packet
  | n, d =>
    match d.drain with
    | (ps, d) =>
      match ps.find? fun p => p.header.nonce == nonce with
      | some p => some p
      | none =>
        match n, d.nextDue? with
        | n + 1, some t => if t ≤ deadline then awaitWithin nonce deadline n (d.moveTo t) else none
        | _, _ => none

/-- Waits for the packet of a nonce. -/
def await (d : Deployment) (nonce : UInt64) (wait : Span) : Option Packet :=
  awaitWithin nonce (d.now + wait.nanos) wait.nanos d.quiesce

/-! ### The way of a payload -/

/-- The end of a refused subscription. -/
def refusal : Bus.SubscribeFailure → End
  | .refused e => .failed (.transport e)
  | .crashed text => .crashed text

/-- The deployment with the workers that the settings ask for. -/
def deploy (s : Settings) : Except End Deployment :=
  match (Deployment.initial s.keys s.ttl s.ingest.dedupe).startIngestWorkers .bus
      s.subjects.fragmentIngest s.ingest with
  | (.error e, _) => .error (refusal e)
  | (.ok (), d) =>
    match d.startReassemblyWorker .bus s.subjects.reassembly s.reassembly 1 with
    | (.error e, _) => .error (refusal e)
    | (.ok (), d) => .ok d

/-- Broadcasts a batch and waits for its packet. -/
def carry (s : Settings) (d : Deployment) (b : Batch) (wait : Span) : End :=
  match d.broadcast Deployment.Transmission.onBus (s.publishRate.map (·.toNat)) s.subjects b with
  | (.error e, _) => .failed (.broadcast e)
  | (.ok (), t) =>
    match await t.deployment b.header.nonce wait with
    | none => .failed .timedOut
    | some p => .delivered p.payload

/-- Sends a payload through a deployment with the given settings. -/
def send (s : Settings) (clock : UInt64) (payload : Octets) (wait : Span) : End :=
  match s.splitter with
  | .error reason => .failed (.chunkSize reason)
  | .ok splitter =>
    match deploy s with
    | .error e => e
    | .ok d =>
      match (splitter.split clock payload).1 with
      | .error e => .failed (.broadcast (.fragmentation e))
      | .ok b => carry s d b wait

/-- Runs a relay. -/
def run (site : Site) (wait : Span) : End :=
  match Settings.load site.settings site.lookup with
  | .error e => .failed (.settings e)
  | .ok s =>
    match s.metricsListen.filter fun a => !site.canListen a with
    | some a => .failed (.listener a)
    | none =>
      match site.input with
      | none => .failed .input
      | some payload =>
        match send s site.clock payload wait with
        | .delivered p => if site.canWrite then .delivered p else .failed .output
        | e => e

end FragmentRelay.Relay
