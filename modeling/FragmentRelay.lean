import FragmentRelay.Backoff
import FragmentRelay.Batch
import FragmentRelay.Blake3
import FragmentRelay.Broadcast
import FragmentRelay.Bus.Basic
import FragmentRelay.Bus.Group
import FragmentRelay.Bus.Subscription
import FragmentRelay.Checksum
import FragmentRelay.CommandLine
import FragmentRelay.Decimal
import FragmentRelay.Defect
import FragmentRelay.Deployment.Basic
import FragmentRelay.Deployment.Clock
import FragmentRelay.Deployment.Workers
import FragmentRelay.Fragment
import FragmentRelay.Handling
import FragmentRelay.Index
import FragmentRelay.Ingest
import FragmentRelay.Key
import FragmentRelay.Main
import FragmentRelay.Nonce
import FragmentRelay.Octets
import FragmentRelay.Operation
import FragmentRelay.Outlet
import FragmentRelay.Polling
import FragmentRelay.Proofs.Backoff.Doubling
import FragmentRelay.Proofs.Batch.Cut
import FragmentRelay.Proofs.Batch.Partition
import FragmentRelay.Proofs.Broadcast.Prefix
import FragmentRelay.Proofs.Broadcast.Published
import FragmentRelay.Proofs.Bus.Attempts
import FragmentRelay.Proofs.Bus.Audience
import FragmentRelay.Proofs.Bus.Capacity
import FragmentRelay.Proofs.Bus.Custody
import FragmentRelay.Proofs.Bus.Fates
import FragmentRelay.Proofs.Bus.Ledger
import FragmentRelay.Proofs.Bus.Line
import FragmentRelay.Proofs.Bus.Lone
import FragmentRelay.Proofs.Bus.Order
import FragmentRelay.Proofs.Bus.Runs
import FragmentRelay.Proofs.Bus.Slots
import FragmentRelay.Proofs.Bus.Spots
import FragmentRelay.Proofs.Bus.Traffic
import FragmentRelay.Proofs.Bus.Turns
import FragmentRelay.Proofs.Bus.View
import FragmentRelay.Proofs.Concurrency.Announcement
import FragmentRelay.Proofs.Concurrency.Counting
import FragmentRelay.Proofs.Concurrency.Ownership
import FragmentRelay.Proofs.Concurrency.Schedule
import FragmentRelay.Proofs.Ingest.Account
import FragmentRelay.Proofs.Ingest.Effect
import FragmentRelay.Proofs.Ingest.Expiry
import FragmentRelay.Proofs.Ingest.Permutation
import FragmentRelay.Proofs.Ingest.Points
import FragmentRelay.Proofs.Ingest.Progress
import FragmentRelay.Proofs.Ingest.Renewal
import FragmentRelay.Proofs.Ingest.Repetition
import FragmentRelay.Proofs.Ingest.Session
import FragmentRelay.Proofs.Ingest.Tallied
import FragmentRelay.Proofs.Key.Separation
import FragmentRelay.Proofs.Nonce.Drawing
import FragmentRelay.Proofs.Pipeline.Delivery
import FragmentRelay.Proofs.Pipeline.Durability
import FragmentRelay.Proofs.Pipeline.Handling
import FragmentRelay.Proofs.Pipeline.Log
import FragmentRelay.Proofs.Pipeline.Polling
import FragmentRelay.Proofs.Pipeline.Run
import FragmentRelay.Proofs.Pipeline.Sole
import FragmentRelay.Proofs.Pipeline.Start
import FragmentRelay.Proofs.Pipeline.Trial
import FragmentRelay.Proofs.Pipeline.Vigil
import FragmentRelay.Proofs.Reassembly.AnyOrder
import FragmentRelay.Proofs.Reassembly.Decisive
import FragmentRelay.Proofs.Reassembly.FirstFault
import FragmentRelay.Proofs.Reassembly.Gate
import FragmentRelay.Proofs.Reassembly.Held
import FragmentRelay.Proofs.Reassembly.Interrupted
import FragmentRelay.Proofs.Reassembly.Polling
import FragmentRelay.Proofs.Reassembly.Soundness
import FragmentRelay.Proofs.Service.Clock
import FragmentRelay.Proofs.Service.Demands
import FragmentRelay.Proofs.Service.Headers
import FragmentRelay.Proofs.Service.Isolation
import FragmentRelay.Proofs.Service.Logbook
import FragmentRelay.Proofs.Service.Totals
import FragmentRelay.Proofs.Settings.Limits
import FragmentRelay.Proofs.Settings.Valid
import FragmentRelay.Proofs.Store.Attempts
import FragmentRelay.Proofs.Store.Deadlines
import FragmentRelay.Proofs.Store.Locality
import FragmentRelay.Proofs.Store.Numerals
import FragmentRelay.Proofs.Store.Requests
import FragmentRelay.Proofs.Store.Vanishing
import FragmentRelay.Proofs.Wire.Fields
import FragmentRelay.Proofs.Wire.Grammar
import FragmentRelay.Proofs.Wire.RoundTrip
import FragmentRelay.Proofs.Wire.Shortest
import FragmentRelay.Proofs.Wire.Truncation
import FragmentRelay.Reassembly
import FragmentRelay.Relay
import FragmentRelay.Settings.Basic
import FragmentRelay.Settings.File
import FragmentRelay.SocketAddress
import FragmentRelay.Span
import FragmentRelay.Store.Access
import FragmentRelay.Store.Basic
import FragmentRelay.Store.Counter
import FragmentRelay.Store.Outage
import FragmentRelay.Tally
import FragmentRelay.Text.Blank
import FragmentRelay.Text.Quoted
import FragmentRelay.Text.Unshown
import FragmentRelay.Toml.Document
import FragmentRelay.Toml.Number
import FragmentRelay.Toml.Text
import FragmentRelay.Toml.Value
import FragmentRelay.Wire.Fault
import FragmentRelay.Wire.Reading
import FragmentRelay.Wire.Record
import FragmentRelay.Wire.Varint
import FragmentRelay.Worker
