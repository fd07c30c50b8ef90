import RingCall.Bytes
import RingCall.Call.Catalog
import RingCall.Call.Conversation
import RingCall.Call.Endpoint
import RingCall.Call.Handler
import RingCall.Call.Outpost
import RingCall.Call.Schedule
import RingCall.Call.Session
import RingCall.Failure.Error
import RingCall.Failure.OsCode
import RingCall.Failure.Report
import RingCall.Foreign.Attach
import RingCall.Gate.Call
import RingCall.Link.Basic
import RingCall.Link.Channel
import RingCall.Link.Drain
import RingCall.Link.Move
import RingCall.Link.Producer
import RingCall.Link.Reader
import RingCall.Link.Settle
import RingCall.Pool.Basic
import RingCall.Pool.Gated
import RingCall.Pool.Settle
import RingCall.Proofs.Call.Answers
import RingCall.Proofs.Call.Bookkeeping
import RingCall.Proofs.Call.Ends
import RingCall.Proofs.Call.Exchange
import RingCall.Proofs.Call.Frame
import RingCall.Proofs.Call.Ledger
import RingCall.Proofs.Call.Opening
import RingCall.Proofs.Call.Registration
import RingCall.Proofs.Call.Scene
import RingCall.Proofs.Call.Schedule
import RingCall.Proofs.Call.Trail
import RingCall.Proofs.Call.Turn
import RingCall.Proofs.Foreign.Agreement
import RingCall.Proofs.Gate.Discipline
import RingCall.Proofs.Link.Batching
import RingCall.Proofs.Link.Conservation
import RingCall.Proofs.Link.Consumer
import RingCall.Proofs.Link.Delivery
import RingCall.Proofs.Link.Idling
import RingCall.Proofs.Link.Lock
import RingCall.Proofs.Link.Operations
import RingCall.Proofs.Link.Order
import RingCall.Proofs.Link.Overflow
import RingCall.Proofs.Link.Passage
import RingCall.Proofs.Link.Rest
import RingCall.Proofs.Link.Restarts
import RingCall.Proofs.Link.Settling
import RingCall.Proofs.Link.Step
import RingCall.Proofs.Link.Tasks
import RingCall.Proofs.Link.Tickets
import RingCall.Proofs.Link.Turns
import RingCall.Proofs.Link.Wakeup
import RingCall.Proofs.Lists
import RingCall.Proofs.Pool.Idle
import RingCall.Proofs.Pool.Journal
import RingCall.Proofs.Pool.Step
import RingCall.Proofs.Pool.Turnover
import RingCall.Proofs.Ring.Contents
import RingCall.Proofs.Ring.Handover
import RingCall.Proofs.Ring.Patience
import RingCall.Proofs.Ring.Settings
import RingCall.Proofs.Ring.Sizing
import RingCall.Proofs.Ring.Wraparound
import RingCall.Proofs.Shared.Mapping
import RingCall.Proofs.Shared.Slots
import RingCall.Proofs.Shared.Store
import RingCall.Proofs.Slab.Contents
import RingCall.Proofs.Slab.HandleMap
import RingCall.Proofs.Slab.History
import RingCall.Proofs.Slab.Reuse
import RingCall.Proofs.Slab.RoundRobin
import RingCall.Proofs.Slab.Sharded
import RingCall.Proofs.Slab.Sharing
import RingCall.Proofs.Steps
import RingCall.Proofs.Text.Numeral
import RingCall.Proofs.Text.Utf8
import RingCall.Proofs.Wire.Buffer
import RingCall.Proofs.Wire.Forks
import RingCall.Proofs.Wire.Memory
import RingCall.Proofs.Wire.ReadBack
import RingCall.Proofs.Wire.Release
import RingCall.Proofs.Wire.RoundTrip
import RingCall.Proofs.Wire.Tiling
import RingCall.Ring.Basic
import RingCall.Ring.Config
import RingCall.Ring.Descriptor
import RingCall.Ring.Handover
import RingCall.Ring.Idle
import RingCall.Ring.Owned
import RingCall.Ring.Record
import RingCall.Ring.Signal
import RingCall.Shared.Layout
import RingCall.Shared.Mapping
import RingCall.Shared.Partition
import RingCall.Shared.Store
import RingCall.Shared.System
import RingCall.Slab.Basic
import RingCall.Slab.Sharded
import RingCall.Slab.Shared
import RingCall.Steps
import RingCall.Text.Blank
import RingCall.Text.Hex
import RingCall.Text.Listing
import RingCall.Text.Numeral
import RingCall.Text.Utf8
import RingCall.Wire.Decode
import RingCall.Wire.Encode
import RingCall.Wire.Kind
import RingCall.Wire.Memory
import RingCall.Wire.Pen
import RingCall.Wire.Primitive
import RingCall.Wire.Shape
