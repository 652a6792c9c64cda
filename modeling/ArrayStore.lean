import ArrayStore.Buffer
import ArrayStore.ByteOrder
import ArrayStore.CommandLine.Arguments
import ArrayStore.CommandLine.Commands
import ArrayStore.Decimal.Binary
import ArrayStore.Decimal.Fixed
import ArrayStore.Decimal.Shortest
import ArrayStore.Document.Basic
import ArrayStore.Document.Descriptors
import ArrayStore.Document.Reader
import ArrayStore.Document.Writer
import ArrayStore.Error
import ArrayStore.Kind
import ArrayStore.Main
import ArrayStore.Memory.Basic
import ArrayStore.Memory.Counters
import ArrayStore.Memory.Pool
import ArrayStore.Memory.PoolConfig
import ArrayStore.Memory.System
import ArrayStore.Record.Basic
import ArrayStore.Record.Token
import ArrayStore.Record.Tracker
import ArrayStore.Scalar.Basic
import ArrayStore.Scalar.Wire
import ArrayStore.Session.Array
import ArrayStore.Session.Pool
import ArrayStore.Session.Stream
import ArrayStore.Session.Vector
import ArrayStore.Splice
import ArrayStore.Stream.Incoming
import ArrayStore.Stream.Outgoing
import ArrayStore.Stream.Sink
import ArrayStore.Stream.Source
import ArrayStore.Table
import ArrayStore.Text.Hidden
import ArrayStore.Text.Quoted
import ArrayStore.Text.Utf8
import ArrayStore.Value.Basic
import ArrayStore.Value.Decode
import ArrayStore.Value.World
import ArrayStore.Vector.Frozen
import ArrayStore.Vector.Storage
import ArrayStore.Vector.Writable
import ArrayStore.Wire.Layout
import ArrayStore.Wire.Reading
import ArrayStore.Wire.Writing
import ArrayStore.Proofs.Buffer.Window
import ArrayStore.Proofs.Stream.Emission
import ArrayStore.Proofs.Wire.Pieces
import ArrayStore.Proofs.Wire.Canonical
import ArrayStore.Proofs.Stream.Delivery
import ArrayStore.Proofs.Wire.Grammar
import ArrayStore.Proofs.Wire.Recognition
import ArrayStore.Proofs.Memory.Supply
import ArrayStore.Proofs.Vector.Contents
import ArrayStore.Proofs.Vector.Growth
import ArrayStore.Proofs.Value.Intake
import ArrayStore.Proofs.Value.Decoding
import ArrayStore.Proofs.Value.RoundTrip
import ArrayStore.Proofs.Table.Entries
import ArrayStore.Proofs.Memory.Turnover
import ArrayStore.Proofs.Memory.Books
import ArrayStore.Proofs.Memory.Passage
import ArrayStore.Proofs.Memory.HighWater
import ArrayStore.Proofs.Vector.Accounting
import ArrayStore.Proofs.Session.PoolSafety
import ArrayStore.Proofs.Session.HighWater
import ArrayStore.Proofs.Session.Plain
import ArrayStore.Proofs.Session.Slots
import ArrayStore.Proofs.Session.CopyOnWrite
import ArrayStore.Proofs.Vector.Holdings
import ArrayStore.Proofs.Value.Changes
import ArrayStore.Proofs.Value.Storing
import ArrayStore.Proofs.Stream.Progress
import ArrayStore.Proofs.Wire.Acceptance
import ArrayStore.Proofs.Value.Acceptance
import ArrayStore.Proofs.Value.Operations
import ArrayStore.Proofs.Session.Hands
import ArrayStore.Proofs.Session.ArrayLists
import ArrayStore.Proofs.Session.Mixed
import ArrayStore.Proofs.Session.Failures
import ArrayStore.Proofs.Value.Calls
import ArrayStore.Proofs.Session.Inertia
import ArrayStore.Proofs.Value.Marks
import ArrayStore.Proofs.Session.Marks
import ArrayStore.Proofs.Session.Immutability
import ArrayStore.Proofs.Record.Changes
import ArrayStore.Proofs.Record.Posts
import ArrayStore.Proofs.Session.Notifications
import ArrayStore.Proofs.Stream.Trails
import ArrayStore.Proofs.Stream.Retention
import ArrayStore.Proofs.Stream.Shortage
import ArrayStore.Proofs.Value.Trails
import ArrayStore.Proofs.Session.Reading
import ArrayStore.Proofs.Stream.Judgment
import ArrayStore.Proofs.Wire.Judgment
import ArrayStore.Proofs.Session.Writing
import ArrayStore.Proofs.Stream.Counters
import ArrayStore.Proofs.Session.Counters
import ArrayStore.Proofs.Record.Hierarchy
import ArrayStore.Proofs.Session.Freezing
import ArrayStore.Proofs.Value.Assertions
import ArrayStore.Proofs.Session.Assertions
import ArrayStore.Proofs.Buffer.Transfers
import ArrayStore.Proofs.Session.BufferCalls
import ArrayStore.Proofs.Stream.Exhaustion
import ArrayStore.Proofs.Value.Exhaustion
import ArrayStore.Proofs.Vector.Demands
import ArrayStore.Proofs.Value.Demands
import ArrayStore.Proofs.Memory.Plates
import ArrayStore.Proofs.Vector.Plates
import ArrayStore.Proofs.Value.Plates
import ArrayStore.Proofs.Session.Plates
import ArrayStore.Proofs.Session.Registry
import ArrayStore.Proofs.Memory.Statistics
import ArrayStore.Proofs.Session.Statistics
import ArrayStore.Proofs.Session.Ranges
import ArrayStore.Proofs.Vector.Copies
import ArrayStore.Proofs.Vector.Coverage
import ArrayStore.Proofs.Session.Copies
import ArrayStore.Proofs.Session.Coverage
import ArrayStore.Proofs.Stream.Turns
import ArrayStore.Proofs.Wire.Turns
import ArrayStore.Proofs.Value.Turns
import ArrayStore.Proofs.Scalar.Memory
import ArrayStore.Proofs.Buffer.Bulk
import ArrayStore.Proofs.Scalar.Mixed
import ArrayStore.Proofs.Buffer.Queue
import ArrayStore.Proofs.Memory.Naming
