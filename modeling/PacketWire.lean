import PacketWire.Bytes
import PacketWire.Clock
import PacketWire.Codec.Access
import PacketWire.Codec.Error
import PacketWire.Codec.Measure
import PacketWire.Codec.Plan
import PacketWire.Codec.Read
import PacketWire.Codec.Write
import PacketWire.Connection
import PacketWire.Dispatch.Dispatcher
import PacketWire.Dispatch.Script
import PacketWire.Error
import PacketWire.Handshake
import PacketWire.Layout.Basic
import PacketWire.Layout.Compile
import PacketWire.Layout.Leaves
import PacketWire.Metrics
import PacketWire.Offset
import PacketWire.Packet.Compiler
import PacketWire.Packet.Control
import PacketWire.Packet.Descriptor
import PacketWire.Packet.Key
import PacketWire.Phase
import PacketWire.Proofs.Codec.Access
import PacketWire.Proofs.Codec.Alike
import PacketWire.Proofs.Codec.Construction
import PacketWire.Proofs.Codec.Cursor
import PacketWire.Proofs.Codec.Fault
import PacketWire.Proofs.Codec.Measure
import PacketWire.Proofs.Codec.Plan
import PacketWire.Proofs.Codec.Read
import PacketWire.Proofs.Codec.Shortage
import PacketWire.Proofs.Codec.Unbound
import PacketWire.Proofs.Codec.Write
import PacketWire.Proofs.Connection.Balance
import PacketWire.Proofs.Connection.Gate
import PacketWire.Proofs.Connection.Ledger
import PacketWire.Proofs.Connection.Run
import PacketWire.Proofs.Connection.Stream
import PacketWire.Proofs.Connection.Turns
import PacketWire.Proofs.Connection.Work
import PacketWire.Proofs.Dispatch.Handlers
import PacketWire.Proofs.Handshake.Echo
import PacketWire.Proofs.Handshake.Run
import PacketWire.Proofs.Handshake.Shift
import PacketWire.Proofs.Layout.Accepted
import PacketWire.Proofs.Layout.Boundaries
import PacketWire.Proofs.Layout.Compiled
import PacketWire.Proofs.Layout.Construction
import PacketWire.Proofs.Layout.Leaves
import PacketWire.Proofs.Layout.Paths
import PacketWire.Proofs.Layout.Predictions
import PacketWire.Proofs.Layout.Remembered
import PacketWire.Proofs.Layout.Unbound
import PacketWire.Proofs.Layout.WellFormed
import PacketWire.Proofs.Packet.Alike
import PacketWire.Proofs.Packet.Announced
import PacketWire.Proofs.Packet.Bindings
import PacketWire.Proofs.Packet.Bounds
import PacketWire.Proofs.Packet.Canonical
import PacketWire.Proofs.Packet.Compiler
import PacketWire.Proofs.Packet.Conform
import PacketWire.Proofs.Packet.Contents
import PacketWire.Proofs.Packet.Cursor
import PacketWire.Proofs.Packet.Decode
import PacketWire.Proofs.Packet.Encode
import PacketWire.Proofs.Packet.Leaves
import PacketWire.Proofs.Packet.Registry
import PacketWire.Proofs.Packet.RoundTrip
import PacketWire.Proofs.Packet.Window
import PacketWire.Proofs.Schema.Conform
import PacketWire.Proofs.Schema.Order
import PacketWire.Proofs.Schema.Places
import PacketWire.Proofs.Server.Admission
import PacketWire.Proofs.Server.Deeds
import PacketWire.Proofs.Server.Roster
import PacketWire.Proofs.Session.Run
import PacketWire.Proofs.Stream.Bound
import PacketWire.Proofs.Stream.Chunks
import PacketWire.Proofs.Stream.FrameReader
import PacketWire.Proofs.Stream.Reachable
import PacketWire.Proofs.Value.Equality
import PacketWire.Proofs.Value.History
import PacketWire.Proofs.Wire.Alike
import PacketWire.Proofs.Wire.Canonical
import PacketWire.Proofs.Wire.Conform
import PacketWire.Proofs.Wire.Leaves
import PacketWire.Proofs.Wire.Local
import PacketWire.Proofs.Wire.Normal
import PacketWire.Proofs.Wire.Scan
import PacketWire.Proofs.Wire.Serial
import PacketWire.Registry
import PacketWire.Schema.Error
import PacketWire.Schema.Field
import PacketWire.Schema.Order
import PacketWire.Schema.Packet
import PacketWire.Schema.Primitive
import PacketWire.Server.Basic
import PacketWire.Server.Roster
import PacketWire.Session
import PacketWire.Settings.Basic
import PacketWire.Settings.Environment
import PacketWire.Settings.File
import PacketWire.Settings.Problem
import PacketWire.Size
import PacketWire.Stream.FrameReader
import PacketWire.Text.Blank
import PacketWire.Text.Digit
import PacketWire.Text.Hex
import PacketWire.Text.Numeral
import PacketWire.Text.Reader
import PacketWire.Text.SocketAddress
import PacketWire.Text.Utf8
import PacketWire.Toml.DateTime
import PacketWire.Toml.Document
import PacketWire.Toml.Number
import PacketWire.Toml.Quoted
import PacketWire.Toml.Table
import PacketWire.Toml.Value
import PacketWire.Value.Basic
import PacketWire.Value.Convert
import PacketWire.Value.Fields
import PacketWire.Value.Scalar
