import LosslessTransport.Lib.Memory
import LosslessTransport.Lib.Endian
import LosslessTransport.Lib.Circular
import LosslessTransport.Lib.Links
import LosslessTransport.Lib.LinkedList
import LosslessTransport.Lib.Crc
import LosslessTransport.Lib.Crc32
import LosslessTransport.Lib.Reassembly
import LosslessTransport.Lib.SelectiveRepeat
import LosslessTransport.Lib.Lts
import LosslessTransport.Lib.Timeval
import LosslessTransport.Packet.Basic
import LosslessTransport.Packet.Codec
import LosslessTransport.Packet.Grammar
import LosslessTransport.Packet.RoundTrip
import LosslessTransport.Packet.Operations
import LosslessTransport.Util
import LosslessTransport.Packet.Corruption
import LosslessTransport.Window.Basic
import LosslessTransport.Window.Spec
import LosslessTransport.Window.Pop
import LosslessTransport.Window.Circle
import LosslessTransport.Window.Log
import LosslessTransport.Window.Queue
import LosslessTransport.Window.Nodes
import LosslessTransport.Ownership
import LosslessTransport.Receiver.Basic
import LosslessTransport.Receiver.Invariant
import LosslessTransport.Receiver.Step
import LosslessTransport.Receiver.Abort
import LosslessTransport.Receiver.Refinement
import LosslessTransport.Receiver.Order
import LosslessTransport.Receiver.Memory
import LosslessTransport.Sender.Basic
import LosslessTransport.Sender.Spec
import LosslessTransport.Sender.Invariant
import LosslessTransport.Sender.Stamps
import LosslessTransport.Clock
import LosslessTransport.Sender.Flight
import LosslessTransport.Sender.Cumulative
import LosslessTransport.Sender.Robust
import LosslessTransport.Sender.Stream
import LosslessTransport.Sender.Stale
import LosslessTransport.Sender.Expiry
import LosslessTransport.Sender.Deadlines
import LosslessTransport.Sender.Schedule
import LosslessTransport.Sender.Progress
import LosslessTransport.Sender.Turn
import LosslessTransport.Sender.Nack
import LosslessTransport.Sender.Memory
import LosslessTransport.System.Direction
import LosslessTransport.System.Basic
import LosslessTransport.System.Nack
import LosslessTransport.System.Invariant
import LosslessTransport.Receiver.Advertise
import LosslessTransport.System.Lockstep
import LosslessTransport.System.View
import LosslessTransport.System.Safe
import LosslessTransport.System.Transfer
import LosslessTransport.System.Discipline
import LosslessTransport.System.Retransmission
import LosslessTransport.System.Network
import LosslessTransport.System.Corruption
import LosslessTransport.System.Stall
import LosslessTransport.System.Recovery
import LosslessTransport.System.Lossless
import LosslessTransport.System.Completion
