import LosslessTransport.Util
import LosslessTransport.Window.Basic

/-!
# The receiver

`Receiver.mainLoop` is one iteration of `main_loop` of `receiver.c` on the datagram `recv` returns.
Its result is the state after the iteration and the reply, if one is sent; it has none when the
process ends or leaves an object.  `recv` cuts the datagram to the size of the buffer.

`outfile` is the list of the calls of `fwrite` in order, each with the bytes it writes, so the
file holds their concatenation.  Allocations, file writes and socket calls succeed.
-/

namespace LosslessTransport

namespace Receiver

/-- The state between two iterations. -/
structure State where
  w : Window
  /-- What each call of `fwrite` has written. -/
  outfile : List (List Byte)
  /-- The number of packets received so far: the address of the next one. -/
  allocs : ℕ
  deriving DecidableEq

/-- The state in which `main` enters the loop. -/
def init : State where
  w := (Window.create maxWindowSize maxWindowSize 255).get rfl
  outfile := []
  allocs := 0

variable (crc32 : List Byte → BitVec 32)

/-- The reply to a truncated packet. -/
def sendNack (w : Window) (pkt : PktPtr) : Except Exit (List Byte) := do
  let reply ← checked (Pkt.new.setType (ptypeNack.setWidth 32))
  let reply ← checked (reply.setWindow (BitVec.ofNat 8 w.available))
  let reply ← checked (reply.setSeqnum pkt.pkt.getSeqnum)
  sendPacket crc32 reply

/-- The reply to a packet that was not truncated. -/
def sendAck (w : Window) (ackTimestamp : BitVec 32) : Except Exit (List Byte) := do
  let reply ← checked (Pkt.new.setType (ptypeAck.setWidth 32))
  let reply ← checked (reply.setWindow (BitVec.ofNat 8 w.available))
  let reply ← checked (reply.setSeqnum (BitVec.ofNat 8 w.start))
  let reply ← checked (reply.setTimestamp ackTimestamp)
  sendPacket crc32 reply

/-- Put the packet in the buffer, unless its sequence number is there already.  A packet refused
by a full window is not added but acknowledged all the same. -/
def addToBuffer (w : Window) (pkt : PktPtr) : Except Exit Window :=
  match w.findSeqnum pkt.seqnum with
  | some _ => pure w
  | none =>
    let pushed := w.push pkt
    if pushed.1 = -1 then
      if pushed.2.full then pure pushed.2 else throw .couldNotAdd
    else pure pushed.2

/-- The loop that writes out the packets in sequence, entered with the result of
`window_find_seqnum`.  Every turn frees a node, so the length of the buffer is fuel enough. -/
def drain : ℕ → Window × List (List Byte) → Option PktPtr →
    Except Exit (Window × List (List Byte))
  | _, s, none => pure s
  | 0, _, some _ => throw .outOfFuel
  | fuel + 1, (w, outfile), some nextPkt =>
    let outfile := outfile ++ [nextPkt.pkt.payloadBytes]
    let popped := w.popTimestamp nextPkt.timestamp
    if popped.1.map PktPtr.addr ≠ some nextPkt.addr then throw .assertion
    else
      -- the window is not slid past the packet that signals the end of the file
      let w := if nextPkt.pkt.getLength = 0 then popped.2 else popped.2.slide
      drain fuel (w, outfile) (w.findSeqnum w.start)

/-- `main_loop`. -/
def mainLoop (datagram : List Byte) (st : State) : Except Exit (State × Option (List Byte)) :=
  let buf := datagram.take maxPacketSize
  match Pkt.decode crc32 (some buf) buf.length Pkt.new with
  | none => throw .outOfBounds
  | some (decerr, p) =>
    let pkt : PktPtr := { addr := st.allocs, pkt := p }
    let st := { st with allocs := st.allocs + 1 }
    if decerr ≠ .ok then pure (st, none)
    else if ¬ st.w.has pkt.seqnum then pure (st, none)
    else if p.getTr ≠ 0 then do
      let reply ← sendNack crc32 st.w pkt
      pure (st, some reply)
    else do
      let w ← addToBuffer st.w pkt
      let ackTimestamp := pkt.timestamp
      let (w, outfile) ← drain w.front.length (w, st.outfile) (w.findSeqnum w.start)
      let reply ← sendAck crc32 w ackTimestamp
      pure ({ st with w := w, outfile := outfile }, some reply)

/-- The iterations on a list of datagrams, with the replies in order. -/
def run : List (List Byte) → State → Except Exit (State × List (List Byte))
  | [], st => pure (st, [])
  | d :: ds, st => do
    let (st, reply) ← mainLoop crc32 d st
    let (st, replies) ← run ds st
    pure (st, reply.toList ++ replies)

end Receiver

end LosslessTransport
