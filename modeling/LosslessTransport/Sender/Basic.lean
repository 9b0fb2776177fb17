import LosslessTransport.Util
import LosslessTransport.Window.Basic

/-!
# The sender

`Sender.mainLoop` is one iteration of `main_loop` of `sender.c`.  It takes the datagram that is
ready when `select` returns, if there is one, and the readings of the clock to come; its result is
the state after the iteration, the datagrams sent and the readings left.  It has none when the
process ends or leaves an object, and none either (`Exit.blocked`) when the readings run out or
when `select` is called without a timeout and there is nothing to receive.

The input file is the list of the pieces that `fread` returns, each of 1 to 512 bytes; at the end
of the file it returns nothing.  Responses are never compared by address, so `State.allocs` counts
the DATA packets only.  Allocations, file reads and socket calls succeed.
-/

namespace LosslessTransport

namespace Sender

/-- A piece of the input that a call of `fread` returns. -/
structure Chunk where
  bytes : List Byte
  length_pos : 0 < bytes.length
  length_le : bytes.length ≤ maxPayloadSize
  deriving DecidableEq

/-- The state between two iterations. -/
structure State where
  w : Window
  next : ℕ
  sentEof : Bool
  infile : List Chunk
  /-- The number of DATA packets made so far: the address of the next one. -/
  allocs : ℕ
  deriving DecidableEq

/-- A datagram, with the packet it was made from. -/
structure Sent where
  pkt : PktPtr
  bytes : List Byte
  deriving DecidableEq

/-- The state in which `main` enters the loop. -/
def init (infile : List Chunk) : State where
  w := (Window.create 1 maxWindowSize 255).get rfl
  next := 0
  sentEof := false
  infile := infile
  allocs := 0

/-- `TIMER`, in microseconds. -/
def timer : BitVec 32 := 4500000

variable (crc32 : List Byte → BitVec 32)

/-- The condition of the loop in `main`. -/
def State.running (st : State) : Bool := !st.sentEof || !st.w.empty

/-- `get_timeout`. -/
def getTimeout (st : State) (readings : List ℕ) : Except Exit (BitVec 32 × List ℕ) :=
  if (st.w.full && !st.w.empty) || st.sentEof then
    match st.w.peekMinTimestamp with
    | none => throw .nullPointer
    | some pkt => do
      let (now, readings) ← getMonotime readings
      pure (if pkt.timestamp > now then pkt.timestamp - now else 0, readings)
  else pure (0, readings)

/-- The loop of `handle_ack`; the flag is `popped_timestamp`.  Every turn frees a node, so the
length of the buffer is fuel enough. -/
def popAcked (ack : Pkt) (fuel : ℕ) (w : Window) (poppedTimestamp : Bool) :
    Except Exit (Window × Bool) :=
  match w.peekMinSeqnum with
  | none => pure (w, poppedTimestamp)
  | some minSeqnum =>
    if minSeqnum.seqnum < ack.getSeqnum.toNat then
      match fuel with
      | 0 => throw .outOfFuel
      | fuel + 1 =>
        let popped := w.popMinSeqnum
        if popped.1.map PktPtr.addr ≠ some minSeqnum.addr then throw .assertion
        else popAcked ack fuel popped.2
          (poppedTimestamp || decide (minSeqnum.timestamp = ack.getTimestamp))
    else pure (w, poppedTimestamp)

/-- `handle_ack`. -/
def handleAck (w : Window) (ack : Pkt) : Except Exit Window := do
  let (w, poppedTimestamp) ← popAcked ack w.front.length w false
  match w.slideTo ack.getSeqnum.toNat with
  | none => throw .assertion
  | some w => if poppedTimestamp then pure w else pure (w.popTimestamp ack.getTimestamp).2

/-- `handle_nack`. -/
def handleNack (w : Window) (nack : Pkt) (readings : List ℕ) : Except Exit (Window × List ℕ) :=
  if ¬ w.has nack.getSeqnum.toNat then pure (w, readings)
  else
    match w.findSeqnum nack.getSeqnum.toNat with
    | none => pure (w, readings)
    | some found => do
      let (now, readings) ← getMonotime readings
      pure (w.store (found.setTimestamp now), readings)

/-- The end of the response handling: resize the window to the one advertised. -/
def resizeTo (w : Window) (resp : Pkt) : Except Exit Window :=
  let swin := w.getMaxSize
  let rwin := resp.getWindow.toNat
  let resized := w.resize (if swin < rwin then swin else rwin)
  if resized.1 ≠ 0 then throw .assertion else pure resized.2

/-- The handling of a datagram that was received; `none` is the early return from the iteration. -/
def handleResponse (w : Window) (datagram : List Byte) (readings : List ℕ) :
    Except Exit (Option (Window × List ℕ)) :=
  let buf := datagram.take maxPacketSize
  match Pkt.decode crc32 (some buf) buf.length Pkt.new with
  | none => throw .outOfBounds
  | some (err, resp) =>
    if err ≠ .ok then pure (some (w, readings))
    else if resp.getType = ptypeData then pure none
    else if resp.getType = ptypeAck then do
      let w ← handleAck w resp
      let w ← resizeTo w resp
      pure (some (w, readings))
    else do
      let (w, readings) ← handleNack w resp readings
      let w ← resizeTo w resp
      pure (some (w, readings))

/-- The loop of `retransmit_packets`: each turn reads the clock. -/
def retransmitExpired (loopNow : BitVec 32) (readings : List ℕ) (w : Window) :
    Except Exit (Window × List Sent × List ℕ) :=
  match w.peekMinTimestamp with
  | none => pure (w, [], readings)
  | some pkt =>
    if pkt.timestamp ≤ loopNow then
      match readings with
      | [] => throw .blocked
      | now :: readings =>
        let updated := w.updateTimestamp pkt.timestamp (BitVec.ofNat 32 now + timer)
        if updated.1 = -1 then throw .cannotUpdateTimestamp
        else do
          let pkt := updated.2.deref pkt
          let datagram ← sendPacket crc32 pkt.pkt
          let (w, sent, readings) ← retransmitExpired loopNow readings updated.2
          pure (w, ⟨pkt, datagram⟩ :: sent, readings)
    else pure (w, [], readings)

/-- `retransmit_packets`. -/
def retransmitPackets (w : Window) (readings : List ℕ) :
    Except Exit (Window × List Sent × List ℕ) := do
  let (loopNow, readings) ← getMonotime readings
  retransmitExpired crc32 loopNow readings w

/-- What the next call of `fread` returns. -/
def State.data (st : State) : List Byte :=
  match st.infile with
  | [] => []
  | chunk :: _ => chunk.bytes

/-- The end of the iteration: read from the file, send and buffer a new packet. -/
def sendNew (st : State) (readings : List ℕ) : Except Exit (State × Sent × List ℕ) := do
  let len := st.data.length
  let buf := st.data ++ List.replicate (maxPayloadSize - len) 0
  let pkt ← checked (Pkt.new.setType (ptypeData.setWidth 32))
  let pkt ← checked (pkt.setSeqnum (BitVec.ofNat 8 st.next))
  let pkt ← checked (pkt.setWindow 0)
  let (now, readings) ← getMonotime readings
  let pkt ← checked (pkt.setTimestamp (now + timer))
  match pkt.setPayload (some buf) (BitVec.ofNat 16 len) with
  | none => throw .outOfBounds
  | some r => do
    let pkt ← checked r
    let datagram ← sendPacket crc32 pkt
    let ptr : PktPtr := { addr := st.allocs, pkt := pkt }
    let pushed := st.w.push ptr
    if pushed.1 = -1 then throw .couldNotAdd
    else
      pure ({ w := pushed.2
              next := (st.next + 1) % 256
              sentEof := st.sentEof || decide (len = 0)
              infile := st.infile.tail
              allocs := st.allocs + 1 }, ⟨ptr, datagram⟩, readings)

/-- The call of `select`, which comes back when there is a datagram to receive or, unless it waits
indefinitely, after the timeout. -/
def await (ready : Option (List Byte)) (readings : List ℕ) (st : State) :
    Except Exit (List ℕ) :=
  if !st.sentEof && st.w.bufferSize = 0 && st.w.getSize = 0 then
    if ready.isNone then throw .blocked else pure readings
  else do
    let (_, readings) ← getTimeout st readings
    pure readings

/-- The part of the iteration that receives a response, if there is one. -/
def receive (w : Window) (ready : Option (List Byte)) (readings : List ℕ) :
    Except Exit (Option (Window × List ℕ)) :=
  match ready with
  | none => pure (some (w, readings))
  | some datagram => handleResponse crc32 w datagram readings

/-- `main_loop`. -/
def mainLoop (ready : Option (List Byte)) (readings : List ℕ) (st : State) :
    Except Exit (State × List Sent × List ℕ) := do
  let readings ← await ready readings st
  match ← receive crc32 st.w ready readings with
  | none => pure (st, [], readings)
  | some (w, readings) => do
    let (w, sent, readings) ← retransmitPackets crc32 w readings
    let st := { st with w := w }
    if ¬ w.full ∧ ¬ st.sentEof then do
      let (st, new, readings) ← sendNew crc32 st readings
      pure (st, sent ++ [new], readings)
    else pure (st, sent, readings)

end Sender

end LosslessTransport
