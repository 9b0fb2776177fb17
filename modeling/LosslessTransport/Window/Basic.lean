import LosslessTransport.Lib.Links
import LosslessTransport.Lib.Circular
import LosslessTransport.Packet.Basic

/-!
# The sliding window and its buffer

`Window` is `struct window` of `window.c`, with the list of nodes from `front` on.  A node points
to a packet; `PktPtr` is such a pointer together with what it points to, and two pointers are the
same when their addresses are.  A packet that is changed in place (`Window.store`) is changed in
every node that points to it.

A function that returns 0 or -1 has this status as a result, together with the window as it leaves
it; one that fails an assertion has none.  Memory allocations succeed.  A `size_t` is a natural
number; `sizeT` is the reduction to 64 bits, which shows in `Window.end_` when the size is 0.
-/

namespace LosslessTransport

/-- The value of `n` as a `size_t`. -/
def sizeT (n : ℕ) : ℕ := n % 2 ^ 64

/-- A pointer to a packet, and the packet. -/
structure PktPtr where
  /-- Which allocation this is. -/
  addr : ℕ
  pkt : Pkt
  deriving DecidableEq

namespace PktPtr

/-- `pkt_get_seqnum`, as the integer it is promoted to. -/
def seqnum (p : PktPtr) : ℕ := p.pkt.getSeqnum.toNat

/-- `pkt_get_timestamp`. -/
def timestamp (p : PktPtr) : BitVec 32 := p.pkt.getTimestamp

/-- The pointer after `pkt_set_timestamp`. -/
def setTimestamp (p : PktPtr) (timestamp : BitVec 32) : PktPtr :=
  { p with pkt := (p.pkt.setTimestamp timestamp).2 }

theorem seqnum_lt (p : PktPtr) : p.seqnum < 256 := p.pkt.getSeqnum.isLt

variable (p : PktPtr) (t : BitVec 32)

@[simp] theorem addr_setTimestamp : (p.setTimestamp t).addr = p.addr := rfl
@[simp] theorem seqnum_setTimestamp : (p.setTimestamp t).seqnum = p.seqnum := rfl
@[simp] theorem timestamp_setTimestamp : (p.setTimestamp t).timestamp = t := ntohl_htonl t

end PktPtr

/-- `struct window`. -/
structure Window where
  maxSeqnum : ℕ
  /-- Maximum size. -/
  capacity : ℕ
  /-- Current size. -/
  size : ℕ
  pos : ℕ
  bufsize : ℕ
  /-- The nodes, first one first. -/
  front : List PktPtr
  deriving DecidableEq

namespace Window

/-- `window_create`. -/
def create (size maxSize maxSeqnum : ℕ) : Option Window :=
  if maxSize < size then none
  else some
    { maxSeqnum := maxSeqnum
      capacity := maxSize
      size := size
      pos := 0
      bufsize := 0
      front := [] }

variable (w : Window)

/-- `window_start`. -/
def start : ℕ := w.pos

/-- `window_end`: `size - 1` wraps when the size is 0. -/
def end_ : ℕ := sizeT (w.pos + sizeT (w.size + (2 ^ 64 - 1))) % (w.maxSeqnum + 1)

/-- `window_slide`. -/
def slide : Window := { w with pos := (w.pos + 1) % (w.maxSeqnum + 1) }

/-- `window_slide_to`: `none` when its assertion fails. -/
def slideTo (pos : ℕ) : Option Window :=
  if pos ≤ w.maxSeqnum then some { w with pos := pos } else none

/-- `window_has`. -/
def has (seqnum : ℕ) : Bool :=
  if w.size = 0 then false
  else if w.start > w.end_ then decide (w.start ≤ seqnum ∨ seqnum ≤ w.end_)
  else decide (w.start ≤ seqnum ∧ seqnum ≤ w.end_)

/-- `window_resize`. -/
def resize (newSize : ℕ) : ℤ × Window :=
  if newSize > w.capacity then (-1, w) else (0, { w with size := newSize })

/-- `window_get_max_size`. -/
def getMaxSize : ℕ := w.capacity

/-- `window_get_size`. -/
def getSize : ℕ := w.size

/-- `window_available`. -/
def available : ℕ := if w.size < w.bufsize then 0 else w.size - w.bufsize

/-- `window_buffer_size`. -/
def bufferSize : ℕ := w.bufsize

/-- `window_empty`. -/
def empty : Bool := w.bufsize = 0

/-- `window_full`. -/
def full : Bool := w.bufsize = w.capacity || w.bufsize ≥ w.size

/-- `window_push`. -/
def push (pkt : PktPtr) : ℤ × Window :=
  if w.full then (-1, w)
  else (0, { w with front := pkt :: w.front, bufsize := w.bufsize + 1 })

/-- `window_find_seqnum`. -/
def findSeqnum (seqnum : ℕ) : Option PktPtr := w.front.find? fun cur => cur.seqnum = seqnum

/-- The window after the packet at the address of `p` has been overwritten with that of `p`. -/
def store (p : PktPtr) : Window :=
  { w with front := w.front.map fun cur => if cur.addr = p.addr then p else cur }

/-- What `p` points to now. -/
def deref (p : PktPtr) : PktPtr := (w.front.find? fun cur => cur.addr = p.addr).getD p

/-- `window_update_timestamp`: the first packet with the old timestamp gets the new one. -/
def updateTimestamp (oldTime newTime : BitVec 32) : ℤ × Window :=
  match w.front.find? fun cur => cur.timestamp = oldTime with
  | none => (-1, w)
  | some cur => (0, w.store (cur.setTimestamp newTime))

/-- `window_pop_node` on the link at position `i`; the position after the last node is the null
link. -/
def popNode (i : ℕ) : Option PktPtr × Window :=
  match w.front[i]? with
  | none => (none, w)
  | some pkt => (some pkt, { w with front := w.front.eraseIdx i, bufsize := w.bufsize - 1 })

/-- `window_pop_timestamp`: without a match `match` is still the first link. -/
def popTimestamp (timestamp : BitVec 32) : Option PktPtr × Window :=
  w.popNode ((w.front.findIdx? fun cur => cur.timestamp = timestamp).getD 0)

/-- `window_find_min_timestamp`. -/
def findMinTimestamp : ℕ := Links.minLink (fun cur : PktPtr => cur.timestamp.toNat) w.front

/-- `window_peek_min_timestamp`. -/
def peekMinTimestamp : Option PktPtr := w.front[w.findMinTimestamp]?

/-- `window_pop_min_timestamp`. -/
def popMinTimestamp : Option PktPtr × Window := w.popNode w.findMinTimestamp

/-- `window_find_min_seqnum`. -/
def findMinSeqnum : ℕ := Links.minLink PktPtr.seqnum w.front

/-- `window_peek_min_seqnum`. -/
def peekMinSeqnum : Option PktPtr := w.front[w.findMinSeqnum]?

/-- `window_pop_min_seqnum`. -/
def popMinSeqnum : Option PktPtr × Window := w.popNode w.findMinSeqnum

end Window

end LosslessTransport
