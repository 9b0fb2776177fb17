import LosslessTransport.Packet.RoundTrip

/-!
# Sending a packet and reading the clock

What sender and receiver share (`util.c`).  A call that ends the process, or that does not come
back, has no result but an `Exit`.  `sendPacket` returns the datagram it hands to `send`;
`getMonotime` takes its value from the list of the readings still to come, in microseconds before
the conversion to 32 bits.

`received` is the packet at the other end: `received_image` says that what `sendPacket` sends is
received as it was.
-/

namespace LosslessTransport

/-- How an iteration of a main loop fails to come back. -/
inductive Exit where
  /-- An access outside an object. -/
  | outOfBounds
  /-- A null packet is dereferenced. -/
  | nullPointer
  /-- A failed `assert`. -/
  | assertion
  /-- `exit_msg ("Error encoding packet")`. -/
  | errorEncoding
  /-- `exit_msg ("Could not create packet")`. -/
  | couldNotCreate
  /-- `exit_msg ("Could not add packet to buffer")`. -/
  | couldNotAdd
  /-- `exit_msg ("Cannot update timestamp of packet")`. -/
  | cannotUpdateTimestamp
  /-- Still waiting: `select` has not returned, or the clock readings have run out. -/
  | blocked
  /-- A loop has taken more turns than it can. -/
  | outOfFuel
  deriving DecidableEq, Repr

theorem bind_eq_ok {ε α β : Type} {x : Except ε α} {f : α → Except ε β} {b : β} :
    x >>= f = .ok b ↔ ∃ a, x = .ok a ∧ f a = .ok b := by
  cases x with
  | error e =>
    constructor
    · intro h
      cases h
    · rintro ⟨a, h, -⟩
      cases h
  | ok a =>
    constructor
    · intro h
      exact ⟨a, rfl, h⟩
    · rintro ⟨a', h, h'⟩
      cases h
      exact h'

theorem map_eq_ok {ε α β : Type} {x : Except ε α} {f : α → β} {b : β} :
    x.map f = .ok b ↔ ∃ a, x = .ok a ∧ f a = b := by
  cases x with
  | error e =>
    constructor
    · intro h
      cases h
    · rintro ⟨a, h, -⟩
      cases h
  | ok a =>
    constructor
    · intro h
      exact ⟨a, rfl, Except.ok.inj h⟩
    · rintro ⟨a', h, rfl⟩
      cases h
      rfl

theorem ok_of_toOption {ε α : Type} {x : Except ε α} {a : α} (h : x.toOption = some a) :
    x = .ok a := by
  cases x with
  | error e => cases h
  | ok b =>
    cases h
    rfl

variable (crc32 : List Byte → BitVec 32)

/-- `send_packet`: what it sends. -/
def sendPacket (pkt : Pkt) : Except Exit (List Byte) :=
  match pkt.encode crc32 (List.replicate maxPacketSize 0) maxPacketSize with
  | none => throw .outOfBounds
  | some r => if r.status ≠ .ok then throw .errorEncoding else pure (r.buf.take r.len)

/-- A setter call whose status is checked. -/
def checked (r : PktStatusCode × Pkt) : Except Exit Pkt :=
  if r.1 ≠ .ok then throw .couldNotCreate else pure r.2

/-- `get_monotime`: the value, and the readings left. -/
def getMonotime : List ℕ → Except Exit (BitVec 32 × List ℕ)
  | [] => throw .blocked
  | now :: readings => pure (BitVec.ofNat 32 now, readings)

/-- The packet `pkt_decode` makes of a datagram when it accepts what `recv` has put into a buffer of
`MAX_PACKET_SIZE` bytes. -/
def received (datagram : List Byte) : Option Pkt :=
  let buf := datagram.take maxPacketSize
  match Pkt.decode crc32 (some buf) buf.length Pkt.new with
  | some (.ok, p) => some p
  | _ => none

/-- A packet with a type and a length that fits is sent as its sealed image. -/
theorem sendPacket_eq {p : Pkt} (htype : p.getType ≠ 0) (hle : p.getLength.toNat ≤ 512) :
    sendPacket crc32 p = .ok (p.sealed crc32).image := by
  have hsize := p.getTotalSize_eq
  have hmax : p.getTotalSize ≤ maxPacketSize := by
    rw [hsize, maxPacketSize_eq]
    split_ifs <;> omega
  have hlen : (p.sealed crc32).image.length = p.getTotalSize :=
    Pkt.length_image (p := p.sealed crc32) hle
  rw [sendPacket, Pkt.encode_of_le crc32 htype hle hmax (List.length_replicate.symm.le)]
  simp only [ne_eq, not_true_eq_false, if_false, ← hlen, List.take_left']
  rfl

theorem decode_of_received {crc32 : List Byte → BitVec 32} {datagram : List Byte} {p : Pkt}
    (h : received crc32 datagram = some p) :
    Pkt.decode crc32 (some (datagram.take maxPacketSize)) (datagram.take maxPacketSize).length
      Pkt.new = some (.ok, p) := by
  unfold received at h
  dsimp only at h
  split at h
  · rename_i hdec
    rw [hdec, Option.some.inj h]
  · cases h

/-- The other end receives the packet that was sent, if it is DATA or was not truncated. -/
theorem received_image {p : Pkt} (htype : p.getType ≠ 0) (hle : p.getLength.toNat ≤ 512)
    (hdata : p.getType = ptypeData ∨ p.getTr = 0) :
    ∃ q, received crc32 (p.sealed crc32).image = some q ∧ q.Agree p := by
  have hlen : (p.sealed crc32).image.length = p.getTotalSize :=
    Pkt.length_image (p := p.sealed crc32) hle
  have htake : (p.sealed crc32).image.take maxPacketSize = (p.sealed crc32).image := by
    refine List.take_of_length_le ?_
    rw [hlen, p.getTotalSize_eq, maxPacketSize_eq]
    split_ifs <;> omega
  obtain ⟨q, hdec, hq⟩ := Pkt.decode_image crc32 htype hle Pkt.new
  rw [if_pos hdata] at hdec
  exact ⟨q, by simp only [received, htake, hlen, hdec], hq hdata⟩

end LosslessTransport
