import LosslessTransport.Lib.Crc32
import LosslessTransport.System.Invariant

/-!
# When retransmission is effective

A packet that the sender still holds is effective when delivering it makes the receiver send an ACK
that removes it from the sender's buffer.  The receiver ignores a packet outside its window without
a reply, also one that it has received before, so a packet whose ACK was lost may never be
acknowledged again.
-/

namespace LosslessTransport.System

open Sender (Chunk)

variable (crc32 : List Byte → BitVec 32)

/-- Delivering `p` to the receiver makes it answer with an ACK, and handling the ACK removes `p`
from the sender's buffer. -/
def Effective (s : System) (p : PktPtr) : Prop :=
  ∃ datagram receiver reply ack w, sendPacket crc32 p.pkt = .ok datagram ∧
    Receiver.mainLoop crc32 datagram s.receiver = .ok (receiver, some reply) ∧
    received crc32 reply = some ack ∧ ack.getType = ptypeAck ∧
    Sender.handleAck s.sender.w ack = .ok w ∧ ∀ q ∈ w.front, q.addr ≠ p.addr

variable {crc32} {input : List Chunk} {owner : BitVec 32 → ℕ} {s : System} {p : PktPtr}

theorem Inv.timestamp_inj (h : Inv crc32 input owner s) :
    ∀ p ∈ s.sender.w.front, ∀ q ∈ s.sender.w.front, p.timestamp = q.timestamp → p = q := by
  intro p hp q hq hts
  refine h.sender.inj hp hq ?_
  rw [← (h.buffered p hp).2, ← (h.buffered q hq).2, hts]

/-- A packet of the sender's buffer, as a datagram. -/
theorem Inv.carried (h : Inv crc32 input owner s) (hp : p ∈ s.sender.w.front) :
    Carried crc32 input owner s.clock s.sender.allocs ⟨p, (p.pkt.sealed crc32).image⟩ where
  carries := h.sender.carries p hp
  addr_lt := h.sender.addr_lt p hp
  stamped := h.buffered p hp
  bytes := .inl rfl

theorem Inv.effective_of_has (h : Inv crc32 input owner s) (hp : p ∈ s.sender.w.front)
    (hhas : s.receiver.w.has p.seqnum) : Effective crc32 s p := by
  have hcarried := h.carried hp
  have hcarries := h.sender.carries p hp
  have hsend := sendPacket_eq crc32 hcarries.type_ne hcarries.getLength_le
  obtain ⟨q, hq, hagree⟩ := received_image crc32 hcarries.type_ne hcarries.getLength_le
    (.inl hcarries.type)
  have hqseq : q.getSeqnum.toNat = p.seqnum := congrArg BitVec.toNat hagree.seqnum
  have htr : q.getTr = 0 := hagree.tr.trans hcarries.tr
  rw [← hqseq] at hhas
  obtain ⟨⟨receiver, reply⟩, hloop⟩ := h.receive_ok hcarried
  obtain ⟨-, -, hnot⟩ | ⟨q', hq', -, htr', -⟩ | ⟨q', hq', -, -, -, -, -, rfl⟩ :=
    Receiver.mainLoop_cases h.receiver hloop
  · exact absurd hhas (hnot q hq)
  · rw [Option.some.inj (hq'.symm.trans hq)] at htr'
    exact absurd htr htr'
  obtain rfl := Option.some.inj (hq'.symm.trans hq)
  obtain ⟨ack, hack, hackagree⟩ := Receiver.received_ackPkt crc32 receiver.w.available
    receiver.w.pos q'.getTimestamp
  have hts : ack.getTimestamp = p.timestamp := by
    rw [hackagree.timestamp]
    exact (ntohl_htonl _).trans hagree.timestamp
  refine ⟨_, receiver, _, ack, _, hsend, hloop, hack, hackagree.type,
    Sender.handleAck_eq h.sender.standard ack, fun r hr haddr => ?_⟩
  obtain ⟨hr, -, hrt⟩ := (Sender.mem_acked h.sender.toBuffered h.timestamp_inj
    (.inl ⟨p, hp, hts.symm⟩)).1 hr
  rw [h.sender.inj hr hp haddr, hts] at hrt
  exact hrt rfl

theorem Inv.has_of_effective (h : Inv crc32 input owner s) (hp : p ∈ s.sender.w.front)
    (heff : Effective crc32 s p) : s.receiver.w.has p.seqnum := by
  have hcarries := h.sender.carries p hp
  obtain ⟨datagram, receiver, reply, -, -, hsend, hloop, -⟩ := heff
  rw [sendPacket_eq crc32 hcarries.type_ne hcarries.getLength_le, Except.ok.injEq] at hsend
  subst hsend
  obtain ⟨q, hq, hagree⟩ := received_image crc32 hcarries.type_ne hcarries.getLength_le
    (.inl hcarries.type)
  have hqseq : q.getSeqnum.toNat = p.seqnum := congrArg BitVec.toNat hagree.seqnum
  by_contra hhas
  rw [← hqseq] at hhas
  rw [Receiver.mainLoop_of_not_has hq hhas] at hloop
  cases hloop

/-- **When retransmission is effective**: in every state that is reached while the clock ticks, for
every packet the sender holds, exactly when the receiver's window has its sequence number. -/
theorem effective_iff (h : ((lts crc32).restrict Ticks).Reachable (init input) s)
    (hp : p ∈ s.sender.w.front) : Effective crc32 s p ↔ s.receiver.w.has p.seqnum := by
  obtain ⟨owner, hinv⟩ := exists_inv h
  exact ⟨hinv.has_of_effective hp, hinv.effective_of_has hp⟩

/-- Packet 0 has been sent and lost: retransmitting it is effective. -/
theorem effective_first :
    ∃ s p, ((lts Crc32.crc32).restrict Ticks).Reachable (init [byte 0x60]) s ∧
      p ∈ s.sender.w.front ∧ Effective Crc32.crc32 s p := by
  have hrun : (LTS.run (fun s e => if Ticks s e then step Crc32.crc32 s e else none)
      (init [byte 0x60]) [.send false [0, 1], .loseData 0]).map (fun s =>
      s.sender.w.front.map fun p => s.receiver.w.has p.seqnum) = some [true] := by
    decide +kernel
  obtain ⟨s, hs, hhas⟩ := Option.map_eq_some_iff.1 hrun
  obtain ⟨p, rest, hfront, hp, -⟩ := List.map_eq_cons_iff.1 hhas
  have hmem : p ∈ s.sender.w.front := hfront ▸ List.mem_cons_self ..
  have h := LTS.reachable_of_checked_run hs
  exact ⟨s, p, h, hmem, (effective_iff h hmem).2 hp⟩

/-- The ACK to packet 0 is lost.  The sender still holds the packet, and the receiver has slid past
it: retransmitting it is not effective. -/
theorem not_effective_after_lost_ack :
    ∃ s p, ((lts Crc32.crc32).restrict Ticks).Reachable (init [byte 0x60]) s ∧
      p ∈ s.sender.w.front ∧ ¬ Effective Crc32.crc32 s p := by
  have hrun : (LTS.run (fun s e => if Ticks s e then step Crc32.crc32 s e else none)
      (init [byte 0x60]) [.send false [0, 1], .receive, .loseAck 0]).map (fun s =>
      s.sender.w.front.map fun p => s.receiver.w.has p.seqnum) = some [false] := by
    decide +kernel
  obtain ⟨s, hs, hhas⟩ := Option.map_eq_some_iff.1 hrun
  obtain ⟨p, rest, hfront, hp, -⟩ := List.map_eq_cons_iff.1 hhas
  have hmem : p ∈ s.sender.w.front := hfront ▸ List.mem_cons_self ..
  have h := LTS.reachable_of_checked_run hs
  obtain ⟨owner, hinv⟩ := exists_inv h
  refine ⟨s, p, h, hmem, fun heff => ?_⟩
  rw [hinv.has_of_effective hmem heff] at hp
  cases hp

end LosslessTransport.System
