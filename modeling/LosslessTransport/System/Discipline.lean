import LosslessTransport.Lib.Crc32
import LosslessTransport.System.Lockstep
import LosslessTransport.System.Safe

/-!
# The sender's window discipline

The sender compares the size of its buffer with the window that the last reply advertised, and
never a number with `window_start`.  In a run in which it understands the ACKs and every NACK fits,
this is enough: the numbers in its buffer are among the last 31, and a packet is first sent when
the receiver's window has its number.
-/

namespace LosslessTransport.System

open Circular SelectiveRepeat
open Sender (Chunk)

variable {crc32 : List Byte → BitVec 32} {input : List Chunk} {owner : BitVec 32 → ℕ}
  {s s' : System} {va vr : View}

/-- The packets in the buffer are among the last 31. -/
theorem Good.allocs_le (h : Good crc32 input owner 31 va vr s) {p : PktPtr}
    (hp : p ∈ s.sender.w.front) : s.sender.allocs ≤ p.addr + 31 := by
  have := h.sending.out.ahead p.addr (List.mem_map_of_mem hp)
  have := h.sending.spread
  omega

theorem Good.nodup_seqnum (h : Good crc32 input owner 31 va vr s) :
    (s.sender.w.front.map PktPtr.seqnum).Nodup := by
  refine h.inv.sender.nodup.map_on fun p hp q hq hpq => h.inv.sender.inj hp hq ?_
  have hps := (h.inv.sender.carries p hp).seqnum_eq
  have hqs := (h.inv.sender.carries q hq).seqnum_eq
  have := h.allocs_le hp
  have := h.allocs_le hq
  have := h.inv.sender.addr_lt p hp
  have := h.inv.sender.addr_lt q hq
  omega

/-- The last number given is at most 30 steps on from each in the buffer. -/
theorem Good.dist_le (h : Good crc32 input owner 31 va vr s) {p : PktPtr}
    (hp : p ∈ s.sender.w.front) :
    dist 256 p.seqnum ((s.sender.next + 255) % 256) ≤ 30 := by
  have hps := (h.inv.sender.carries p hp).seqnum_eq
  have hle := h.allocs_le hp
  have hlt := h.inv.sender.addr_lt p hp
  have hlast : (s.sender.next + 255) % 256 = (s.sender.allocs - 1) % 256 := by
    rw [h.inv.sender.next_eq]
    omega
  rw [hps, hlast, dist_mod (by omega) (by omega)]
  omega

/-- A packet that is made in a step lies in the receiver's window. -/
theorem Good.has_of_new {owner' : BitVec 32 → ℕ} {va' vr' : View}
    (h : Good crc32 input owner 31 va vr s) (h' : Good crc32 input owner' 31 va' vr' s') {e : Event}
    (hs : System.step crc32 s e = some s') {d : Sender.Sent} (hd : d ∈ s'.data)
    (hnew : s.sender.allocs ≤ d.pkt.addr) : s'.receiver.w.has d.pkt.seqnum = true := by
  have hcarried := h'.inv.data hd
  have hlt := hcarried.addr_lt
  -- only the sender makes packets
  have hsame : s'.receiver = s.receiver := by
    cases e with
    | send hear readings =>
      obtain ⟨_, _, _, _, -, -, rfl⟩ := step_send hs
      rfl
    | receive =>
      obtain ⟨_, _, _, _, -, -, rfl⟩ := step_receive hs
      exact absurd hlt (Nat.not_lt.2 hnew)
    | loseData i =>
      obtain rfl := step_loseData hs
      rfl
    | loseAck i =>
      obtain rfl := step_loseAck hs
      rfl
    | truncate i =>
      obtain ⟨_, -, rfl⟩ := step_truncate hs
      rfl
  have hseq := hcarried.carries.seqnum_eq
  obtain ⟨m, hm⟩ := h'.reads
  have hpos := hm.pos
  have hnext : m.next ≤ s.sender.allocs := by
    rw [← hm.next_eq, hsame]
    exact View.next_le h.got_lt
  have hnear := h'.near
  rw [hm.next_eq] at hnear
  rw [h'.inv.receiver.standard.has_iff d.pkt.seqnum_lt, hpos, hseq, h'.inv.receiver.size_eq,
    dist_mod (by omega) (by omega)]
  omega

/-- The steps of a disciplined run. -/
def Disciplined (crc32 : List Byte → BitVec 32) (s : System) (e : Event) : Prop :=
  AckSafe crc32 s e ∧ NackFits crc32 31 s e

instance (crc32 : List Byte → BitVec 32) (s : System) (e : Event) :
    Decidable (Disciplined crc32 s e) := inferInstanceAs (Decidable (_ ∧ _))

theorem exists_good_of_disciplined
    (h : ((lts crc32).restrict fun s e => Ticks s e ∧ Disciplined crc32 s e).Reachable
      (init input) s) :
    ∃ owner va vr, Good crc32 input owner 31 va vr s := by
  refine h.invariant (I := fun s => ∃ owner va vr, Good crc32 input owner 31 va vr s)
    ⟨fun _ => 0, _, _, Good.init⟩ ?_
  rintro s e s' ⟨owner, va, vr, hgood⟩ ⟨⟨hticks, hsafe, hfits⟩, hs⟩
  exact hgood.step (by decide) hticks hsafe hfits hs

/-- **Window discipline** in a run in which the sender understands the ACKs and every NACK fits: the
sequence numbers in its buffer are distinct and among the last 31, and the receiver's window has the
number of every packet that is sent for the first time. -/
theorem window_discipline
    (h : ((lts crc32).restrict fun s e => Ticks s e ∧ Disciplined crc32 s e).Reachable
      (init input) s) :
    (s.sender.w.front.map PktPtr.seqnum).Nodup ∧
    (∀ p ∈ s.sender.w.front, dist 256 p.seqnum ((s.sender.next + 255) % 256) ≤ 30) ∧
    ∀ e s', Ticks s e → Disciplined crc32 s e → step crc32 s e = some s' →
      ∀ d ∈ s'.data, s.sender.allocs ≤ d.pkt.addr → s'.receiver.w.has d.pkt.seqnum = true := by
  obtain ⟨owner, va, vr, hgood⟩ := exists_good_of_disciplined h
  refine ⟨hgood.nodup_seqnum, fun p hp => hgood.dist_le hp, ?_⟩
  rintro e s' hticks ⟨hsafe, hfits⟩ hs d hd hnew
  obtain ⟨owner', va', vr', hgood'⟩ := hgood.step (by decide) hticks hsafe hfits hs
  exact hgood.has_of_new hgood' hs hd hnew

/-- The first packet is truncated: a NACK is answered by sending it again, and packet 1 with it. -/
theorem window_discipline_after_nack :
    ∃ s, ((lts Crc32.crc32).restrict fun s e => Ticks s e ∧ Disciplined Crc32.crc32 s e).Reachable
        (init [byte 0x60]) s ∧
      s.sender.w.front.map PktPtr.seqnum = [1, 0] ∧
      (s.sender.w.front.map PktPtr.seqnum).Nodup := by
  have hrun : (LTS.run
      (fun s e => if Ticks s e ∧ Disciplined Crc32.crc32 s e then step Crc32.crc32 s e else none)
      (init [byte 0x60]) [.send false [0, 1], .truncate 0, .receive,
        .send true [2, 3, 4, 5, 6]]).map (fun s => s.sender.w.front.map PktPtr.seqnum) =
      some [1, 0] := by
    decide +kernel
  obtain ⟨s, hs, hfront⟩ := Option.map_eq_some_iff.1 hrun
  have h := LTS.reachable_of_checked_run hs
  exact ⟨s, h, hfront, (window_discipline h).1⟩

/-- A file of 511 blocks and a byte: packet 255 is still in the buffer when packet 511 is made. -/
theorem undisciplined_after_wrap :
    ∃ s, ((lts Crc32.crc32).restrict Ticks).Reachable
        (init (List.replicate 511 (block 0x60) ++ [byte 0x61])) s ∧
      ¬ (s.sender.w.front.map PktPtr.seqnum).Nodup := by
  obtain ⟨s, hreach, -, hdup⟩ := exists_stale_written Crc32.crc32
    (List.replicate 511 (block 0x60) ++ [byte 0x61])
    (by rw [List.length_append, List.length_replicate, List.length_singleton])
  exact ⟨s, hreach, hdup⟩

end LosslessTransport.System
