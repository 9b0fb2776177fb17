import LosslessTransport.Lib.Crc32
import LosslessTransport.System.Lockstep
import LosslessTransport.System.Safe

/-!
# What arrives

In a run in which the sender understands the ACKs, a packet that it no longer holds has been
delivered (`no_data_lost`), and what the receiver has written is the beginning of the input
(`output_prefix`).  A sender that does not understand an ACK lets go of a packet that the receiver
does not have, or keeps one so long that its sequence number comes round again.
-/

namespace LosslessTransport.System

open SelectiveRepeat
open Sender (Chunk payload map_payload_range)

/-- Packet `i` is in the receiver's buffer, or written, or it signalled the end of the file and has
been consumed. -/
def Delivered (input : List Chunk) (st : Receiver.State) (i : ℕ) : Prop :=
  (∃ q ∈ st.w.front, q.pkt.Carries (i % 256) (payload input i)) ∨
    (st.outfile.filter (· ≠ []))[i]? = some (payload input i) ∨
    (payload input i = [] ∧ [] ∈ st.outfile)

variable {crc32 : List Byte → BitVec 32} {input : List Chunk} {owner : BitVec 32 → ℕ} {s : System}
  {lim : ℕ} {va vr : View}

/-- No more payloads are written than there are pieces of the input. -/
theorem Reads.next_le {st : Receiver.State} {m : Receiver.Reassembler}
    (h : Reads input owner st m) : m.next ≤ input.length := by
  by_contra hlt
  have hmem : payload input input.length ∈ st.outfile.filter (· ≠ []) := by
    rw [h.output, h.written]
    exact List.mem_map_of_mem (List.mem_range.2 (Nat.lt_of_not_le hlt))
  exact of_decide_eq_true (List.mem_filter.1 hmem).2 ((Sender.payload_eq_nil_iff _).2 le_rfl)

/-- The file holds the first payloads. -/
theorem Reads.flatten_outfile {st : Receiver.State} {m : Receiver.Reassembler}
    (h : Reads input owner st m) :
    st.outfile.flatten = ((input.map Chunk.bytes).take m.next).flatten := by
  rw [← List.flatten_filter_ne_nil, h.output, h.written, map_payload_range h.next_le]

theorem Good.delivered (h : Good crc32 input owner lim va vr s) {i : ℕ}
    (hi : (s.receiver.view input.length).Got i) : Delivered input s.receiver i := by
  obtain ⟨m, hm⟩ := h.reads
  rcases hm.got_iff.1 hi with hlt | ⟨x, hx⟩ | ⟨heof, rfl⟩
  · right; left
    rw [hm.output, hm.written]
    simp [hlt]
  · left
    obtain ⟨q, hq, rfl, -⟩ := (hm.held i x).1 hx
    have hcarries := (h.inv.stored q hq).carries
    rw [show owner q.timestamp = i from hm.own i _ hx] at hcarries
    exact ⟨q, hq, hcarries⟩
  · exact .inr (.inr ⟨(Sender.payload_eq_nil_iff _).2 le_rfl, heof⟩)

/-- What the sender no longer holds, the receiver has got. -/
theorem Good.got (h : Good crc32 input owner lim va vr s) {i : ℕ} (hi : i < s.sender.allocs)
    (hnot : i ∉ Sender.addrs s.sender.w) : (s.receiver.view input.length).Got i :=
  (h.sending.out.got i hi hnot).mono h.va_le.2

/-- When the sender is through, everything has been written. -/
theorem Good.complete (h : Good crc32 input owner lim va vr s) (hrun : s.sender.running = false) :
    s.receiver.outfile.flatten = (input.map Chunk.bytes).flatten := by
  obtain ⟨m, hm⟩ := h.reads
  obtain ⟨heof, hnil⟩ := (Sender.running_eq_false_iff h.inv.sender.standard.toWf).1 hrun
  have hall : ∀ i < s.sender.allocs, (s.receiver.view input.length).Got i := fun i hi =>
    h.got hi (by simp [Sender.addrs, hnil])
  have hlt := h.inv.sender.sentEof_iff.1 heof
  have hle := hm.next_le
  -- the next packet would have been held, and the loop would have written it
  have hnext : m.next = input.length := by
    rcases hm.got_iff.1 (hall m.next (by omega)) with hlt | ⟨x, hx⟩ | ⟨-, heq⟩
    · exact absurd hlt (Nat.lt_irrefl _)
    · rw [hm.drained] at hx
      cases hx
    · exact heq
  rw [hm.flatten_outfile, hnext, ← List.length_map (f := Chunk.bytes), List.take_length]

/-- **No data is lost** in a run in which the sender understands the ACKs: a packet that it no
longer holds has been delivered, and when it is through the output is the input. -/
theorem no_data_lost
    (h : ((lts crc32).restrict fun s e => Ticks s e ∧ AckSafe crc32 s e).Reachable (init input) s) :
    (∀ i < s.sender.allocs, (∃ p ∈ s.sender.w.front, p.addr = i) ∨
      Delivered input s.receiver i) ∧
    (s.sender.running = false →
      s.receiver.outfile.flatten = (input.map Chunk.bytes).flatten) := by
  obtain ⟨owner, va, vr, hgood⟩ := exists_good h
  refine ⟨fun i hi => ?_, hgood.complete⟩
  by_cases hmem : i ∈ Sender.addrs s.sender.w
  · exact .inl (List.mem_map.1 hmem)
  · exact .inr (hgood.delivered (hgood.got hi hmem))

/-- A file of one byte: the sender understands both ACKs, and is through. -/
theorem no_data_lost_one_byte :
    ∃ s, ((lts Crc32.crc32).restrict fun s e => Ticks s e ∧ AckSafe Crc32.crc32 s e).Reachable
        (init [byte 0x60]) s ∧
      s.sender.running = false ∧ s.receiver.outfile.flatten = [0x60] := by
  have hrun : (LTS.run
      (fun s e => if Ticks s e ∧ AckSafe Crc32.crc32 s e then step Crc32.crc32 s e else none)
      (init [byte 0x60]) [.send false [0, 1], .receive, .send true [2, 3, 4], .receive,
        .send true [5, 6]]).map (fun s => s.sender.running) = some false := by
    decide +kernel
  obtain ⟨s, hs, hdone⟩ := Option.map_eq_some_iff.1 hrun
  have h := LTS.reachable_of_checked_run hs
  exact ⟨s, h, hdone, (no_data_lost h).2 hdone⟩

/-- A file of two blocks and a byte: packet 2 is let go of, and it is nowhere else. -/
theorem data_lost_after_retransmission :
    ∃ s, ((lts Crc32.crc32).restrict Ticks).Reachable
        (init [block 0x60, block 0x61, byte 0x62]) s ∧
      2 < s.sender.allocs ∧ (∀ p ∈ s.sender.w.front, p.addr ≠ 2) ∧
      (∀ d ∈ s.data, d.pkt.addr ≠ 2) ∧
      ¬ Delivered [block 0x60, block 0x61, byte 0x62] s.receiver 2 := by
  obtain ⟨s, hreach, hallocs, hfront, hdata, hbuf, hout⟩ := exists_let_go Crc32.crc32
    [block 0x60, block 0x61, byte 0x62] (by decide)
  refine ⟨s, hreach, by omega, hfront, hdata, ?_⟩
  rintro (⟨q, hq, -⟩ | hwritten | ⟨hnil, -⟩)
  · rw [hbuf] at hq
    cases hq
  · have hlen := (List.getElem?_eq_some_iff.1 hwritten).1
    have hle := List.length_filter_le (fun bytes : List Byte => decide (bytes ≠ []))
      s.receiver.outfile
    have htwo : s.receiver.outfile.length = 2 := by
      rw [hout, List.length_map, List.length_range]
    omega
  · cases hnil

/-- **Data integrity** in a run in which the sender understands the ACKs: what has been written is a
prefix of the input. -/
theorem output_prefix
    (h : ((lts crc32).restrict fun s e => Ticks s e ∧ AckSafe crc32 s e).Reachable (init input) s) :
    s.receiver.outfile.flatten <+: (input.map Chunk.bytes).flatten := by
  obtain ⟨owner, va, vr, hgood⟩ := exists_good h
  obtain ⟨m, hm⟩ := hgood.reads
  refine ⟨((input.map Chunk.bytes).drop m.next).flatten, ?_⟩
  rw [hm.flatten_outfile, ← List.flatten_append, List.take_append_drop]

/-- A file of one byte. -/
theorem output_prefix_one_byte :
    ∃ s, ((lts Crc32.crc32).restrict fun s e => Ticks s e ∧ AckSafe Crc32.crc32 s e).Reachable
        (init [byte 0x60]) s ∧
      s.receiver.outfile = [[0x60]] ∧ s.receiver.outfile.flatten <+: [0x60] := by
  have hrun : (LTS.run
      (fun s e => if Ticks s e ∧ AckSafe Crc32.crc32 s e then step Crc32.crc32 s e else none)
      (init [byte 0x60]) [.send false [0, 1], .receive, .send true [2, 3, 4]]).map
      (fun s => s.receiver.outfile) = some [[0x60]] := by
    decide +kernel
  obtain ⟨s, hs, hout⟩ := Option.map_eq_some_iff.1 hrun
  have h := LTS.reachable_of_checked_run hs
  exact ⟨s, h, hout, output_prefix h⟩

/-- A file of 511 blocks and a byte: packet 255 is written for packet 511. -/
theorem output_not_prefix_after_wrap :
    ∃ s, ((lts Crc32.crc32).restrict Ticks).Reachable
        (init (List.replicate 511 (block 0x60) ++ [byte 0x61])) s ∧
      ¬ s.receiver.outfile.flatten <+:
        ((List.replicate 511 (block 0x60) ++ [byte 0x61]).map Chunk.bytes).flatten := by
  obtain ⟨s, hreach, hout, -⟩ := exists_stale_written Crc32.crc32
    (List.replicate 511 (block 0x60) ++ [byte 0x61])
    (by rw [List.length_append, List.length_replicate, List.length_singleton])
  have hlast : payload (List.replicate 511 (block 0x60) ++ [byte 0x61]) 255 =
      (block 0x60).bytes := by
    unfold payload
    rw [List.getElem?_append_left (by rw [List.length_replicate]; omega), List.getElem?_replicate,
      if_pos (by omega)]
  have hfirst : (List.range 511).map (payload (List.replicate 511 (block 0x60) ++ [byte 0x61])) =
      (List.replicate 511 (block 0x60)).map Chunk.bytes := by
    rw [map_payload_range (by rw [List.length_append, List.length_replicate]; omega),
      List.map_append, List.take_left' (by rw [List.length_map, List.length_replicate])]
  refine ⟨s, hreach, fun hpre => ?_⟩
  rw [hout, hlast, hfirst, List.map_append, List.flatten_append, List.flatten_append,
    List.prefix_append_right_inj] at hpre
  have hle := hpre.length_le
  have hblock : (block 0x60).bytes.length = 512 := List.length_replicate
  rw [List.flatten_singleton, hblock] at hle
  exact absurd hle (by decide)

end LosslessTransport.System
