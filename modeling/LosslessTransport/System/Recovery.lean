import LosslessTransport.Sender.Stale
import LosslessTransport.System.Stall

/-!
# Only the loss of an ACK can stop a transfer

A transfer can stop for good once an ACK is lost (`stops_after_first_ack_lost`).  Nothing else does
that: whatever is lost or truncated on the way to the receiver, however many NACKs are lost and
however late anything is, as long as no ACK is lost the last one tells the sender the number that
the receiver expects (`UpToDate`).  So once no ACK is on its way the sender holds the packet that
the receiver waits for, and nothing that the receiver has written, and every retransmission works
(`effective_of_no_ack_lost`).
-/

namespace LosslessTransport.System

open Circular SelectiveRepeat
open Sender (Chunk Sent addrs)
open Receiver (Reassembler)

variable (crc32 : List Byte → BitVec 32)

/-- The number that a reply acknowledges, when it is an ACK. -/
def acknowledged (r : Reply) : Option ℕ :=
  match received crc32 r.bytes with
  | some a => if a.getType = ptypeAck then some a.getSeqnum.toNat else none
  | none => none

/-- No ACK is lost. -/
def KeepsAcks (s : System) : Event → Prop
  | .loseAck i => ∀ r ∈ s.acks[i]?, acknowledged crc32 r = none
  | _ => True

instance (s : System) (e : Event) : Decidable (KeepsAcks crc32 s e) :=
  match e with
  | .loseAck i => inferInstanceAs (Decidable (∀ r ∈ s.acks[i]?, _))
  | .send _ _ | .receive | .loseData _ | .truncate _ => .isTrue trivial

/-- The numbers that the sender has been told last, and will be told. -/
def told (s : System) : List ℕ := s.sender.w.start :: s.acks.filterMap (acknowledged crc32)

/-- The last number that the sender is told is the one that the receiver expects. -/
def UpToDate (s : System) : Prop := (told crc32 s).getLast? = some s.receiver.w.start

variable {crc32} {input : List Chunk} {owner : BitVec 32 → ℕ} {s s' : System} {r : Reply}
  {lim : ℕ} {va vr : View} {p : PktPtr}

theorem acknowledged_of_ack {a : Pkt} (ha : received crc32 r.bytes = some a)
    (htype : a.getType = ptypeAck) : acknowledged crc32 r = some a.getSeqnum.toNat := by
  simp only [acknowledged, ha, if_pos htype]

theorem acknowledged_of_not_ack
    (h : ∀ a, received crc32 r.bytes = some a → a.getType ≠ ptypeAck) :
    acknowledged crc32 r = none := by
  unfold acknowledged
  cases ha : received crc32 r.bytes with
  | none => rfl
  | some a => exact if_neg (h a ha)

theorem UpToDate.init (input : List Chunk) : UpToDate crc32 (init input) := rfl

/-! ### One step -/

/-- **An iteration of the sender**: when it hears an ACK it slides to its number. -/
theorem UpToDate.send (h : UpToDate crc32 s) (hinv : Inv crc32 input owner s) {hear : Bool}
    {readings : List ℕ} (hs : step crc32 s (.send hear readings) = some s') :
    UpToDate crc32 s' := by
  obtain ⟨ready, acks, sender, sent, hhear, hloop, rfl⟩ := step_send hs
  obtain ⟨-, rfl, rfl⟩ | ⟨r, -, rfl, hacks⟩ := hearFrom_cases hhear
  · obtain ⟨d, ack, hd, -⟩ | ⟨-, hstart⟩ := Sender.start_of_mainLoop hinv.sender hloop
    · cases hd
    · unfold UpToDate told at h ⊢
      rw [hstart]
      exact h
  unfold UpToDate told at h ⊢
  rw [hacks] at h
  obtain ⟨d, ack, hd, ha, htype, hstart⟩ | ⟨hnot, hstart⟩ :=
    Sender.start_of_mainLoop hinv.sender hloop
  · cases hd
    rw [List.filterMap_cons_some (acknowledged_of_ack ha htype), List.getLast?_cons_cons] at h
    rw [hstart]
    exact h
  · rw [List.filterMap_cons_none (acknowledged_of_not_ack fun a => hnot _ a rfl)] at h
    rw [hstart]
    exact h

/-- **An iteration of the receiver**: when its window slides it sends an ACK with the new number. -/
theorem UpToDate.receive (h : UpToDate crc32 s) (hinv : Inv crc32 input owner s)
    (hs : step crc32 s .receive = some s') : UpToDate crc32 s' := by
  obtain ⟨d, data, receiver, reply, -, hloop, rfl⟩ := step_receive hs
  unfold UpToDate told at h ⊢
  obtain ⟨rfl, rfl, -⟩ | ⟨p, -, -, -, rfl, rfl⟩ | ⟨p, -, -, -, -, -, -, rfl⟩ :=
    Receiver.mainLoop_cases hinv.receiver hloop
  · rw [Option.map_none, Option.toList_none, List.append_nil]
    exact h
  · obtain ⟨a, ha, hagree⟩ := Receiver.received_nackPkt crc32 s.receiver.w.available p.getSeqnum
    have hnack : a.getType = ptypeNack := hagree.type
    have htype : a.getType ≠ ptypeAck := hnack.trans_ne (by decide)
    rw [List.filterMap_append, Option.map_some, Option.toList_some, List.filterMap_cons_none]
    · simpa using h
    · exact acknowledged_of_not_ack fun b hb => Option.some.inj (ha.symm.trans hb) ▸ htype
  · have hpos := (hinv.receiver.mainLoop hloop).standard.pos_lt
    obtain ⟨a, ha, hagree⟩ :=
      Receiver.received_ackPkt crc32 receiver.w.available receiver.w.pos p.getTimestamp
    have hseq : a.getSeqnum.toNat = receiver.w.start := by
      rw [hagree.seqnum]
      exact Nat.mod_eq_of_lt hpos
    rw [List.filterMap_append, Option.map_some, Option.toList_some,
      List.filterMap_cons_some (acknowledged_of_ack ha hagree.type), List.filterMap_nil, hseq,
      ← List.cons_append, List.getLast?_concat]

/-- **Every step that loses no ACK.** -/
theorem UpToDate.step (h : UpToDate crc32 s) (hinv : Inv crc32 input owner s) {e : Event}
    (hkeeps : KeepsAcks crc32 s e) (hs : step crc32 s e = some s') : UpToDate crc32 s' := by
  cases e with
  | send hear readings => exact h.send hinv hs
  | receive => exact h.receive hinv hs
  | loseData i =>
    obtain rfl := step_loseData hs
    exact h
  | loseAck i =>
    obtain rfl := step_loseAck hs
    unfold UpToDate told at h ⊢
    cases hi : s.acks[i]? with
    | none => rwa [List.eraseIdx_of_length_le (List.getElem?_eq_none_iff.1 hi)]
    | some r => rwa [Links.filterMap_eraseIdx hi (hkeeps r hi)]
  | truncate i =>
    obtain ⟨d, -, rfl⟩ := step_truncate hs
    exact h

/-! ### Runs in which no ACK is lost -/

/-- When no ACK is on its way the sender's view is the receiver's, but for what came early. -/
theorem Good.next_eq (h : Good crc32 input owner 61 va vr s) (hup : UpToDate crc32 s)
    (hnone : ∀ r ∈ s.acks, acknowledged crc32 r = none) : va.next = s.receiver.next := by
  have hnil : s.acks.filterMap (acknowledged crc32) = [] := List.filterMap_eq_nil_iff.2 hnone
  unfold UpToDate told at hup
  rw [hnil, List.getLast?_singleton, Option.some.injEq] at hup
  obtain ⟨m, hm⟩ := h.reads
  have hpos : va.next % 256 = s.receiver.next % 256 := by
    rw [← h.sending.pos, hm.next_eq, ← hm.pos]
    exact hup
  have hle : va.next ≤ s.receiver.next := View.next_le_next h.va_le.2
  have hspread := h.sending.spread
  have hnext := h.next_le_allocs
  omega

/-- What the receiver waits for has not come. -/
theorem Reads.not_got {st : Receiver.State} {m : Reassembler} (hm : Reads input owner st m)
    (hlt : st.next < input.length) : ¬ (st.view input.length).Got st.next := by
  rw [hm.got_iff, hm.next_eq]
  rw [hm.next_eq] at hlt
  rintro (hwritten | ⟨x, hx⟩ | ⟨-, heof⟩)
  · exact Nat.lt_irrefl _ hwritten
  · rw [hm.drained] at hx
    cases hx
  · exact Nat.ne_of_lt hlt heof

theorem exists_good_upToDate
    (h : ((lts crc32).restrict fun s e =>
      Ticks s e ∧ AckSafe crc32 s e ∧ KeepsAcks crc32 s e).Reachable (init input) s) :
    (∃ owner va vr, Good crc32 input owner 61 va vr s) ∧ UpToDate crc32 s := by
  refine h.invariant
    (I := fun s => (∃ owner va vr, Good crc32 input owner 61 va vr s) ∧ UpToDate crc32 s)
    ⟨⟨fun _ => 0, _, _, Good.init.mono (by decide)⟩, .init input⟩ ?_
  rintro s e s' ⟨⟨owner, va, vr, hgood⟩, hup⟩ ⟨⟨hticks, hsafe, hkeeps⟩, hs⟩
  exact ⟨hgood.step (by decide) hticks hsafe (hgood.nackFits e) hs, hup.step hgood.inv hkeeps hs⟩

/-- Once no ACK is on its way the sender holds nothing that has been written. -/
theorem Good.next_le_addr (h : Good crc32 input owner 61 va vr s) (hup : UpToDate crc32 s)
    (hnone : ∀ r ∈ s.acks, acknowledged crc32 r = none) (hp : p ∈ s.sender.w.front) :
    s.receiver.next ≤ p.addr := by
  have hle := h.sending.out.ahead p.addr (List.mem_map_of_mem hp)
  rwa [h.next_eq hup hnone] at hle

/-- It holds the packet that the receiver waits for. -/
theorem Good.exists_next (h : Good crc32 input owner 61 va vr s)
    (hlt : s.receiver.next < s.sender.allocs) (hlen : s.receiver.next < input.length) :
    ∃ p ∈ s.sender.w.front, p.addr = s.receiver.next := by
  obtain ⟨m, hm⟩ := h.reads
  by_contra hnot
  refine hm.not_got hlen ((h.sending.out.got _ hlt fun hmem => hnot ?_).mono h.va_le.2)
  obtain ⟨p, hp, haddr⟩ := List.mem_map.1 hmem
  exact ⟨p, hp, haddr⟩

/-- **Only the loss of an ACK can stop a transfer.**  In a run in which none is lost, and the sender
understands them, once no ACK is on its way every packet that the sender holds is one that the
receiver has not written, its retransmission is effective, and unless everything that was sent has
been written the sender holds the packet that the receiver waits for. -/
theorem effective_of_no_ack_lost
    (h : ((lts crc32).restrict fun s e =>
      Ticks s e ∧ AckSafe crc32 s e ∧ KeepsAcks crc32 s e).Reachable (init input) s)
    (hnone : ∀ r ∈ s.acks, acknowledged crc32 r = none) :
    s.sender.w.start = s.receiver.w.start ∧
    (∀ p ∈ s.sender.w.front, s.receiver.next ≤ p.addr ∧ Effective crc32 s p) ∧
    (s.receiver.next < s.sender.allocs → s.receiver.next < input.length →
      ∃ p ∈ s.sender.w.front, p.addr = s.receiver.next) := by
  obtain ⟨⟨owner, va, vr, hgood⟩, hup⟩ := exists_good_upToDate h
  have hnext := hgood.next_eq hup hnone
  obtain ⟨m, hm⟩ := hgood.reads
  refine ⟨?_, fun p hp => ?_, hgood.exists_next⟩
  · have hpos := hgood.sending.pos
    rw [hnext, hm.next_eq, ← hm.pos] at hpos
    exact hpos
  · have hle := hgood.next_le_addr hup hnone hp
    exact ⟨hle, hgood.inv.effective_of_has hp ((hgood.has_of_held hp).2 hle)⟩

/-- A file of two bytes, whose second packet is lost: the sender holds it, and sending it again
works. -/
theorem effective_of_no_ack_lost_two_bytes :
    ∃ s p, ((lts Crc32.crc32).restrict fun s e =>
        Ticks s e ∧ AckSafe Crc32.crc32 s e ∧ KeepsAcks Crc32.crc32 s e).Reachable
          (init [byte 0x60, byte 0x61]) s ∧
      s.data = [] ∧ p ∈ s.sender.w.front ∧ p.addr = 1 ∧ Effective Crc32.crc32 s p := by
  have hrun : (LTS.run (fun s e =>
        if Ticks s e ∧ AckSafe Crc32.crc32 s e ∧ KeepsAcks Crc32.crc32 s e then
          step Crc32.crc32 s e else none)
      (init [byte 0x60, byte 0x61]) [.send false [0, 1], .receive, .send true [2, 3, 4],
        .loseData 0]).map (fun s => (s.acks, s.data, s.receiver.next, s.sender.allocs)) =
      some ([], [], 1, 2) := by
    decide +kernel
  obtain ⟨s, hs, hmap⟩ := Option.map_eq_some_iff.1 hrun
  simp only [Prod.mk.injEq] at hmap
  obtain ⟨hacks, hdata, hnext, hallocs⟩ := hmap
  have h := LTS.reachable_of_checked_run hs
  obtain ⟨-, heffective, hheld⟩ := effective_of_no_ack_lost h (hacks ▸ nofun)
  obtain ⟨p, hp, haddr⟩ := hheld (by omega) (by rw [hnext]; decide)
  exact ⟨s, p, h, hdata, hp, haddr.trans hnext, (heffective p hp).2⟩

end LosslessTransport.System
