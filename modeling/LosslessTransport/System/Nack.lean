import LosslessTransport.Lib.Crc32
import LosslessTransport.Sender.Nack
import LosslessTransport.System.Basic

/-!
# When a NACK is answered

The receiver's replies advertise the free places of its buffer, and the sender's window shrinks to
that size while packets beyond it may be in flight.  `handle_nack` ignores a NACK that is not in
this window (`System.nack_ignored`), but the window is resized all the same; one that is in it makes
the sender resend the packet at once.  Nothing else changes for the other packets
(`System.nack_resends`).
-/

namespace LosslessTransport.System

open Sender (Chunk)

variable {crc32 : List Byte → BitVec 32} {input : List Chunk} {s : System}

/-- The sender in the system is a sender that may receive anything. -/
theorem reachable_sender (h : (lts crc32).Reachable (init input) s) :
    (Sender.lts crc32).Reachable (Sender.init input) s.sender := by
  refine h.invariant (I := fun s => (Sender.lts crc32).Reachable (Sender.init input) s.sender)
    (.refl _) fun s e s' hs hstep => ?_
  cases e with
  | send hear readings =>
    obtain ⟨ready, acks, sender, sent, -, hloop, rfl⟩ := step_send hstep
    exact hs.tail (l := (ready, readings)) ⟨sent, [], hloop⟩
  | receive =>
    obtain ⟨d, data, receiver, reply, -, -, rfl⟩ := step_receive hstep
    exact hs
  | loseData i => exact (step_loseData hstep).symm ▸ hs
  | loseAck i => exact (step_loseAck hstep).symm ▸ hs
  | truncate i =>
    obtain ⟨d, -, rfl⟩ := step_truncate hstep
    exact hs

/-- **A NACK in the window is answered at once.**  In every state of a sender that may receive
anything, so also in the system, the iteration that hears the NACK sends the packet that
`window_find_seqnum` finds, and does about the others what an iteration does that hears nothing.
When the NACK is not in the window, it does so about all packets, in a window of another size. -/
theorem nack_resends :
    (∀ s, (lts crc32).Reachable (init input) s →
      (Sender.lts crc32).Reachable (Sender.init input) s.sender) ∧
    ∀ st, (Sender.lts crc32).Reachable (Sender.init input) st →
      (∀ d nack p, received crc32 d = some nack → nack.getType = ptypeNack →
        st.w.has nack.getSeqnum.toNat → st.w.findSeqnum nack.getSeqnum.toNat = some p →
        Sender.Resends crc32 st d p) ∧
      (∀ d nack, received crc32 d = some nack → nack.getType = ptypeNack →
        ¬ st.w.has nack.getSeqnum.toNat →
        (∀ readings, Sender.receive crc32 st.w (some d) readings =
          .ok (some ({ st.w with size := nack.getWindow.toNat }, readings))) ∧
        Sender.TreatsAll crc32 (some d) st) ∧
      Sender.TreatsAll crc32 none st := by
  refine ⟨fun s hs => reachable_sender hs, fun st hst => ?_⟩
  have hinv := Sender.inv_of_reachable hst
  refine ⟨fun d nack p => Sender.resends_of_nack hinv, fun d nack hrec htype hhas => ?_,
    Sender.treatsAll hinv fun _ => ⟨_, rfl, rfl⟩⟩
  have hreceive := Sender.receive_nack_of_not_has hinv.standard hrec htype hhas
  exact ⟨hreceive, Sender.treatsAll hinv fun readings => ⟨_, hreceive readings, rfl⟩⟩

/-- Packet 0 is truncated: the sender resends it when it hears the NACK. -/
theorem nack_resends_first :
    ∃ s r p st' sent, ((lts Crc32.crc32).restrict Ticks).Reachable (init [byte 0x60]) s ∧
      s.acks = [r] ∧
      p ∈ s.sender.w.front ∧ p.addr = 0 ∧
      Sender.mainLoop Crc32.crc32 (some r.bytes) [2, 3, 4, 5, 6] s.sender = .ok (st', sent, []) ∧
      Sender.SentOnce Crc32.crc32 [5, 6] st'.w sent p := by
  have hrun : ((LTS.run (fun s e => if Ticks s e then step Crc32.crc32 s e else none)
      (init [byte 0x60]) [.send false [0, 1], .truncate 0, .receive]).bind
      fun s => s.acks.head?.bind fun r => (received Crc32.crc32 r.bytes).bind fun nack =>
      (s.sender.w.findSeqnum nack.getSeqnum.toNat).bind fun p =>
      (Sender.mainLoop Crc32.crc32 (some r.bytes) [2, 3, 4, 5, 6] s.sender).toOption.map fun x =>
        decide (s.acks = [r] ∧ nack.getType = ptypeNack ∧ s.sender.w.has nack.getSeqnum.toNat ∧
          p.addr = 0 ∧ x.2.2 = [] ∧
          (Sender.await (some r.bytes) [2, 3, 4, 5, 6] s.sender).toOption = some [3, 4, 5, 6])) =
      some true := by
    decide +kernel
  obtain ⟨s, hs, hrun⟩ := Option.bind_eq_some_iff.1 hrun
  obtain ⟨r, -, hrun⟩ := Option.bind_eq_some_iff.1 hrun
  obtain ⟨nack, hrec, hrun⟩ := Option.bind_eq_some_iff.1 hrun
  obtain ⟨p, hfind, hrun⟩ := Option.bind_eq_some_iff.1 hrun
  obtain ⟨⟨st', sent, rest⟩, hx, hrun⟩ := Option.map_eq_some_iff.1 hrun
  obtain ⟨hacks, htype, hhas, haddr, rfl, hwait⟩ := of_decide_eq_true hrun
  have h := LTS.reachable_of_checked_run hs
  have hreach := h.mono (B := lts Crc32.crc32) fun _ _ _ hs => hs.2
  have hloop := ok_of_toOption hx
  obtain ⟨hsender, hnack⟩ := @nack_resends Crc32.crc32 [byte 0x60]
  refine ⟨s, r, p, st', sent, h, hacks, (Window.mem_of_findSeqnum hfind).1, haddr, hloop, ?_⟩
  exact (((hnack _ (hsender s hreach)).1 _ nack p hrec htype hhas hfind _ 3 4 [5, 6]
    (ok_of_toOption hwait) (by decide) (by decide)).2 st' sent [] hloop).1

/-- Packet 1 is lost, the receiver buffers the packets 2 to 16, and packet 17 is truncated. -/
def overtaken : List Event :=
  [.send false [0, 1], .receive, .send true [2, 3, 4], .loseData 0, .send false [5, 6], .receive] ++
    (List.range 14).flatMap (fun i => [.send true [7 + 2 * i, 8 + 2 * i], .receive]) ++
    [.send true [35, 36], .truncate 0, .receive]

/-- The NACK for packet 17 comes when the window ends with packet 16: it is ignored. -/
theorem nack_ignored :
    ∃ s r nack p s', ((lts Crc32.crc32).restrict Ticks).Reachable
        (init (List.replicate 20 (byte 0x60))) s ∧
      s.acks = [r] ∧ received Crc32.crc32 r.bytes = some nack ∧ nack.getType = ptypeNack ∧
      p ∈ s.sender.w.front ∧ p.seqnum = nack.getSeqnum.toNat ∧ s.data = [] ∧
      Ticks s (.send true [37, 38]) ∧ step Crc32.crc32 s (.send true [37, 38]) = some s' ∧
      ∀ d ∈ s'.data, d.pkt.addr ≠ p.addr := by
  have hrun : ((LTS.run (fun s e => if Ticks s e then step Crc32.crc32 s e else none)
      (init (List.replicate 20 (byte 0x60))) overtaken).bind
      fun s => s.acks.head?.bind fun r => (received Crc32.crc32 r.bytes).bind fun nack =>
      (s.sender.w.findSeqnum nack.getSeqnum.toNat).bind fun p =>
      (step Crc32.crc32 s (.send true [37, 38])).map fun s' =>
        decide (s.acks = [r] ∧ nack.getType = ptypeNack ∧ s.data = [] ∧
          Ticks s (.send true [37, 38]) ∧ ∀ d ∈ s'.data, d.pkt.addr ≠ p.addr)) = some true := by
    decide +kernel
  obtain ⟨s, hs, hrun⟩ := Option.bind_eq_some_iff.1 hrun
  obtain ⟨r, -, hrun⟩ := Option.bind_eq_some_iff.1 hrun
  obtain ⟨nack, hrec, hrun⟩ := Option.bind_eq_some_iff.1 hrun
  obtain ⟨p, hfind, hrun⟩ := Option.bind_eq_some_iff.1 hrun
  obtain ⟨s', hs', hrun⟩ := Option.map_eq_some_iff.1 hrun
  obtain ⟨hacks, htype, hdata, hticks, hsent⟩ := of_decide_eq_true hrun
  obtain ⟨hp, hseq⟩ := Window.mem_of_findSeqnum hfind
  exact ⟨s, r, nack, p, s', LTS.reachable_of_checked_run hs, hacks, hrec, htype, hp, hseq, hdata,
    hticks, hs', hsent⟩

end LosslessTransport.System
