import LosslessTransport.Lib.Crc32
import LosslessTransport.Receiver.Step
import LosslessTransport.Sender.Robust

/-!
# The receiver never closes its window

At most 30 packets are buffered between two iterations, so a reply never advertises a window of 0,
and a sender that hears nothing else never waits without a timeout.
-/

namespace LosslessTransport

open Circular

namespace Receiver

variable {crc32 : List Byte → BitVec 32} {st st' : State} {d : List Byte}

/-- A reply is accepted by the sender and advertises a window between 1 and 31. -/
def Advertises (crc32 : List Byte → BitVec 32) (reply : List Byte) : Prop :=
  ∃ a, received crc32 reply = some a ∧ 1 ≤ a.getWindow.toNat ∧ a.getWindow.toNat ≤ 31

theorem toNat_window {n : ℕ} (h : n ≤ 31) : (BitVec.ofNat 5 n).toNat = n := by
  rw [BitVec.toNat_ofNat, Nat.mod_eq_of_lt (by omega)]

theorem Inv.available (h : Inv st) : 1 ≤ st.w.available ∧ st.w.available ≤ 31 := by
  have hlen := h.length_le
  rw [Window.available_eq h.standard.toWf, h.size_eq]
  omega

theorem Inv.advertises (h : Inv st) {reply : Option (List Byte)}
    (hloop : Receiver.mainLoop crc32 d st = .ok (st', reply)) :
    ∀ bytes, reply = some bytes → Advertises crc32 bytes := by
  rintro bytes rfl
  obtain ⟨-, hnone, -⟩ | ⟨p, -, -, -, -, hreply⟩ | ⟨p, -, -, -, -, -, -, hreply⟩ :=
    mainLoop_cases h hloop
  · cases hnone
  · obtain ⟨a, ha, hagree⟩ := received_nackPkt crc32 st.w.available p.getSeqnum
    have hav := h.available
    rw [Option.some.inj hreply]
    refine ⟨a, ha, ?_⟩
    rw [hagree.window, show (nackPkt st.w.available p.getSeqnum).getWindow.toNat = st.w.available
      from toNat_window hav.2]
    exact hav
  · obtain ⟨a, ha, hagree⟩ :=
      received_ackPkt crc32 st'.w.available st'.w.pos p.getTimestamp
    have hav := (h.mainLoop hloop).available
    rw [Option.some.inj hreply]
    refine ⟨a, ha, ?_⟩
    rw [hagree.window, show (ackPkt st'.w.available st'.w.pos p.getTimestamp).getWindow.toNat =
      st'.w.available from toNat_window hav.2]
    exact hav

theorem Inv.advertises_run {ds : List (List Byte)} {replies : List (List Byte)} (h : Inv st)
    (hrun : Receiver.run crc32 ds st = .ok (st', replies)) : ∀ r ∈ replies, Advertises crc32 r := by
  induction ds generalizing st replies with
  | nil =>
    cases hrun
    nofun
  | cons d ds ih =>
    obtain ⟨st₁, reply, replies₁, hd, hds, rfl⟩ := mainLoop_of_run_cons hrun
    intro r hr
    rcases List.mem_append.1 hr with hr | hr
    · exact h.advertises hd r (by simpa using hr)
    · exact ih (h.mainLoop hd) hds r hr

/-- A sender that hears only these replies keeps a window of at least 1. -/
theorem one_le_size_of_hears {replies : List (List Byte)} {infile : List Sender.Chunk}
    {s : Sender.State} (hreplies : ∀ r ∈ replies, Advertises crc32 r)
    (h : ((Sender.lts crc32).restrict fun _ l => ∀ d, l.1 = some d → d ∈ replies).Reachable
      (Sender.init infile) s) : Sender.Inv infile s ∧ 1 ≤ s.w.size := by
  refine h.invariant (I := fun s => Sender.Inv infile s ∧ 1 ≤ s.w.size)
    ⟨Sender.Inv.init infile, le_rfl⟩ ?_
  rintro s ⟨ready, readings⟩ s' ⟨hinv, hsize⟩ ⟨hhears, sent, rest, hloop⟩
  obtain ⟨hinv', w₁, _, _, hresp, -, hsize', -, -⟩ := Sender.mainLoop_spec hinv hloop
  refine ⟨hinv', hsize'.symm ▸ ?_⟩
  have hadv : ∀ d a, ready = some d → received crc32 d = some a → 1 ≤ a.getWindow.toNat := by
    intro d a hd ha
    obtain ⟨b, hb, hle, -⟩ := hreplies d (hhears d hd)
    rwa [Option.some.inj (ha.symm.trans hb)]
  cases hresp with
  | ignored => exact hsize
  | acked hd ha _ => exact hadv _ _ hd ha
  | nacked hd ha _ => exact hadv _ _ hd ha
  | restamped hd ha => exact hadv _ _ hd ha

/-- **Buffer invariant and no zero window**, in every state between two iterations of a receiver
that has come through any datagrams. -/
theorem run_buffer {ds : List (List Byte)} {replies : List (List Byte)}
    (h : run crc32 ds init = .ok (st, replies)) :
    (∀ p ∈ st.w.front, p.pkt.getTr = 0) ∧
    (st.w.front.map PktPtr.seqnum).Nodup ∧
    (∀ p ∈ st.w.front, st.w.has p.seqnum = true) ∧
    (∀ p ∈ st.w.front, p.seqnum ≠ st.w.start) ∧
    st.w.bufferSize ≤ 30 ∧
    (∀ p, (st.w.push p).1 = 0) ∧
    (∀ r ∈ replies, Advertises crc32 r) ∧
    ∀ infile s,
      ((Sender.lts crc32).restrict fun _ l => ∀ d, l.1 = some d → d ∈ replies).Reachable
        (Sender.init infile) s →
      ¬ (s.sentEof = false ∧ s.w.bufferSize = 0 ∧ s.w.getSize = 0) := by
  have hinv := Inv.init.run h
  have hadv := Inv.init.advertises_run h
  refine ⟨hinv.tr, ?_, fun p hp => ?_, hinv.ne_start, ?_, fun p => ?_, hadv, ?_⟩
  · exact hinv.nodup.map_on fun p hp q hq hpq => hinv.inj p hp q hq hpq
  · rw [hinv.standard.has_iff p.seqnum_lt, hinv.size_eq]
    exact hinv.has p hp
  · rw [Window.bufferSize, hinv.standard.bufsize_eq]
    exact hinv.length_le
  · exact (Window.push_eq_zero_iff p).2 hinv.not_full
  · rintro infile s hs ⟨-, -, hzero⟩
    have := (one_le_size_of_hears hadv hs).2
    rw [Window.getSize] at hzero
    omega

/-- Packet 1 has come early: it is in the buffer, and the reply advertises 30. -/
theorem run_buffer_early :
    ∃ st replies,
      run Crc32.crc32
        [[0x40, 1, 0, 1, 0, 0, 0, 7, 0x49, 0xCC, 0xAA, 0x23, 0x61, 0xE8, 0xB7, 0xBE, 0x43]]
        init = .ok (st, replies) ∧
      st.w.bufferSize = 1 ∧ ∀ r ∈ replies, Advertises Crc32.crc32 r := by
  have hrun : (run Crc32.crc32
      [[0x40, 1, 0, 1, 0, 0, 0, 7, 0x49, 0xCC, 0xAA, 0x23, 0x61, 0xE8, 0xB7, 0xBE, 0x43]]
      init).toOption.map (fun r => r.1.w.bufferSize) = some 1 := by
    decide +kernel
  obtain ⟨⟨st, replies⟩, hr, hsize⟩ := Option.map_eq_some_iff.1 hrun
  obtain ⟨-, -, -, -, -, -, hadv, -⟩ := run_buffer (ok_of_toOption hr)
  exact ⟨st, replies, ok_of_toOption hr, hsize, hadv⟩

end Receiver

end LosslessTransport
