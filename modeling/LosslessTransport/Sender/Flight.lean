import LosslessTransport.Lib.Circular
import LosslessTransport.Lib.SelectiveRepeat
import LosslessTransport.Sender.Invariant

/-!
# The sender's numbers and the views it has been told of

`handle_ack` compares sequence numbers as plain integers, and when no packet carries the timestamp
of the ACK it removes the first packet of the buffer.  When the comparison agrees with the order on
the circle that starts at `window_start` (`OrderAgrees`), and the packet is found by its timestamp
(`TimestampFound`), the ACK removes what it acknowledges and nothing else (`Sending.acked`).

`Sender.Sending lim` relates the buffer to the views of the receiver that the last ACK and the last
reply were sent in.  A NACK resizes the window but says nothing of where it starts, so the numbers
may run ahead of `window_start` by more than the 31 of a window; `lim` is how far.
-/

namespace LosslessTransport

open Circular SelectiveRepeat

namespace Sender

/-- For the packets that the ACK does not name, the comparison that `handle_ack` makes agrees with
the order on the circle. -/
def OrderAgrees (w : Window) (ack : Pkt) : Prop :=
  ∀ p ∈ w.front, p.timestamp ≠ ack.getTimestamp →
    (p.seqnum < ack.getSeqnum.toNat ↔
      dist 256 w.start p.seqnum < dist 256 w.start ack.getSeqnum.toNat)

instance (w : Window) (ack : Pkt) : Decidable (OrderAgrees w ack) :=
  inferInstanceAs (Decidable (∀ p ∈ w.front, _))

/-- The sender's numbers, after a reply sent in view `vr`, and an ACK sent in view `va`. -/
structure Sending (lim n : ℕ) (w : Window) (sentEof : Bool) (va vr : View) : Prop where
  pos : w.pos = va.next % 256
  out : Outstanding n (addrs w) va
  /-- The window is no larger than the room the receiver had. -/
  size_le : sentEof = false → w.size + vr.early.card ≤ 31
  early_le : sentEof = false → va.early.card ≤ 30
  spread : n ≤ va.next + lim
  /-- Filling the window does not go too far either. -/
  room : sentEof = false → w.front.length < w.size → n + w.size ≤ va.next + lim + w.front.length

variable {w w' : Window} {lim n : ℕ} {va vr v : View} {eof : Bool}

theorem length_addrs (w : Window) : (addrs w).length = w.front.length := List.length_map ..

theorem pos_acked (w : Window) (ack : Pkt) : (acked w ack).pos = ack.getSeqnum.toNat := by
  unfold acked
  dsimp only
  split_ifs
  · rfl
  · unfold Window.popTimestamp Window.popNode
    split <;> rfl

theorem Sending.init {input : List Chunk} :
    Sending 31 0 (init input).w false ⟨0, ∅⟩ ⟨0, ∅⟩ where
  pos := rfl
  out := ⟨nofun, fun _ hi => absurd hi (Nat.not_lt_zero _)⟩
  size_le _ := show 1 + 0 ≤ 31 by decide
  early_le _ := Nat.zero_le _
  spread := Nat.zero_le _
  room _ _ := show 0 + 1 ≤ 0 + 31 + 0 by decide

theorem Sending.mono {lim' : ℕ} (h : Sending lim n w eof va vr) (hle : lim ≤ lim') :
    Sending lim' n w eof va vr :=
  { h with
    spread := by have := h.spread; omega
    room := fun heof hlt => by have := h.room heof hlt; omega }

/-- Only the numbers, the start and the size of the window matter. -/
theorem Sending.congr (h : Sending lim n w eof va vr) (haddrs : addrs w' = addrs w)
    (hpos : w'.pos = w.pos) (hsize : w'.size = w.size) : Sending lim n w' eof va vr := by
  have hlen : w'.front.length = w.front.length := by
    rw [← length_addrs, ← length_addrs, haddrs]
  exact ⟨hpos.trans h.pos, haddrs.symm ▸ h.out, hsize.symm ▸ h.size_le, h.early_le, h.spread,
    by rw [hsize, hlen]; exact h.room⟩

/-- The distance from the start of the window to a number. -/
theorem Sending.dist_eq (h : Sending lim n w eof va vr) (hlim : lim ≤ 61) {i : ℕ}
    (hle : va.next ≤ i) (hi : i ≤ n) : dist 256 w.pos (i % 256) = i - va.next := by
  have := h.spread
  rw [h.pos]
  exact dist_mod hle (by omega)

/-- An ACK sent in the view `v` with the number of a packet it has. -/
theorem Sending.acked {input : List Chunk} (h : Sending lim n w eof va vr)
    (hlim : 31 ≤ lim ∧ lim ≤ 61) (hbuf : Buffered input n w) {owner : BitVec 32 → ℕ}
    (howner : ∀ p ∈ w.front, owner p.timestamp = p.addr) {ack : Pkt}
    (hle : va ≤ v) (hn : v.next ≤ n) (hseq : ack.getSeqnum.toNat = v.next % 256)
    (hgot : v.Got (owner ack.getTimestamp)) (horder : OrderAgrees w ack)
    (hfound : TimestampFound w ack) {size : ℕ} (hsize : eof = false → size + v.early.card ≤ 31)
    (hone : eof = false → 1 ≤ size) :
    Sending lim n { acked w ack with size := size } eof v v := by
  have hinj : ∀ p ∈ w.front, ∀ q ∈ w.front, p.timestamp = q.timestamp → p = q :=
    fun p hp q hq ht => hbuf.inj hp hq (by rw [← howner p hp, ← howner q hq, ht])
  have hnext := View.next_le_next hle
  have hspread := h.spread
  -- the comparison is the one of the numbers
  have hcmp : ∀ q ∈ w.front, q.timestamp ≠ ack.getTimestamp →
      (ack.getSeqnum.toNat ≤ q.seqnum ↔ v.next ≤ q.addr) := by
    intro q hq hts
    have hahead := h.out.ahead q.addr (List.mem_map_of_mem hq)
    have hqseq := (hbuf.carries q hq).seqnum_eq
    have hlt := horder q hq hts
    rw [Window.start, hseq, hqseq, h.dist_eq hlim.2 hahead (hbuf.addr_lt q hq).le,
      h.dist_eq hlim.2 hnext hn] at hlt
    rw [hseq, hqseq]
    omega
  have hout : Outstanding n (addrs (Sender.acked w ack)) v := by
    refine h.out.acknowledge hle hgot (fun i hi => ?_) fun i hi hge hne => ?_
    · obtain ⟨q, hq, rfl⟩ := List.mem_map.1 hi
      obtain ⟨hq, hge, hts⟩ := (mem_acked hbuf hinj hfound).1 hq
      exact (hcmp q hq hts).1 hge
    · obtain ⟨q, hq, rfl⟩ := List.mem_map.1 hi
      have hts : q.timestamp ≠ ack.getTimestamp := fun hts => hne (by rw [← hts, howner q hq])
      exact List.mem_map_of_mem ((mem_acked hbuf hinj hfound).2 ⟨hq, (hcmp q hq hts).2 hge, hts⟩)
  refine ⟨?_, hout, hsize, fun heof => ?_, by omega, fun heof _ => ?_⟩
  · exact (pos_acked w ack).trans hseq
  · have := hsize heof
    have := hone heof
    omega
  · have hcount := hout.count le_rfl
    have := hsize heof
    rw [length_addrs] at hcount
    show n + size ≤ v.next + lim + (Sender.acked w ack).front.length
    omega

/-- A NACK sent in the view `v` resizes the window. -/
theorem Sending.resized (h : Sending lim n w eof va vr) {size : ℕ}
    (hsize : eof = false → size + v.early.card ≤ 31)
    (hfits : eof = false → n + size ≤ va.next + lim + w.front.length) :
    Sending lim n { w with size := size } eof va v :=
  { h with size_le := hsize, room := fun heof _ => hfits heof }

/-- A new packet is made when the window is not full. -/
theorem Sending.added (h : Sending lim n w false va vr) (hn : va.next ≤ n)
    (haddrs : addrs w' = n :: addrs w) (hpos : w'.pos = w.pos) (hsize : w'.size = w.size)
    (hroom : (addrs w).length < w.size) (eof : Bool) : Sending lim (n + 1) w' eof va vr := by
  have hlen : w'.front.length = w.front.length + 1 := by
    rw [← length_addrs, ← length_addrs, haddrs, List.length_cons]
  rw [length_addrs] at hroom
  have := h.room rfl hroom
  refine ⟨hpos.trans h.pos, haddrs.symm ▸ h.out.make hn, fun _ => hsize.symm ▸ h.size_le rfl,
    fun _ => h.early_le rfl, by omega, fun _ _ => ?_⟩
  rw [hsize, hlen]
  omega

/-- When a packet can be made, its number is in the receiver's reach. -/
theorem Sending.le_next (h : Sending lim n w false va vr) (hle : va ≤ vr)
    (hroom : (addrs w).length < w.size) : n ≤ vr.next + 30 := by
  have := h.out.count hle
  have := h.size_le rfl
  omega

end Sender

end LosslessTransport
