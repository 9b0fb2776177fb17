import LosslessTransport.Lib.Crc32
import LosslessTransport.Receiver.Step

/-!
# When the receiver aborts

The drain loop finds a packet by its sequence number and removes it by its timestamp, so it fails
its assertion when a packet received later carries the same timestamp and is still in the buffer.
`Receiver.Unambiguous` says that this does not happen to a packet the loop reaches.

* `Receiver.drain_ok_iff` : the loop ends exactly when the buffer is unambiguous;
* `Receiver.run_ok_or_assertion` : a run fails in no other way;
* `Receiver.run_ok_iff` : a run on any datagrams comes through exactly when every packet is stored
  in a buffer that is unambiguous with it;
* `Receiver.run_duplicate_timestamp` : three datagrams that end the process.
-/

namespace LosslessTransport

open Circular

namespace Receiver

/-- How far a packet lies from the start of the window. -/
def offset (w : Window) (p : PktPtr) : ℕ := dist 256 w.pos p.seqnum

/-- The drain loop reaches `q`: every number before it is in the buffer, with a payload. -/
def InSequence (w : Window) (q : PktPtr) : Prop :=
  ∀ l < offset w q, ∃ p ∈ w.front, offset w p = l ∧ p.pkt.getLength ≠ 0

/-- A packet that was received after one the loop reaches, and carries its timestamp, comes before
it in sequence. -/
def Unambiguous (w : Window) : Prop :=
  ∀ q ∈ w.front, InSequence w q → ∀ x ∈ w.front, x.timestamp = q.timestamp → q.addr < x.addr →
    offset w x < offset w q

variable (crc32 : List Byte → BitVec 32)

/-- If this datagram is stored, it leaves the buffer unambiguous. -/
def StoresUnambiguous (st : State) (datagram : List Byte) : Prop :=
  ∀ p, received crc32 datagram = some p → st.w.has p.getSeqnum.toNat → p.getTr = 0 →
    Unambiguous (arrive st.w (st.alloc p))

variable {crc32} {w : Window} {p q : PktPtr} {st : State}

theorem Buffered.offset_eq_zero_iff (h : Buffered w) : offset w q = 0 ↔ q.seqnum = w.pos :=
  dist_eq_zero_iff h.standard.pos_lt q.seqnum_lt

theorem Buffered.offset_consume (h : Buffered w) (hpay : p.pkt.getLength ≠ 0)
    (hq : q.seqnum ≠ w.pos) : offset (Receiver.consume w p) q + 1 = offset w q := by
  rw [offset, pos_consume h, if_neg hpay]
  exact dist_succ h.standard.pos_lt q.seqnum_lt hq

section turn

variable (h : Buffered w) (hp : w.findSeqnum w.pos = some p)

include h hp

theorem Buffered.eq_of_offset (hq : q ∈ w.front) (h0 : offset w q = 0) : q = p := by
  obtain ⟨hpmem, hps⟩ := Window.mem_of_findSeqnum hp
  exact h.inj q hq p hpmem ((h.offset_eq_zero_iff.1 h0).trans hps.symm)

theorem Buffered.offset_head : offset w p = 0 :=
  h.offset_eq_zero_iff.2 (Window.mem_of_findSeqnum hp).2

/-- What is in sequence does not change when the packet at the start has been written. -/
theorem Buffered.inSequence_consume (hpay : p.pkt.getLength ≠ 0)
    (hq : q ∈ (Receiver.consume w p).front) :
    InSequence (Receiver.consume w p) q ↔ InSequence w q := by
  obtain ⟨hpmem, hps⟩ := Window.mem_of_findSeqnum hp
  have hne : ∀ x ∈ (Receiver.consume w p).front, x.seqnum ≠ w.pos := fun x hx heq =>
    (h.mem_consume.1 hx).1 (h.inj x (h.mem_consume.1 hx).2 p hpmem (heq.trans hps.symm))
  have hoff := h.offset_consume hpay (hne q hq)
  constructor
  · intro hin l hl
    rcases Nat.eq_zero_or_pos l with rfl | hpos
    · exact ⟨p, hpmem, h.offset_head hp, hpay⟩
    · obtain ⟨x, hx, hxl, hxpay⟩ := hin (l - 1) (by omega)
      have := h.offset_consume hpay (hne x hx)
      exact ⟨x, (h.mem_consume.1 hx).2, by omega, hxpay⟩
  · intro hin l hl
    obtain ⟨x, hx, hxl, hxpay⟩ := hin (l + 1) (by omega)
    have hxp : x ≠ p := by
      rintro rfl
      have := h.offset_head hp
      omega
    have hxmem : x ∈ (Receiver.consume w p).front := h.mem_consume.2 ⟨hxp, hx⟩
    have := h.offset_consume hpay (hne x hxmem)
    exact ⟨x, hxmem, by omega, hxpay⟩

/-- The buffer is unambiguous when the pop takes the packet at the start, and the rest is. -/
theorem Buffered.unambiguous_iff (hpay : p.pkt.getLength ≠ 0) :
    Unambiguous w ↔ PopsItself w p ∧ Unambiguous (Receiver.consume w p) := by
  obtain ⟨hpmem, hps⟩ := Window.mem_of_findSeqnum hp
  have hne : ∀ x ∈ (Receiver.consume w p).front, x.seqnum ≠ w.pos := fun x hx heq =>
    (h.mem_consume.1 hx).1 (h.inj x (h.mem_consume.1 hx).2 p hpmem (heq.trans hps.symm))
  have h0 := h.offset_head hp
  constructor
  · intro hun
    refine ⟨fun x hx hts => ?_, fun q hq hin x hx hts haddr => ?_⟩
    · by_contra haddr
      have := hun p hpmem (fun l hl => by omega) x hx hts (Nat.lt_of_not_le haddr)
      omega
    · have hq' := (h.mem_consume.1 hq).2
      have := hun q hq' ((h.inSequence_consume hp hpay hq).1 hin) x (h.mem_consume.1 hx).2 hts haddr
      have := h.offset_consume hpay (hne q hq)
      have := h.offset_consume hpay (hne x hx)
      omega
  · rintro ⟨hself, hun⟩ q hq hin x hx hts haddr
    by_cases hqp : q = p
    · subst hqp
      have := hself x hx hts
      omega
    have hqmem := h.mem_consume.2 ⟨hqp, hq⟩
    have := h.offset_consume hpay (hne q hqmem)
    by_cases hxp : x = p
    · subst hxp
      omega
    have hxmem := h.mem_consume.2 ⟨hxp, hx⟩
    have := hun q hqmem ((h.inSequence_consume hp hpay hqmem).2 hin) x hxmem hts haddr
    have := h.offset_consume hpay (hne x hxmem)
    omega

/-- The loop ends with the packet that signals the end of the file. -/
theorem Buffered.unambiguous_iff_of_eof (heof : p.pkt.getLength = 0) :
    Unambiguous w ↔ PopsItself w p := by
  obtain ⟨hpmem, hps⟩ := Window.mem_of_findSeqnum hp
  have h0 := h.offset_head hp
  constructor
  · intro hun x hx hts
    by_contra haddr
    have := hun p hpmem (fun l hl => by omega) x hx hts (Nat.lt_of_not_le haddr)
    omega
  · intro hself q hq hin x hx hts haddr
    by_cases hq0 : offset w q = 0
    · obtain rfl := h.eq_of_offset hp hq hq0
      have := hself x hx hts
      omega
    · obtain ⟨y, hy, hy0, hypay⟩ := hin 0 (Nat.pos_of_ne_zero hq0)
      rw [h.eq_of_offset hp hy hy0] at hypay
      exact absurd heof hypay

end turn

/-- The drain loop ends exactly on the unambiguous buffers. -/
theorem drain_ok_iff {fuel : ℕ} (outfile : List (List Byte)) (h : Buffered w)
    (hfuel : w.front.length ≤ fuel) :
    (∃ s, drain fuel (w, outfile) (w.findSeqnum w.pos) = .ok s) ↔ Unambiguous w := by
  induction fuel generalizing w outfile with
  | zero =>
    have hnil : w.front = [] := List.length_eq_zero_iff.1 (by omega)
    rw [Window.findSeqnum_of_nil hnil]
    refine ⟨fun _ q hq => ?_, fun _ => ⟨_, rfl⟩⟩
    rw [hnil] at hq
    cases hq
  | succ fuel ih =>
    cases hp : w.findSeqnum w.pos with
    | none =>
      refine ⟨fun _ q hq hin => ?_, fun _ => ⟨_, rfl⟩⟩
      -- nothing lies at the start, so nothing is in sequence
      have hne := Window.findSeqnum_eq_none_iff.1 hp
      have hq0 : offset w q ≠ 0 := fun h0 => hne q hq (h.offset_eq_zero_iff.1 h0)
      obtain ⟨y, hy, hy0, -⟩ := hin 0 (Nat.pos_of_ne_zero hq0)
      exact absurd (h.offset_eq_zero_iff.1 hy0) (hne y hy)
    | some p =>
      obtain ⟨hok, herr⟩ := drain_succ h hp fuel outfile
      have hmem := (Window.mem_of_findSeqnum hp).1
      have hlen : (consume w p).front.length ≤ fuel := by
        rw [length_front_consume hmem]
        omega
      by_cases hself : PopsItself w p
      · rw [hok hself]
        by_cases heof : p.pkt.getLength = 0
        · rw [h.unambiguous_iff_of_eof hp heof, h.findSeqnum_consume hp heof]
          exact ⟨fun _ => hself, fun _ => ⟨_, by cases fuel <;> rfl⟩⟩
        · rw [ih _ (h.consume hp) hlen, h.unambiguous_iff hp heof]
          exact ⟨fun hun => ⟨hself, hun⟩, And.right⟩
      · rw [herr hself]
        refine ⟨fun ⟨s, hs⟩ => (by cases hs), fun hun => absurd ?_ hself⟩
        by_cases heof : p.pkt.getLength = 0
        · exact (h.unambiguous_iff_of_eof hp heof).1 hun
        · exact ((h.unambiguous_iff hp heof).1 hun).1

/-- An iteration comes through exactly when the packet it stores leaves the buffer unambiguous. -/
theorem mainLoop_ok_iff (hst : Inv st) (d : List Byte) :
    (∃ r, mainLoop crc32 d st = .ok r) ↔ StoresUnambiguous crc32 st d := by
  cases hrec : received crc32 d with
  | none =>
    rw [mainLoop_of_not_received hrec]
    exact ⟨fun _ p hp => (by rw [hrec] at hp; cases hp), fun _ => ⟨_, rfl⟩⟩
  | some p =>
    by_cases hhas : st.w.has p.getSeqnum.toNat
    · by_cases htr : p.getTr = 0
      · have hbuf := hst.arrive hhas htr
        have hiff : StoresUnambiguous crc32 st d ↔ Unambiguous (arrive st.w (st.alloc p)) := by
          constructor
          · intro hs
            exact hs p hrec hhas htr
          · intro hun q hq _ _
            rw [hrec, Option.some.injEq] at hq
            exact hq ▸ hun
        rw [hiff, ← drain_ok_iff st.outfile hbuf le_rfl,
          mainLoop_of_data hst hrec hhas htr]
        constructor
        · rintro ⟨r, hr⟩
          obtain ⟨s, hs, -⟩ := map_eq_ok.1 hr
          exact ⟨s, hs⟩
        · rintro ⟨s, hs⟩
          exact ⟨_, map_eq_ok.2 ⟨s, hs, rfl⟩⟩
      · rw [mainLoop_of_truncated hst hrec hhas htr]
        exact ⟨fun _ q hq _ htr' => absurd htr' (by
          rw [hrec, Option.some.injEq] at hq
          exact hq ▸ htr), fun _ => ⟨_, rfl⟩⟩
    · rw [mainLoop_of_not_has hrec hhas]
      exact ⟨fun _ q hq hhas' => absurd hhas' (by
        rw [hrec, Option.some.injEq] at hq
        exact hq ▸ hhas), fun _ => ⟨_, rfl⟩⟩

theorem run_ok_iff_of_inv (hst : Inv st) (ds : List (List Byte)) :
    (∃ r, run crc32 ds st = .ok r) ↔
      ∀ pre d post, ds = pre ++ d :: post → ∀ r, run crc32 pre st = .ok r →
        StoresUnambiguous crc32 r.1 d := by
  induction ds generalizing st with
  | nil => exact ⟨fun _ pre d post h => by simp at h, fun _ => ⟨_, rfl⟩⟩
  | cons d ds ih =>
    constructor
    · rintro ⟨r, hr⟩ pre d' post heq r' hr'
      obtain ⟨rd, hd, rds, hds, -⟩ := run_cons_eq_ok.1 hr
      cases pre with
      | nil =>
        cases heq
        cases hr'
        exact (mainLoop_ok_iff hst d).1 ⟨rd, hd⟩
      | cons x pre =>
        cases heq
        obtain ⟨rd', hd', rpre, hpre, rfl⟩ := run_cons_eq_ok.1 hr'
        cases hd.symm.trans hd'
        exact (ih (hst.mainLoop hd)).1 ⟨rds, hds⟩ pre d' post rfl rpre hpre
    · intro hall
      obtain ⟨rd, hd⟩ := (mainLoop_ok_iff hst d).2 (hall [] d ds rfl (st, []) rfl)
      obtain ⟨rds, hds⟩ := (ih (hst.mainLoop hd)).2 fun pre d' post heq rpre hpre =>
        hall (d :: pre) d' post (by rw [heq]; rfl) (rpre.1, rd.2.toList ++ rpre.2)
          (run_cons_eq_ok.2 ⟨rd, hd, rpre, hpre, rfl⟩)
      exact ⟨_, run_cons_eq_ok.2 ⟨rd, hd, rds, hds, rfl⟩⟩

/-- An iteration that does not come through fails the assertion of the drain loop. -/
theorem mainLoop_ok_or_assertion (hst : Inv st) (d : List Byte) :
    (∃ r, mainLoop crc32 d st = .ok r) ∨ mainLoop crc32 d st = .error .assertion := by
  cases hrec : received crc32 d with
  | none => exact .inl ⟨_, mainLoop_of_not_received hrec⟩
  | some p =>
    by_cases hhas : st.w.has p.getSeqnum.toNat
    · by_cases htr : p.getTr = 0
      · rw [mainLoop_of_data hst hrec hhas htr]
        rcases drain_ok_or_assertion (hst.arrive hhas htr) le_rfl with ⟨s, hs⟩ | hs
        · exact .inl ⟨_, by rw [hs]; rfl⟩
        · exact .inr (by rw [hs]; rfl)
      · exact .inl ⟨_, mainLoop_of_truncated hst hrec hhas htr⟩
    · exact .inl ⟨_, mainLoop_of_not_has hrec hhas⟩

/-- **The only way to abort** is the assertion of the drain loop: a packet is never refused by the
buffer, and a reply is always built and encoded. -/
theorem run_ok_or_assertion (hst : Inv st) (ds : List (List Byte)) :
    (∃ r, run crc32 ds st = .ok r) ∨ run crc32 ds st = .error .assertion := by
  induction ds generalizing st with
  | nil => exact .inl ⟨_, rfl⟩
  | cons d ds ih =>
    rcases mainLoop_ok_or_assertion hst d with ⟨rd, hd⟩ | hd
    · rcases ih (hst.mainLoop hd) with ⟨rds, hds⟩ | hds
      · exact .inl ⟨_, run_cons_eq_ok.2 ⟨rd, hd, rds, hds, rfl⟩⟩
      · right
        change mainLoop crc32 d st >>= _ = _
        rw [hd]
        change run crc32 ds rd.1 >>= _ = _
        rw [hds]
        rfl
    · right
      change mainLoop crc32 d st >>= _ = _
      rw [hd]
      rfl

/-- **When the receiver comes through**: on any datagrams, exactly when each packet that is stored
leaves the buffer unambiguous. -/
theorem run_ok_iff (ds : List (List Byte)) :
    (∃ r, run crc32 ds init = .ok r) ↔
      ∀ pre d post, ds = pre ++ d :: post → ∀ r, run crc32 pre init = .ok r →
        StoresUnambiguous crc32 r.1 d :=
  run_ok_iff_of_inv Inv.init ds

/-- Packets 1 and 2 arrive early, with the same timestamp, and then packet 0: the loop writes
packet 0, finds packet 1 in sequence and pops packet 2. -/
theorem run_duplicate_timestamp :
    run Crc32.crc32
      [[0x40, 1, 0, 1, 0, 0, 0, 7, 0x49, 0xCC, 0xAA, 0x23, 0x61, 0xE8, 0xB7, 0xBE, 0x43],
       [0x40, 2, 0, 1, 0, 0, 0, 7, 0x78, 0x24, 0xB0, 0xBE, 0x62, 0x71, 0xBE, 0xEF, 0xF9],
       [0x40, 0, 0, 1, 0, 0, 0, 1, 0x06, 0xD8, 0x04, 0xA2, 0x60, 0x9F, 0xB0, 0x8E, 0xD5]]
      init = .error .assertion := by
  decide +kernel

end Receiver

end LosslessTransport
