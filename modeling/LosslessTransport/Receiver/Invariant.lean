import Mathlib.Data.List.Perm.Subperm
import LosslessTransport.Window.Spec
import LosslessTransport.Receiver.Basic

/-!
# The receiver's buffer

`Receiver.Buffered w` is what holds of the window at every turn of the drain loop: the packets in
the buffer are not truncated, their sequence numbers are distinct and in the window, and each was
allocated after those behind it in the list.  Between two iterations no packet has the sequence
number of `window_start` either (`Receiver.Inv`), so at most 30 are held.

`Receiver.consume` is one turn of the drain loop; `Receiver.drain_succ` says that the loop makes
this turn exactly when no packet allocated later carries the same timestamp.
-/

namespace LosslessTransport

open Circular

namespace Receiver

/-- What holds of the window at every turn of the drain loop. -/
structure Buffered (w : Window) : Prop where
  standard : w.Standard
  size_eq : w.size = 31
  tr : ∀ p ∈ w.front, p.pkt.getTr = 0
  has : ∀ p ∈ w.front, dist 256 w.pos p.seqnum < 31
  inj : ∀ p ∈ w.front, ∀ q ∈ w.front, p.seqnum = q.seqnum → p = q
  sorted : w.front.Pairwise fun p q => q.addr < p.addr

/-- What holds between two iterations of the main loop. -/
structure Inv (st : State) : Prop extends Buffered st.w where
  ne_start : ∀ p ∈ st.w.front, p.seqnum ≠ st.w.pos
  addr_lt : ∀ p ∈ st.w.front, p.addr < st.allocs

variable {w : Window} {p q : PktPtr}

theorem Buffered.nodup (h : Buffered w) : w.front.Nodup := by
  refine h.sorted.imp ?_
  intro p q hlt heq
  subst heq
  omega

/-- At most 31 packets, since they lie at different distances below 31. -/
theorem Buffered.length_le (h : Buffered w) (n : ℕ)
    (hn : ∀ p ∈ w.front, n ≤ dist 256 w.pos p.seqnum) : w.front.length + n ≤ 31 ∨ 31 < n := by
  have hmap : (w.front.map fun p => dist 256 w.pos p.seqnum).Nodup := by
    refine h.nodup.map_on fun x hx y hy hxy => h.inj x hx y hy ?_
    exact dist_inj h.standard.pos_lt x.seqnum_lt y.seqnum_lt hxy
  have hsub : (w.front.map fun p => dist 256 w.pos p.seqnum) ⊆ List.range' n (31 - n) := by
    intro x hx
    obtain ⟨y, hy, rfl⟩ := List.mem_map.1 hx
    have := h.has y hy
    have := hn y hy
    exact List.mem_range'_1.2 ⟨this, by omega⟩
  have hle := (List.subperm_of_subset hmap hsub).length_le
  simp only [List.length_map, List.length_range'] at hle
  omega

/-- Between two iterations at most 30 packets are held. -/
theorem Inv.length_le {st : State} (h : Inv st) : st.w.front.length ≤ 30 := by
  have := h.toBuffered.length_le 1 fun p hp => Nat.one_le_iff_ne_zero.2 fun hz =>
    h.ne_start p hp ((dist_eq_zero_iff h.standard.pos_lt p.seqnum_lt).1 hz)
  omega

/-! ### One turn of the drain loop -/

/-- The window after a turn that writes `p`. -/
def consume (w : Window) (p : PktPtr) : Window :=
  let w := { w with front := w.front.erase p, bufsize := w.bufsize - 1 }
  if p.pkt.getLength = 0 then w else w.slide

/-- Popping by the timestamp of `p` takes `p` itself. -/
def PopsItself (w : Window) (p : PktPtr) : Prop :=
  ∀ q ∈ w.front, q.timestamp = p.timestamp → q.addr ≤ p.addr

theorem front_consume (w : Window) (p : PktPtr) : (consume w p).front = w.front.erase p := by
  unfold consume Window.slide
  split_ifs <;> rfl

theorem length_front_consume (hp : p ∈ w.front) :
    (consume w p).front.length = w.front.length - 1 := by
  rw [front_consume, List.length_erase_of_mem hp]

theorem Buffered.mem_consume (h : Buffered w) :
    q ∈ (consume w p).front ↔ q ≠ p ∧ q ∈ w.front := by
  rw [front_consume, h.nodup.mem_erase_iff]

theorem pos_consume (h : Buffered w) :
    (consume w p).pos = if p.pkt.getLength = 0 then w.pos else (w.pos + 1) % 256 := by
  unfold consume Window.slide
  split_ifs
  · rfl
  · rw [h.standard.maxSeqnum_eq]

theorem Buffered.popTimestamp (h : Buffered w) (hp : p ∈ w.front) :
    (PopsItself w p →
      w.popTimestamp p.timestamp =
        (some p, { w with front := w.front.erase p, bufsize := w.bufsize - 1 })) ∧
    ((w.popTimestamp p.timestamp).1.map PktPtr.addr = some p.addr → PopsItself w p) := by
  obtain ⟨i, r, hi, hr, hfirst, hpop⟩ := Window.popTimestamp_of_mem ⟨p, hp, rfl⟩
  obtain ⟨hilt, hir⟩ := List.getElem?_eq_some_iff.1 hi
  -- every packet with this timestamp is at position `i` or behind it
  have hlater : ∀ q ∈ w.front, q.timestamp = p.timestamp → q = r ∨ q.addr < r.addr := by
    intro q hq hqt
    obtain ⟨j, hj, hjq⟩ := List.getElem_of_mem hq
    rcases Nat.lt_trichotomy j i with hji | rfl | hij
    · exact absurd hqt (hfirst j q hji (by rw [List.getElem?_eq_getElem hj, hjq]))
    · exact Or.inl (hjq.symm.trans hir)
    · right
      have := List.pairwise_iff_getElem.1 h.sorted i j hilt hj hij
      rwa [hjq, hir] at this
  have hrmem : r ∈ w.front := List.mem_of_getElem? hi
  constructor
  · intro hself
    obtain rfl : p = r := by
      rcases hlater p hp rfl with heq | hlt
      · exact heq
      · have := hself r hrmem hr
        omega
    rw [hpop, ← h.nodup.erase_getElem i hilt, hir]
  · intro haddr q hq hqt
    rw [hpop, Option.map_some, Option.some.injEq] at haddr
    rcases hlater q hq hqt with rfl | hlt <;> omega

/-- A turn of the drain loop. -/
theorem drain_succ (h : Buffered w) (hp : w.findSeqnum w.pos = some p) (fuel : ℕ)
    (outfile : List (List Byte)) :
    (PopsItself w p → drain (fuel + 1) (w, outfile) (some p) =
      drain fuel (consume w p, outfile ++ [p.pkt.payloadBytes])
        ((consume w p).findSeqnum (consume w p).pos)) ∧
    (¬ PopsItself w p → drain (fuel + 1) (w, outfile) (some p) = .error .assertion) := by
  obtain ⟨hpmem, -⟩ := Window.mem_of_findSeqnum hp
  obtain ⟨hpop, haddr⟩ := h.popTimestamp hpmem
  constructor
  · intro hself
    simp only [drain, hpop hself, Option.map_some, ne_eq, not_true_eq_false, if_false]
    rfl
  · intro hself
    simp only [drain]
    rw [if_pos fun heq => hself (haddr heq)]
    rfl

theorem Buffered.consume (h : Buffered w) (hp : w.findSeqnum w.pos = some p) :
    Buffered (consume w p) := by
  obtain ⟨hpmem, hps⟩ := Window.mem_of_findSeqnum hp
  have hsub : (Receiver.consume w p).front ⊆ w.front := fun q hq => (h.mem_consume.1 hq).2
  obtain ⟨i, hi, hip⟩ := List.getElem_of_mem hpmem
  have hstd : (Receiver.consume w p).Standard ∧ (Receiver.consume w p).size = w.size := by
    have hw := h.standard.popNode i
    rw [Window.popNode_of_some (List.getElem?_eq_some_iff.2 ⟨hi, hip⟩),
      ← h.nodup.erase_getElem i hi, hip] at hw
    unfold Receiver.consume
    split_ifs
    · exact ⟨hw, rfl⟩
    · exact ⟨hw.slide, rfl⟩
  refine ⟨hstd.1, hstd.2.trans h.size_eq, fun q hq => h.tr q (hsub hq), fun q hq => ?_,
    fun q hq r hr => h.inj q (hsub hq) r (hsub hr), ?_⟩
  · obtain ⟨hqp, hqmem⟩ := h.mem_consume.1 hq
    have hqlt := h.has q hqmem
    rw [pos_consume h]
    split_ifs
    · exact hqlt
    · have hne : q.seqnum ≠ w.pos := fun heq => hqp (h.inj q hqmem p hpmem (heq.trans hps.symm))
      have := dist_succ h.standard.pos_lt q.seqnum_lt hne
      omega
  · rw [front_consume]
    exact h.sorted.sublist List.erase_sublist

/-- After the packet that signals the end of the file nothing is in sequence. -/
theorem Buffered.findSeqnum_consume (h : Buffered w) (hp : w.findSeqnum w.pos = some p)
    (heof : p.pkt.getLength = 0) :
    (Receiver.consume w p).findSeqnum (Receiver.consume w p).pos = none := by
  obtain ⟨hpmem, hps⟩ := Window.mem_of_findSeqnum hp
  rw [pos_consume h, if_pos heof, Window.findSeqnum_eq_none_iff]
  intro q hq hqs
  obtain ⟨hqp, hqmem⟩ := h.mem_consume.1 hq
  exact hqp (h.inj q hqmem p hpmem (hqs.trans hps.symm))

end Receiver

end LosslessTransport
