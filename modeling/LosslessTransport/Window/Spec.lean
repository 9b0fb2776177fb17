import Mathlib.Data.List.Nodup
import LosslessTransport.Window.Basic

/-!
# What the window operations do

One lemma for each operation, and the representation invariant `Window.Wf` that they keep.
`Window.Standard` is the invariant of the windows the two programs create: sequence numbers are
bytes and at most 31 packets fit.  For these `Window.has_iff` reads `window_has` as a distance on
the circle of 256 numbers.
-/

namespace LosslessTransport.Window

open Circular Links

variable {w w' : Window}

/-- The representation invariant. -/
structure Wf (w : Window) : Prop where
  bufsize_eq : w.bufsize = w.front.length
  bufsize_le : w.bufsize ≤ w.capacity
  size_le : w.size ≤ w.capacity
  pos_le : w.pos ≤ w.maxSeqnum

/-! ### Membership -/

/-- `window_has` is membership in the circular interval of `size` numbers from `window_start`. -/
theorem Wf.has_iff (h : w.Wf) (hcap : w.capacity ≤ w.maxSeqnum + 1)
    (hov : w.maxSeqnum + w.capacity < 2 ^ 64) {s : ℕ} (hs : s ≤ w.maxSeqnum) :
    w.has s ↔ dist (w.maxSeqnum + 1) w.pos s < w.size := by
  have hsize := h.size_le
  have hpos := h.pos_le
  rcases Nat.eq_zero_or_pos w.size with hz | hz
  · simp [has, hz]
  have hend : w.end_ = (w.pos + (w.size - 1)) % (w.maxSeqnum + 1) := by
    have hsub : sizeT (w.size + (2 ^ 64 - 1)) = w.size - 1 := by
      rw [sizeT, show w.size + (2 ^ 64 - 1) = w.size - 1 + 2 ^ 64 by omega, Nat.add_mod_right,
        Nat.mod_eq_of_lt (by omega)]
    have hadd : sizeT (w.pos + (w.size - 1)) = w.pos + (w.size - 1) :=
      Nat.mod_eq_of_lt (by omega)
    rw [end_, hsub, hadd]
  have hdist : dist (w.maxSeqnum + 1) w.pos s =
      if s < w.pos then s + (w.maxSeqnum + 1) - w.pos else s - w.pos := by
    split_ifs with hlt
    · exact dist_of_lt (by omega) hlt
    · exact dist_of_le (by omega) (Nat.le_of_not_lt hlt)
  have hcirc : (w.pos + (w.size - 1)) % (w.maxSeqnum + 1) =
      if w.pos + (w.size - 1) < w.maxSeqnum + 1 then w.pos + (w.size - 1)
      else w.pos + (w.size - 1) - (w.maxSeqnum + 1) := by
    split_ifs with hlt
    · exact Nat.mod_eq_of_lt hlt
    · rw [Nat.mod_eq_sub_mod (Nat.le_of_not_lt hlt), Nat.mod_eq_of_lt (by omega)]
  simp only [has, start, hend, if_neg (Nat.pos_iff_ne_zero.1 hz)]
  rw [hcirc, hdist]
  split_ifs <;> simp only [decide_eq_true_eq] <;> omega

/-! ### Preservation -/

theorem Wf.slide (h : w.Wf) : w.slide.Wf :=
  { h with pos_le := Nat.le_of_lt_succ (Nat.mod_lt _ (Nat.succ_pos _)) }

theorem Wf.slideTo (h : w.Wf) {pos : ℕ} (hs : w.slideTo pos = some w') : w'.Wf := by
  unfold Window.slideTo at hs
  split_ifs at hs with hpos
  cases hs
  exact { h with pos_le := hpos }

theorem resize_of_lt {n : ℕ} (h : w.capacity < n) : w.resize n = (-1, w) := if_pos h

theorem resize_of_le {n : ℕ} (h : n ≤ w.capacity) : w.resize n = (0, { w with size := n }) :=
  if_neg (Nat.not_lt.2 h)

theorem Wf.resize (h : w.Wf) (n : ℕ) : (w.resize n).2.Wf := by
  rcases Nat.lt_or_ge w.capacity n with hn | hn
  · rwa [resize_of_lt hn]
  · rw [resize_of_le hn]
    exact { h with size_le := hn }

theorem empty_iff (h : w.Wf) : w.empty = true ↔ w.front = [] := by
  simp [empty, h.bufsize_eq]

theorem full_eq_false_iff (h : w.Wf) : w.full = false ↔ w.front.length < w.size := by
  have hsize := h.size_le
  simp only [full, h.bufsize_eq, Bool.or_eq_false_iff, decide_eq_false_iff_not]
  omega

theorem push_of_full (p : PktPtr) (h : w.full = true) : w.push p = (-1, w) := by
  simp [push, h]

theorem push_of_not_full (p : PktPtr) (h : w.full = false) :
    w.push p = (0, { w with front := p :: w.front, bufsize := w.bufsize + 1 }) := by
  simp [push, h]

/-- A push succeeds exactly when the window is not full. -/
theorem push_eq_zero_iff (p : PktPtr) : (w.push p).1 = 0 ↔ w.full = false := by
  cases h : w.full with
  | true => simp [push_of_full p h]
  | false => simp [push_of_not_full p h]

theorem Wf.push (h : w.Wf) (p : PktPtr) : (w.push p).2.Wf := by
  cases hfull : w.full with
  | true => rwa [push_of_full p hfull]
  | false =>
    have hsize := h.size_le
    have hbufsize := h.bufsize_eq
    rw [push_of_not_full p hfull]
    rw [full_eq_false_iff h] at hfull
    exact { h with
      bufsize_eq := by simp [hbufsize]
      bufsize_le := by
        show w.bufsize + 1 ≤ w.capacity
        omega }

theorem Wf.store (h : w.Wf) (p : PktPtr) : (w.store p).Wf :=
  { h with bufsize_eq := by simp [Window.store, h.bufsize_eq] }

/-- An update leaves the window as it was, or changes one packet in place. -/
theorem updateTimestamp_cases (w : Window) (oldTime newTime : BitVec 32) :
    w.updateTimestamp oldTime newTime = (-1, w) ∨
      ∃ p, w.updateTimestamp oldTime newTime = (0, w.store p) := by
  unfold updateTimestamp
  cases w.front.find? fun cur => cur.timestamp = oldTime with
  | none => exact .inl rfl
  | some cur => exact .inr ⟨_, rfl⟩

theorem Wf.updateTimestamp (h : w.Wf) (oldTime newTime : BitVec 32) :
    (w.updateTimestamp oldTime newTime).2.Wf := by
  rcases updateTimestamp_cases w oldTime newTime with heq | ⟨p, heq⟩
  · rwa [heq]
  · rw [heq]
    exact h.store p

theorem popNode_of_none {i : ℕ} (h : w.front[i]? = none) : w.popNode i = (none, w) := by
  simp [popNode, h]

theorem popNode_of_some {i : ℕ} {p : PktPtr} (h : w.front[i]? = some p) :
    w.popNode i =
      (some p, { w with front := w.front.eraseIdx i, bufsize := w.bufsize - 1 }) := by
  simp [popNode, h]

theorem fst_popNode (w : Window) (i : ℕ) : (w.popNode i).1 = w.front[i]? := by
  cases h : w.front[i]? with
  | none => rw [popNode_of_none h]
  | some p => rw [popNode_of_some h]

theorem Wf.popNode (h : w.Wf) (i : ℕ) : (w.popNode i).2.Wf := by
  cases hi : w.front[i]? with
  | none => rwa [popNode_of_none hi]
  | some p =>
    have hlen := length_eraseIdx_add_one hi
    have hle := h.bufsize_le
    rw [popNode_of_some hi]
    exact { h with
      bufsize_eq := by
        show w.bufsize - 1 = (w.front.eraseIdx i).length
        rw [h.bufsize_eq]
        omega
      bufsize_le := Nat.le_trans (Nat.sub_le _ _) hle }

theorem available_eq (h : w.Wf) : w.available = w.size - w.front.length := by
  rw [available, h.bufsize_eq]
  split_ifs with hlt <;> omega

/-! ### Searching -/

theorem findSeqnum_eq_none_iff {s : ℕ} : w.findSeqnum s = none ↔ ∀ p ∈ w.front, p.seqnum ≠ s := by
  simp [findSeqnum, List.find?_eq_none]

theorem findSeqnum_of_nil (h : w.front = []) (s : ℕ) : w.findSeqnum s = none := by
  rw [findSeqnum_eq_none_iff, h]
  nofun

theorem mem_of_findSeqnum {s : ℕ} {p : PktPtr} (h : w.findSeqnum s = some p) :
    p ∈ w.front ∧ p.seqnum = s :=
  ⟨List.mem_of_find?_eq_some h, by simpa using List.find?_some h⟩

/-- Popping by a timestamp that is in the buffer takes the first packet that carries it. -/
theorem popTimestamp_of_mem {t : BitVec 32} (h : ∃ p ∈ w.front, p.timestamp = t) :
    ∃ i p, w.front[i]? = some p ∧ p.timestamp = t ∧
      (∀ j q, j < i → w.front[j]? = some q → q.timestamp ≠ t) ∧
      w.popTimestamp t =
        (some p, { w with front := w.front.eraseIdx i, bufsize := w.bufsize - 1 }) := by
  obtain ⟨p, hp, ht⟩ := h
  have hsome : (w.front.findIdx? fun cur => cur.timestamp = t).isSome := by
    rw [List.findIdx?_isSome, List.any_eq_true]
    exact ⟨p, hp, by simpa using ht⟩
  obtain ⟨i, hi⟩ := Option.isSome_iff_exists.1 hsome
  obtain ⟨hlt, hit, hmin⟩ := List.findIdx?_eq_some_iff_getElem.1 hi
  refine ⟨i, w.front[i], List.getElem?_eq_getElem hlt, by simpa using hit, fun j q hj hq => ?_, ?_⟩
  · obtain ⟨hjlt, rfl⟩ := List.getElem?_eq_some_iff.1 hq
    simpa using hmin j hj
  · rw [popTimestamp, hi]
    exact popNode_of_some (List.getElem?_eq_getElem hlt)

/-- Popping by a timestamp that is not in the buffer takes the first packet of the list. -/
theorem popTimestamp_of_not_mem {t : BitVec 32} (h : ∀ p ∈ w.front, p.timestamp ≠ t) :
    w.popTimestamp t = w.popNode 0 := by
  have hnone : (w.front.findIdx? fun cur => cur.timestamp = t) = none := by
    rw [List.findIdx?_eq_none_iff]
    exact fun p hp => by simpa using h p hp
  rw [popTimestamp, hnone]
  rfl

theorem popTimestamp_of_nil {t : BitVec 32} (h : w.front = []) : w.popTimestamp t = (none, w) := by
  have hnone : w.front[0]? = none := by rw [h]; rfl
  rw [popTimestamp_of_not_mem (by rw [h]; exact fun p hp => by cases hp), popNode_of_none hnone]

/-- Popping by a timestamp that one packet carries removes that packet. -/
theorem mem_popTimestamp {t : BitVec 32} (hnodup : w.front.Nodup)
    (hinj : ∀ p ∈ w.front, ∀ q ∈ w.front, p.timestamp = q.timestamp → p = q)
    (h : ∃ p ∈ w.front, p.timestamp = t) {q : PktPtr} :
    q ∈ (w.popTimestamp t).2.front ↔ q ∈ w.front ∧ q.timestamp ≠ t := by
  obtain ⟨i, r, hi, hrt, -, hpop⟩ := popTimestamp_of_mem h
  obtain ⟨hilt, hir⟩ := List.getElem?_eq_some_iff.1 hi
  rw [hpop]
  change q ∈ w.front.eraseIdx i ↔ _
  rw [← hnodup.erase_getElem i hilt, hir, hnodup.mem_erase_iff]
  constructor
  · rintro ⟨hqr, hq⟩
    exact ⟨hq, fun hqt => hqr (hinj q hq r (List.mem_of_getElem? hi) (hqt.trans hrt.symm))⟩
  · rintro ⟨hq, hqt⟩
    exact ⟨fun hqr => hqt (hqr ▸ hrt), hq⟩

theorem isFirstMin_of_peekMinSeqnum {p : PktPtr} (h : w.peekMinSeqnum = some p) :
    IsFirstMin PktPtr.seqnum w.front w.findMinSeqnum p :=
  isFirstMin_of_getElem? h

/-- The pop takes the packet the peek returned. -/
theorem popMinSeqnum_of_peek {p : PktPtr} (h : w.peekMinSeqnum = some p) :
    w.popMinSeqnum = (some p,
      { w with front := w.front.eraseIdx w.findMinSeqnum, bufsize := w.bufsize - 1 }) :=
  popNode_of_some h

theorem exists_peekMinSeqnum_lt {a : ℕ} (h : ∃ p ∈ w.front, p.seqnum < a) :
    ∃ p, w.peekMinSeqnum = some p ∧ p.seqnum < a := by
  obtain ⟨q, hq, hlt⟩ := h
  obtain ⟨p, hp, hle⟩ := exists_minLink_le ⟨q, hq, le_refl q.seqnum⟩
  exact ⟨p, hp, hle.trans_lt hlt⟩

theorem peekMinTimestamp_eq_none_iff : w.peekMinTimestamp = none ↔ w.front = [] :=
  getElem?_minLink_eq_none_iff _

theorem isFirstMin_of_peekMinTimestamp {p : PktPtr} (h : w.peekMinTimestamp = some p) :
    IsFirstMin (fun cur => cur.timestamp.toNat) w.front w.findMinTimestamp p :=
  isFirstMin_of_getElem? h

theorem mem_of_peekMinTimestamp {p : PktPtr} (h : w.peekMinTimestamp = some p) : p ∈ w.front :=
  List.mem_of_getElem? (isFirstMin_of_peekMinTimestamp h).get

/-- Either no timestamp is up to `t`, or the one of the packet that is peeked is. -/
theorem late_or_peekMinTimestamp_le (w : Window) (t : BitVec 32) :
    (∀ p ∈ w.front, ¬ p.timestamp ≤ t) ∨
      ∃ p, w.peekMinTimestamp = some p ∧ p.timestamp ≤ t := by
  by_cases h : ∃ p ∈ w.front, p.timestamp ≤ t
  · exact .inr (exists_minLink_le h)
  · push Not at h
    exact .inl h

/-! ### Changing a packet in place -/

/-- The nodes still point to the same packets. -/
theorem map_addr_store (p : PktPtr) :
    (w.store p).front.map PktPtr.addr = w.front.map PktPtr.addr := by
  simp only [store, List.map_map]
  refine List.map_congr_left fun q _ => ?_
  simp only [Function.comp_apply]
  split_ifs with h
  · exact h.symm
  · rfl

theorem mem_store {p q : PktPtr} (h : q ∈ (w.store p).front) :
    q = p ∨ (q ∈ w.front ∧ q.addr ≠ p.addr) := by
  obtain ⟨r, hr, hq⟩ := List.mem_map.1 h
  split_ifs at hq with haddr
  · exact .inl hq.symm
  · exact .inr ⟨hq ▸ hr, hq ▸ haddr⟩

theorem mem_store_self {p p' : PktPtr} (hp : p ∈ w.front) (haddr : p'.addr = p.addr) :
    p' ∈ (w.store p').front :=
  List.mem_map.2 ⟨p, hp, if_pos haddr.symm⟩

theorem mem_store_of_ne {p q : PktPtr} (hq : q ∈ w.front) (hne : q.addr ≠ p.addr) :
    q ∈ (w.store p).front :=
  List.mem_map.2 ⟨q, hq, if_neg hne⟩

/-- A pointer to a packet that has been changed in place points to the new one. -/
theorem deref_store {p p' : PktPtr} (hp : p ∈ w.front) (haddr : p'.addr = p.addr) :
    (w.store p').deref p = p' := by
  obtain ⟨q, hq⟩ : ∃ q, (w.store p').front.find? (fun cur => cur.addr = p.addr) = some q :=
    Option.isSome_iff_exists.1 (List.find?_isSome.2
      ⟨p', mem_store_self hp haddr, by simpa using haddr⟩)
  have hqaddr : q.addr = p.addr := by simpa using List.find?_some hq
  rw [deref, hq, Option.getD_some]
  rcases mem_store (List.mem_of_find?_eq_some hq) with rfl | ⟨-, hne⟩
  · rfl
  · exact absurd (hqaddr.trans haddr.symm) hne

/-- Updating by the timestamp of the packet with the least one changes that packet: the packets
before it in the list have larger timestamps. -/
theorem updateTimestamp_of_peek {p : PktPtr} (h : w.peekMinTimestamp = some p)
    (t : BitVec 32) : w.updateTimestamp p.timestamp t = (0, w.store (p.setTimestamp t)) := by
  have hmin := isFirstMin_of_peekMinTimestamp h
  obtain ⟨hlt, hget⟩ := List.getElem?_eq_some_iff.1 hmin.get
  have hfind : w.front.find? (fun cur => cur.timestamp = p.timestamp) = some p := by
    refine List.find?_eq_some_iff_getElem.2 ⟨by simp, _, hlt, hget, fun j hj => ?_⟩
    have := hmin.lt j w.front[j] hj (List.getElem?_eq_getElem (Nat.lt_trans hj hlt))
    have hne : w.front[j].timestamp ≠ p.timestamp := by
      intro heq
      rw [heq] at this
      exact Nat.lt_irrefl _ this
    simpa using hne
  rw [updateTimestamp, hfind]

/-! ### The windows of the two programs -/

/-- A window whose sequence numbers are bytes and that holds at most 31 packets. -/
structure Standard (w : Window) : Prop extends Wf w where
  maxSeqnum_eq : w.maxSeqnum = 255
  capacity_eq : w.capacity = 31

theorem Standard.has_iff (h : w.Standard) {s : ℕ} (hs : s < 256) :
    w.has s ↔ dist 256 w.pos s < w.size := by
  have hmax := h.maxSeqnum_eq
  have hcap := h.capacity_eq
  have := h.toWf.has_iff (by omega) (by omega) (s := s) (by omega)
  rwa [hmax] at this

theorem Standard.pos_lt (h : w.Standard) : w.pos < 256 := by
  have := h.pos_le
  have := h.maxSeqnum_eq
  omega

theorem Standard.create (size : ℕ) (hc : create size 31 255 = some w) : w.Standard := by
  unfold Window.create at hc
  split_ifs at hc with h
  cases hc
  exact ⟨⟨rfl, Nat.zero_le _, Nat.le_of_not_lt h, Nat.zero_le _⟩, rfl, rfl⟩

theorem Standard.slide (h : w.Standard) : w.slide.Standard := { h with toWf := h.toWf.slide }

theorem Standard.push (h : w.Standard) (p : PktPtr) : (w.push p).2.Standard := by
  refine { toWf := h.toWf.push p, maxSeqnum_eq := ?_, capacity_eq := ?_ } <;>
  · unfold Window.push
    split_ifs
    · first | exact h.maxSeqnum_eq | exact h.capacity_eq
    · first | exact h.maxSeqnum_eq | exact h.capacity_eq

theorem Standard.store (h : w.Standard) (p : PktPtr) : (w.store p).Standard :=
  { h with toWf := h.toWf.store p }

theorem Standard.slideTo (h : w.Standard) {pos : ℕ} (hs : w.slideTo pos = some w') :
    w'.Standard := by
  refine { toWf := h.toWf.slideTo hs, maxSeqnum_eq := ?_, capacity_eq := ?_ } <;>
  · unfold Window.slideTo at hs
    split_ifs at hs
    cases hs
    first | exact h.maxSeqnum_eq | exact h.capacity_eq

theorem Standard.resize (h : w.Standard) (n : ℕ) : (w.resize n).2.Standard := by
  refine { toWf := h.toWf.resize n, maxSeqnum_eq := ?_, capacity_eq := ?_ } <;>
  · unfold Window.resize
    split_ifs
    · first | exact h.maxSeqnum_eq | exact h.capacity_eq
    · first | exact h.maxSeqnum_eq | exact h.capacity_eq

theorem Standard.popNode (h : w.Standard) (i : ℕ) : (w.popNode i).2.Standard := by
  refine { toWf := h.toWf.popNode i, maxSeqnum_eq := ?_, capacity_eq := ?_ } <;>
  · unfold Window.popNode
    split
    · first | exact h.maxSeqnum_eq | exact h.capacity_eq
    · first | exact h.maxSeqnum_eq | exact h.capacity_eq

end LosslessTransport.Window
