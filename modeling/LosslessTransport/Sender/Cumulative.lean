import LosslessTransport.Sender.Flight

/-!
# When an ACK is exact

An ACK with sequence number `a` acknowledges the packets numbered from `window_start` up to `a`,
`a` excluded, going round the circle of 256 numbers (`Covered`), and the packet with its timestamp.
`Sender.ackExact_iff` says when `handle_ack` removes exactly these.  Two things go wrong otherwise:
the comparison of the numbers does not go round the circle, and when no packet carries the timestamp
the first packet that is left in the list is removed.
-/

namespace LosslessTransport

open Circular Links

namespace Sender

/-- The packet is numbered in the circular interval from `window_start` up to `a`, `a` excluded. -/
def Covered (w : Window) (a : ℕ) (p : PktPtr) : Prop :=
  dist 256 w.start p.seqnum < dist 256 w.start a

instance (w : Window) (a : ℕ) (p : PktPtr) : Decidable (Covered w a p) :=
  inferInstanceAs (Decidable (_ < _))

/-- `handle_ack` removes exactly the packets covered and those with the timestamp of the ACK, and
slides the window to its sequence number. -/
def AckExact (w : Window) (ack : Pkt) : Prop :=
  ∃ w', handleAck w ack = .ok w' ∧ w'.start = ack.getSeqnum.toNat ∧
    w'.front = w.front.filter fun p =>
      ¬ (Covered w ack.getSeqnum.toNat p ∨ p.timestamp = ack.getTimestamp)

/-- A packet carries the timestamp of the ACK: one packet only, or only packets with smaller
sequence numbers. -/
def Named (w : Window) (ack : Pkt) : Prop :=
  (∃ p ∈ w.front, p.timestamp = ack.getTimestamp) ∧
    ((∀ p ∈ w.front, p.timestamp = ack.getTimestamp → p.seqnum < ack.getSeqnum.toNat) ∨
      ∀ p ∈ w.front, ∀ q ∈ w.front,
        p.timestamp = ack.getTimestamp → q.timestamp = ack.getTimestamp → p = q)

/-- The first packet of the list whose sequence number is not smaller than `a`. -/
def firstFrom (w : Window) (a : ℕ) : Option PktPtr := w.front.find? fun p => a ≤ p.seqnum

/-- No packet carries the timestamp of the ACK, and the one that is removed in its place is covered;
for the others the comparison agrees with the order on the circle. -/
def Unnamed (w : Window) (ack : Pkt) : Prop :=
  (∀ p ∈ w.front, p.timestamp ≠ ack.getTimestamp) ∧
    ∀ p ∈ w.front, Covered w ack.getSeqnum.toNat p ↔
      p.seqnum < ack.getSeqnum.toNat ∨ firstFrom w ack.getSeqnum.toNat = some p

/-- The window when `handle_ack` comes to the pop by timestamp. -/
def slid (w : Window) (a : ℕ) : Window := { dropBelow w a with pos := a }

variable {w : Window} {ack : Pkt}

/-- Popping by timestamp removes the packet that it returns. -/
theorem front_popTimestamp (hnodup : w.front.Nodup) (t : BitVec 32) :
    (w.popTimestamp t).2.front = w.front.filter fun q => (w.popTimestamp t).1 ≠ some q := by
  unfold Window.popTimestamp Window.popNode
  split
  · exact (List.filter_eq_self.2 fun _ _ => by simp).symm
  · rename_i p hp
    rw [eraseIdx_eq_filter hnodup hp]
    exact List.filter_congr fun q _ => by simp [eq_comm]

/-- The packets that `handle_ack` keeps: those with sequence numbers that are not smaller, without
the one popped by timestamp, unless one with the timestamp was among the others. -/
theorem ackExact_iff_keeps (hw : w.Standard) :
    AckExact w ack ↔ (acked w ack).front = w.front.filter fun p =>
      ¬ (Covered w ack.getSeqnum.toNat p ∨ p.timestamp = ack.getTimestamp) := by
  have hack := handleAck_eq hw ack
  constructor
  · rintro ⟨w', hw', -, hfront⟩
    rw [hack, Except.ok.injEq] at hw'
    rwa [hw']
  · exact fun h => ⟨_, hack, pos_acked w ack, h⟩

/-- A packet with the timestamp is among those with smaller sequence numbers. -/
theorem ackExact_iff_of_below (hw : w.Standard)
    (h : ∃ p ∈ w.front, p.seqnum < ack.getSeqnum.toNat ∧ p.timestamp = ack.getTimestamp) :
    AckExact w ack ↔ ∀ p ∈ w.front,
      (p.seqnum < ack.getSeqnum.toNat ↔
        Covered w ack.getSeqnum.toNat p ∨ p.timestamp = ack.getTimestamp) := by
  obtain ⟨p, hp, hlt⟩ := h
  have hany : (w.front.any fun p =>
      p.seqnum < ack.getSeqnum.toNat ∧ p.timestamp = ack.getTimestamp) = true :=
    List.any_eq_true.2 ⟨p, hp, decide_eq_true hlt⟩
  have hfront : (acked w ack).front = w.front.filter fun p => ack.getSeqnum.toNat ≤ p.seqnum := by
    rw [acked, if_pos hany]
    rfl
  rw [ackExact_iff_keeps hw, hfront, filter_eq_filter_iff]
  refine forall₂_congr fun q _ => ?_
  rw [decide_eq_decide, ← Nat.not_lt, not_iff_not]

/-- Otherwise what is popped by timestamp goes, too. -/
theorem ackExact_iff_of_not_below (hw : w.Standard) (hnodup : w.front.Nodup)
    (h : ¬ ∃ p ∈ w.front, p.seqnum < ack.getSeqnum.toNat ∧ p.timestamp = ack.getTimestamp)
    {popped : Option PktPtr}
    (hpop : ((slid w ack.getSeqnum.toNat).popTimestamp ack.getTimestamp).1 = popped) :
    AckExact w ack ↔ ∀ p ∈ w.front,
      (p.seqnum < ack.getSeqnum.toNat ∨ popped = some p ↔
        Covered w ack.getSeqnum.toNat p ∨ p.timestamp = ack.getTimestamp) := by
  have hany : ¬ (w.front.any fun p =>
      p.seqnum < ack.getSeqnum.toNat ∧ p.timestamp = ack.getTimestamp) = true := by
    rw [List.any_eq_true]
    rintro ⟨p, hp, hlt⟩
    exact h ⟨p, hp, of_decide_eq_true hlt⟩
  have hfront : (acked w ack).front = w.front.filter fun p =>
      ¬ (p.seqnum < ack.getSeqnum.toNat ∨ popped = some p) := by
    have hacked : acked w ack = ((slid w ack.getSeqnum.toNat).popTimestamp ack.getTimestamp).2 :=
      if_neg hany
    rw [hacked, front_popTimestamp (hnodup.filter _), hpop, slid]
    rw [dropBelow, List.filter_filter]
    refine List.filter_congr fun q _ => ?_
    rw [Bool.eq_iff_iff]
    simp only [Bool.and_eq_true, decide_eq_true_eq, not_or, Nat.not_lt, and_comm, ne_eq]
  rw [ackExact_iff_keeps hw, hfront, filter_eq_filter_iff]
  refine forall₂_congr fun q _ => ?_
  rw [decide_eq_decide, not_iff_not]

/-- When a packet carries the timestamp, and none of those with smaller sequence numbers does. -/
theorem ackExact_iff_of_named (hw : w.Standard) (hnodup : w.front.Nodup)
    (h : ¬ ∃ p ∈ w.front, p.seqnum < ack.getSeqnum.toNat ∧ p.timestamp = ack.getTimestamp)
    (hex : ∃ p ∈ w.front, p.timestamp = ack.getTimestamp) :
    AckExact w ack ↔ OrderAgrees w ack ∧ Named w ack := by
  have hnot : ∀ p ∈ w.front, p.timestamp = ack.getTimestamp → ¬ p.seqnum < ack.getSeqnum.toNat :=
    fun p hp ht hlt => h ⟨p, hp, hlt, ht⟩
  obtain ⟨x, hx, hxt, hpop⟩ : ∃ x ∈ w.front, x.timestamp = ack.getTimestamp ∧
      ((slid w ack.getSeqnum.toNat).popTimestamp ack.getTimestamp).1 = some x := by
    obtain ⟨p, hp, ht⟩ := hex
    obtain ⟨i, x, hi, hxt, -, hpop⟩ := Window.popTimestamp_of_mem (w := slid w ack.getSeqnum.toNat)
      ⟨p, mem_dropBelow.2 ⟨hp, Nat.le_of_not_lt (hnot p hp ht)⟩, ht⟩
    exact ⟨x, (mem_dropBelow.1 (List.mem_of_getElem? hi)).1, hxt, congrArg Prod.fst hpop⟩
  rw [ackExact_iff_of_not_below hw hnodup h hpop]
  constructor
  · intro hall
    refine ⟨fun p hp ht => ?_, hex, .inr ?_⟩
    · have hpx : some x ≠ some p := by
        rintro heq
        exact ht (Option.some.inj heq ▸ hxt)
      have := hall p hp
      rwa [or_iff_left hpx, or_iff_left ht] at this
    · -- every packet with the timestamp is the one that is popped
      have honly : ∀ p ∈ w.front, p.timestamp = ack.getTimestamp → x = p := by
        intro p hp ht
        exact Option.some.inj (((hall p hp).2 (.inr ht)).resolve_left (hnot p hp ht))
      exact fun p hp q hq hpt hqt => (honly p hp hpt).symm.trans (honly q hq hqt)
  · rintro ⟨horder, -, hall | hone⟩ p hp
    · exact absurd (hall x hx hxt) (hnot x hx hxt)
    · by_cases ht : p.timestamp = ack.getTimestamp
      · exact ⟨fun _ => .inr ht, fun _ => .inr (congrArg some (hone x hx p hp hxt ht))⟩
      · have hpx : some x ≠ some p := by
          rintro heq
          exact ht (Option.some.inj heq ▸ hxt)
        rw [or_iff_left hpx, or_iff_left ht]
        exact horder p hp ht

/-- When a packet with a smaller sequence number carries the timestamp. -/
theorem ackExact_iff_of_named_below (hw : w.Standard)
    (h : ∃ p ∈ w.front, p.seqnum < ack.getSeqnum.toNat ∧ p.timestamp = ack.getTimestamp) :
    AckExact w ack ↔ OrderAgrees w ack ∧ Named w ack := by
  rw [ackExact_iff_of_below hw h]
  obtain ⟨x, hx, hlt, hxt⟩ := h
  constructor
  · intro hall
    refine ⟨fun p hp ht => ?_, ⟨x, hx, hxt⟩, .inl fun p hp ht => (hall p hp).2 (.inr ht)⟩
    have := hall p hp
    rwa [or_iff_left ht] at this
  · rintro ⟨horder, -, hnamed⟩ p hp
    by_cases ht : p.timestamp = ack.getTimestamp
    · refine ⟨fun _ => .inr ht, fun _ => ?_⟩
      rcases hnamed with hall | hone
      · exact hall p hp ht
      · exact hone x hx p hp hxt ht ▸ hlt
    · rw [or_iff_left ht]
      exact horder p hp ht

/-- When no packet carries the timestamp. -/
theorem ackExact_iff_of_unnamed (hw : w.Standard) (hnodup : w.front.Nodup)
    (hno : ∀ p ∈ w.front, p.timestamp ≠ ack.getTimestamp) :
    AckExact w ack ↔ Unnamed w ack := by
  have hpop : ((slid w ack.getSeqnum.toNat).popTimestamp ack.getTimestamp).1 =
      firstFrom w ack.getSeqnum.toNat := by
    have hmiss : ∀ p ∈ (slid w ack.getSeqnum.toNat).front, p.timestamp ≠ ack.getTimestamp :=
      fun p hp => hno p (mem_dropBelow.1 hp).1
    rw [Window.popTimestamp_of_not_mem hmiss, Window.fst_popNode, ← List.head?_eq_getElem?]
    exact List.head?_filter
  have hbelow : ¬ ∃ p ∈ w.front, p.seqnum < ack.getSeqnum.toNat ∧
      p.timestamp = ack.getTimestamp := by
    rintro ⟨p, hp, -, ht⟩
    exact hno p hp ht
  rw [ackExact_iff_of_not_below hw hnodup hbelow hpop, Unnamed, and_iff_right hno]
  refine forall₂_congr fun p hp => ?_
  rw [or_iff_left (hno p hp)]
  exact iff_comm

/-- **When an ACK is exact**: exactly when a packet carries its timestamp and for the others the
comparison agrees with the order on the circle, or no packet carries it and the one that is removed
in its place is acknowledged anyway. -/
theorem ackExact_iff (hw : w.Standard) (hdistinct : (w.front.map PktPtr.seqnum).Nodup) :
    AckExact w ack ↔ OrderAgrees w ack ∧ Named w ack ∨ Unnamed w ack := by
  have hnodup : w.front.Nodup := List.Nodup.of_map _ hdistinct
  by_cases hex : ∃ p ∈ w.front, p.timestamp = ack.getTimestamp
  · have hno : ¬ Unnamed w ack := by
      rintro ⟨hno, -⟩
      obtain ⟨p, hp, ht⟩ := hex
      exact hno p hp ht
    rw [or_iff_left hno]
    by_cases hbelow : ∃ p ∈ w.front, p.seqnum < ack.getSeqnum.toNat ∧
        p.timestamp = ack.getTimestamp
    · exact ackExact_iff_of_named_below hw hbelow
    · exact ackExact_iff_of_named hw hnodup hbelow hex
  · have hnamed : ¬ (OrderAgrees w ack ∧ Named w ack) := fun h => hex h.2.1
    rw [or_iff_right hnamed]
    exact ackExact_iff_of_unnamed hw hnodup fun p hp ht => hex ⟨p, hp, ht⟩

/-- A DATA packet with sequence number `s` and timestamp `t`. -/
def numbered (addr : ℕ) (s : BitVec 8) (t : BitVec 32) : PktPtr :=
  { addr := addr, pkt := { Pkt.new with type := ptypeData, seqnum := s, timestamp := htonl t } }

/-- A window of the sender that starts at `b` and holds packets `b` and `b + 1`. -/
def twoFrom (b : BitVec 8) : Window where
  maxSeqnum := 255
  capacity := 31
  size := 2
  pos := b.toNat
  bufsize := 2
  front := [numbered 1 (b + 1) 2, numbered 0 b 1]

theorem standard_twoFrom (b : BitVec 8) : (twoFrom b).Standard where
  maxSeqnum_eq := rfl
  capacity_eq := rfl
  bufsize_eq := rfl
  bufsize_le := show 2 ≤ 31 by decide
  size_le := show 2 ≤ 31 by decide
  pos_le := Nat.le_of_lt_succ b.isLt

/-- Packets 7 and 8 are acknowledged by number 9. -/
theorem ackExact_in_order :
    AckExact (twoFrom 7) { Pkt.new with type := ptypeAck, seqnum := 9, timestamp := htonl 2 } := by
  refine (ackExact_iff (standard_twoFrom 7) (by decide)).2 (.inl ⟨?_, ⟨_, .head _, ?_⟩, .inl ?_⟩)
  · decide
  · decide
  · decide

/-- Packets 254 and 255 are acknowledged by number 0, which is smaller: the ACK names packet 255 and
packet 254 stays. -/
theorem ackExact_fails_after_wrap :
    ∃ w ack, w.Standard ∧ (w.front.map PktPtr.seqnum).Nodup ∧
      (∀ p ∈ w.front, dist 256 w.start p.seqnum < 2) ∧ dist 256 w.start ack.getSeqnum.toNat ≤ 2 ∧
      ¬ AckExact w ack := by
  let ack : Pkt := { Pkt.new with type := ptypeAck, seqnum := 0, timestamp := htonl 2 }
  have hnodup : ((twoFrom 254).front.map PktPtr.seqnum).Nodup := by decide
  have horder : ¬ OrderAgrees (twoFrom 254) ack := by decide
  have hbelow : ¬ ∃ p ∈ (twoFrom 254).front,
      p.seqnum < ack.getSeqnum.toNat ∧ p.timestamp = ack.getTimestamp := by decide
  have hnamed : ∃ p ∈ (twoFrom 254).front, p.timestamp = ack.getTimestamp := by decide
  refine ⟨twoFrom 254, ack, standard_twoFrom 254, hnodup, by decide, by decide, fun hexact => ?_⟩
  have hexact' := (ackExact_iff_of_named (standard_twoFrom 254) (hnodup.of_map _) hbelow
    hnamed).1 hexact
  exact horder hexact'.1

end Sender

end LosslessTransport
