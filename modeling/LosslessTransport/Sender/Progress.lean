import LosslessTransport.Sender.Invariant

/-!
# Iterations of the sender that come back

The converse of the case lemmas: what the parts of an iteration return when nothing stands in the
way, and the iteration put together (`mainLoop_eq`).
-/

namespace LosslessTransport

namespace Sender

variable {crc32 : List Byte → BitVec 32} {w w₁ w₂ : Window} {st : State}
  {ready : Option (List Byte)}

/-- The sender waits for a reply or for a timer, and needs no clock, when it has room. -/
theorem await_eq (hfull : st.w.full = false) (heof : st.sentEof = false)
    (hsize : st.w.size ≠ 0) (readings : List ℕ) : await ready readings st = .ok readings := by
  have hwait : (!st.sentEof && st.w.bufferSize = 0 && st.w.getSize = 0) = false := by
    simp [Window.getSize, hsize]
  have htimeout : getTimeout st readings = .ok (0, readings) := by
    rw [getTimeout, hfull, heof]
    rfl
  rw [await, hwait, htimeout]
  rfl

/-- With a full window it reads the clock to wait for the closest timer. -/
theorem await_of_full (hw : st.w.Standard) (hfull : st.w.full = true) (hne : st.w.front ≠ [])
    (now : ℕ) (readings : List ℕ) : await ready (now :: readings) st = .ok readings := by
  have hbufsize : st.w.bufsize ≠ 0 := by
    rw [hw.bufsize_eq]
    exact List.length_pos_iff.2 hne |>.ne'
  have hwait : (!st.sentEof && st.w.bufferSize = 0 && st.w.getSize = 0) = false := by
    simp [Window.bufferSize, hbufsize]
  have hempty : st.w.empty = false :=
    Bool.eq_false_iff.2 fun hempty => hne ((Window.empty_iff hw.toWf).1 hempty)
  cases hp : st.w.peekMinTimestamp with
  | none => exact absurd (Window.peekMinTimestamp_eq_none_iff.1 hp) hne
  | some p =>
    rw [await, hwait, getTimeout, hfull, hempty, hp]
    rfl

/-- An ACK is handled, and the window resized. -/
theorem receive_ack (hw : w.Standard) {d : List Byte} {ack : Pkt}
    (hrec : received crc32 d = some ack) (htype : ack.getType = ptypeAck) (readings : List ℕ) :
    receive crc32 w (some d) readings =
      .ok (some ({ acked w ack with size := ack.getWindow.toNat }, readings)) :=
  handleResponse_of_ack hw hrec htype

/-- A NACK within the window stamps the packet it names with the current time. -/
theorem receive_nack (hw : w.Standard) {d : List Byte} {nack : Pkt} {p : PktPtr}
    (hrec : received crc32 d = some nack)
    (htype : nack.getType = ptypeNack) (hhas : w.has nack.getSeqnum.toNat)
    (hfind : w.findSeqnum nack.getSeqnum.toNat = some p) (now : ℕ) (readings : List ℕ) :
    receive crc32 w (some d) (now :: readings) =
      .ok (some ({ w.store (p.setTimestamp (BitVec.ofNat 32 now)) with
        size := nack.getWindow.toNat }, readings)) := by
  have hdata : nack.getType ≠ ptypeData := htype.symm ▸ by decide
  have hack : nack.getType ≠ ptypeAck := htype.symm ▸ by decide
  rw [receive, handleResponse_of_nack hw hrec hdata hack, handleNack, if_neg (not_not.2 hhas),
    hfind]
  rfl

variable (crc32) in
/-- The only packet of the buffer is retransmitted, once. -/
theorem retransmitExpired_single {q q' : PktPtr} (hfront : w.front = [q])
    (htype : q.pkt.getType ≠ 0) (hlen : q.pkt.getLength.toNat ≤ 512) {loopNow : BitVec 32}
    (hexpired : q.timestamp ≤ loopNow)
    {now : ℕ} (hq' : q' = q.setTimestamp (BitVec.ofNat 32 now + timer))
    (hlate : ¬ q'.timestamp ≤ loopNow) (readings : List ℕ) :
    retransmitExpired crc32 loopNow (now :: readings) w =
        .ok (w.store q', [⟨q', (q'.pkt.sealed crc32).image⟩], readings) ∧
      (w.store q').front = [q'] := by
  have hsendable : Sendable w := ⟨hfront.symm ▸ List.forall_mem_singleton.2 htype,
    hfront.symm ▸ List.forall_mem_singleton.2 hlen⟩
  have hpeek : w.peekMinTimestamp = some q := by
    cases hx : w.peekMinTimestamp with
    | none =>
      rw [Window.peekMinTimestamp_eq_none_iff, hfront] at hx
      cases hx
    | some x =>
      have hmem := Window.mem_of_peekMinTimestamp hx
      rw [hfront] at hmem
      rw [List.mem_singleton.1 hmem]
  have haddr : q.addr = q'.addr := hq' ▸ (PktPtr.addr_setTimestamp q _).symm
  have hstore : (w.store q').front = [q'] := by
    rw [Window.store, hfront, List.map_singleton, if_pos haddr]
  refine ⟨?_, hstore⟩
  rw [retransmitExpired_cons hsendable hpeek hexpired, ← hq', retransmitExpired_of_late]
  · rfl
  · rw [hstore]
    exact List.forall_mem_singleton.2 hlate

/-- **An iteration that makes a new packet.** -/
theorem mainLoop_eq {readings readings₀ readings₁ rest : List ℕ} {loopNow now : ℕ}
    {sent : List Sent} (hwait : await ready readings st = .ok readings₀)
    (hreceive : receive crc32 st.w ready readings₀ = .ok (some (w₁, loopNow :: readings₁)))
    (hretr : retransmitExpired crc32 (BitVec.ofNat 32 loopNow) readings₁ w₁ =
      .ok (w₂, sent, now :: rest))
    (hfull : w₂.full = false) (heof : st.sentEof = false) :
    ∃ p, p.Carries (st.next % 256) st.data ∧ p.getTimestamp = BitVec.ofNat 32 now + timer ∧
      mainLoop crc32 ready readings st = .ok (({ st with w := w₂ }).added p,
        sent ++ [⟨{ addr := st.allocs, pkt := p }, (p.sealed crc32).image⟩], rest) := by
  have hfull' : ({ st with w := w₂ } : State).w.full = false := hfull
  obtain ⟨p, hp, ht, hnew⟩ := sendNew_eq crc32 hfull' now rest
  refine ⟨p, hp, ht, ?_⟩
  have hretr' : retransmitPackets crc32 w₁ (loopNow :: readings₁) = .ok (w₂, sent, now :: rest) :=
    hretr
  have hcond : ¬ w₂.full = true ∧ ¬ st.sentEof = true := by simp [hfull, heof]
  simp only [mainLoop, hwait, hreceive, hretr', bind, Except.bind, if_pos hcond, hnew]
  rfl

/-- An ACK removes the first packet of the buffer, when that carries its timestamp and the others
have no smaller sequence number. -/
theorem front_acked {p : PktPtr} {stale : List PktPtr} (hfront : w.front = p :: stale) {ack : Pkt}
    (hts : p.timestamp = ack.getTimestamp)
    (hstale : ∀ q ∈ stale, ack.getSeqnum.toNat ≤ q.seqnum) : (acked w ack).front = stale := by
  have hkeep : stale.filter (fun q => ack.getSeqnum.toNat ≤ q.seqnum) = stale :=
    List.filter_eq_self.2 fun q hq => decide_eq_true (hstale q hq)
  unfold acked dropBelow
  dsimp only
  by_cases hlt : p.seqnum < ack.getSeqnum.toNat
  · rw [if_pos (List.any_eq_true.2 ⟨p, hfront ▸ List.mem_cons_self .., decide_eq_true ⟨hlt, hts⟩⟩)]
    rw [hfront, List.filter_cons_of_neg (by simpa using hlt), hkeep]
  · have hany : ¬ (w.front.any fun q =>
        q.seqnum < ack.getSeqnum.toNat ∧ q.timestamp = ack.getTimestamp) = true := by
      rw [List.any_eq_true]
      rintro ⟨q, hq, hqa⟩
      have hqlt := (of_decide_eq_true hqa).1
      rw [hfront] at hq
      rcases List.mem_cons.1 hq with rfl | hq
      · exact hlt hqlt
      · exact Nat.not_lt.2 (hstale q hq) hqlt
    rw [if_neg hany, hfront, List.filter_cons_of_pos (by simpa using hlt), hkeep]
    simp [Window.popTimestamp, Window.popNode, List.findIdx?_cons, hts]

/-- An ACK whose timestamp no packet carries removes, after those with smaller sequence numbers, the
first packet of the buffer. -/
theorem front_acked_of_miss {r : PktPtr} {rest : List PktPtr} {ack : Pkt}
    (hts : ∀ q ∈ w.front, q.timestamp ≠ ack.getTimestamp)
    (hrest : w.front.filter (fun q => ack.getSeqnum.toNat ≤ q.seqnum) = r :: rest) :
    (acked w ack).front = rest := by
  have hany : ¬ (w.front.any fun q =>
      q.seqnum < ack.getSeqnum.toNat ∧ q.timestamp = ack.getTimestamp) = true := by
    rw [List.any_eq_true]
    rintro ⟨q, hq, hqa⟩
    exact hts q hq (of_decide_eq_true hqa).2
  have hmiss : ∀ q ∈ r :: rest, q.timestamp ≠ ack.getTimestamp := fun q hq =>
    hts q (List.mem_of_mem_filter (hrest ▸ hq))
  unfold acked dropBelow
  dsimp only
  rw [if_neg hany, hrest, Window.popTimestamp_of_not_mem hmiss]
  rfl

end Sender

end LosslessTransport
