import LosslessTransport.Window.Spec
import LosslessTransport.Sender.Basic

/-!
# What the parts of the sender's iteration do

* `handleAck_eq` : an ACK removes the packets with smaller sequence numbers, and then, unless one
  of those had its timestamp, pops by timestamp (`acked`);
* `handleNack_cases`, `handleResponse_cases` : what becomes of the window;
* `retransmitExpired_induction` : the rule for the retransmission loop;
* `sendNew_spec` : the packet that is made of the next piece of the input;
* `mainLoop_cases` : how an iteration is put together.
-/

namespace LosslessTransport

/-- A DATA packet that was not truncated, with this sequence number and payload. -/
structure Pkt.Carries (p : Pkt) (seqnum : ℕ) (data : List Byte) : Prop where
  type : p.getType = ptypeData
  tr : p.getTr = 0
  seqnum : p.getSeqnum.toNat = seqnum
  length : p.getLength.toNat = data.length
  payload : p.payloadBytes = data
  length_le : data.length ≤ 512

theorem Pkt.Carries.type_ne {p : Pkt} {s : ℕ} {data : List Byte} (h : p.Carries s data) :
    p.getType ≠ 0 := by
  rw [h.type]
  decide

theorem Pkt.Carries.getLength_le {p : Pkt} {s : ℕ} {data : List Byte} (h : p.Carries s data) :
    p.getLength.toNat ≤ 512 := h.length ▸ h.length_le

theorem Pkt.Carries.seqnum_eq {p : PktPtr} {s : ℕ} {data : List Byte}
    (h : p.pkt.Carries s data) : p.seqnum = s := h.seqnum

theorem Pkt.Carries.of_agree {p q : Pkt} {s : ℕ} {data : List Byte} (h : p.Carries s data)
    (hq : q.Agree p) : q.Carries s data :=
  ⟨hq.type.trans h.type, hq.tr.trans h.tr, (congrArg BitVec.toNat hq.seqnum).trans h.seqnum,
    (congrArg BitVec.toNat hq.length).trans h.length, hq.payload.trans h.payload, h.length_le⟩

theorem Pkt.Carries.setTimestamp {p : PktPtr} {s : ℕ} {data : List Byte}
    (h : p.pkt.Carries s data) (t : BitVec 32) : (p.setTimestamp t).pkt.Carries s data :=
  ⟨h.type, h.tr, h.seqnum, h.length, h.payload, h.length_le⟩

namespace Sender

open Links

variable {crc32 : List Byte → BitVec 32} {w : Window}

/-! ### ACKs -/

/-- The window without the packets whose sequence number is below `a`. -/
def dropBelow (w : Window) (a : ℕ) : Window :=
  { w with
    front := w.front.filter fun p => a ≤ p.seqnum
    bufsize := (w.front.filter fun p => a ≤ p.seqnum).length }

/-- The window after `handle_ack`. -/
def acked (w : Window) (ack : Pkt) : Window :=
  let a := ack.getSeqnum.toNat
  let w' := { dropBelow w a with pos := a }
  if w.front.any fun p => p.seqnum < a ∧ p.timestamp = ack.getTimestamp then w'
  else (w'.popTimestamp ack.getTimestamp).2

theorem dropBelow_eq_self (h : w.Wf) {a : ℕ} (hall : ∀ p ∈ w.front, a ≤ p.seqnum) :
    dropBelow w a = w := by
  have hfilter : w.front.filter (fun p => a ≤ p.seqnum) = w.front :=
    List.filter_eq_self.2 fun p hp => decide_eq_true (hall p hp)
  rw [dropBelow, hfilter, ← h.bufsize_eq]

/-- The loop stops when no packet has a smaller sequence number. -/
theorem popAcked_of_le (h : w.Wf) {ack : Pkt}
    (hall : ∀ p ∈ w.front, ack.getSeqnum.toNat ≤ p.seqnum) (fuel : ℕ) (flag : Bool) :
    popAcked ack fuel w flag = .ok (dropBelow w ack.getSeqnum.toNat,
      flag || w.front.any fun p =>
        p.seqnum < ack.getSeqnum.toNat ∧ p.timestamp = ack.getTimestamp) := by
  have hany : (w.front.any fun p =>
      p.seqnum < ack.getSeqnum.toNat ∧ p.timestamp = ack.getTimestamp) = false := by
    rw [List.any_eq_false]
    intro p hp hlt
    exact Nat.not_lt.2 (hall p hp) (of_decide_eq_true hlt).1
  rw [popAcked.eq_def, dropBelow_eq_self h hall, hany, Bool.or_false]
  cases hpeek : w.peekMinSeqnum with
  | none => rfl
  | some m =>
    have hm : m ∈ w.front := List.mem_of_getElem? (Window.isFirstMin_of_peekMinSeqnum hpeek).get
    simp only [if_neg (Nat.not_lt.2 (hall m hm))]
    rfl

/-- One turn. -/
theorem popAcked_succ {ack : Pkt} {m : PktPtr} (hpeek : w.peekMinSeqnum = some m)
    (hlt : m.seqnum < ack.getSeqnum.toNat) (fuel : ℕ) (flag : Bool) :
    popAcked ack (fuel + 1) w flag = popAcked ack fuel
      { w with front := w.front.eraseIdx w.findMinSeqnum, bufsize := w.bufsize - 1 }
      (flag || decide (m.timestamp = ack.getTimestamp)) := by
  rw [popAcked]
  simp only [hpeek, if_pos hlt, Window.popMinSeqnum_of_peek hpeek, Option.map_some, ne_eq,
    not_true_eq_false, if_false]

/-- **The loop of `handle_ack`** removes the packets with smaller sequence numbers, and notes
whether one of them carries the timestamp. -/
theorem popAcked_eq (h : w.Wf) (ack : Pkt) {fuel : ℕ} (hfuel : w.front.length ≤ fuel)
    (flag : Bool) :
    popAcked ack fuel w flag = .ok (dropBelow w ack.getSeqnum.toNat,
      flag || w.front.any fun p =>
        p.seqnum < ack.getSeqnum.toNat ∧ p.timestamp = ack.getTimestamp) := by
  induction fuel generalizing w flag with
  | zero =>
    have hnil : w.front = [] := List.length_eq_zero_iff.1 (Nat.le_zero.1 hfuel)
    refine popAcked_of_le h (fun p hp => ?_) 0 flag
    rw [hnil] at hp
    cases hp
  | succ fuel ih =>
    by_cases hall : ∀ p ∈ w.front, ack.getSeqnum.toNat ≤ p.seqnum
    · exact popAcked_of_le h hall _ flag
    push Not at hall
    obtain ⟨m, hpeek, hlt⟩ := Window.exists_peekMinSeqnum_lt hall
    have hget := (Window.isFirstMin_of_peekMinSeqnum hpeek).get
    have hwf : w.popMinSeqnum.2.Wf := h.popNode _
    rw [Window.popMinSeqnum_of_peek hpeek] at hwf
    have hlen : (w.front.eraseIdx w.findMinSeqnum).length ≤ fuel := by
      have := length_eraseIdx_add_one hget
      omega
    have hfilter := filter_eraseIdx (p := fun p : PktPtr => ack.getSeqnum.toNat ≤ p.seqnum)
      hget (decide_eq_false (Nat.not_le.2 hlt))
    rw [popAcked_succ hpeek hlt, ih hwf hlen, any_eraseIdx _ hget]
    simp only [dropBelow, hfilter, hlt, true_and, Bool.or_assoc]

theorem standard_dropBelow (h : w.Standard) (a : ℕ) : (dropBelow w a).Standard := by
  have hle : (w.front.filter fun p => a ≤ p.seqnum).length ≤ w.capacity :=
    Nat.le_trans (List.length_filter_le _ _) (h.bufsize_eq ▸ h.bufsize_le)
  exact { h with bufsize_eq := rfl, bufsize_le := hle }

theorem slideTo_dropBelow (h : w.Standard) (ack : Pkt) :
    (dropBelow w ack.getSeqnum.toNat).slideTo ack.getSeqnum.toNat =
      some { dropBelow w ack.getSeqnum.toNat with pos := ack.getSeqnum.toNat } := by
  have hmax : (dropBelow w ack.getSeqnum.toNat).maxSeqnum = 255 := h.maxSeqnum_eq
  have hlt := ack.getSeqnum.isLt
  rw [Window.slideTo, if_pos (by omega)]

/-- **What `handle_ack` does.** -/
theorem handleAck_eq (h : w.Standard) (ack : Pkt) : handleAck w ack = .ok (acked w ack) := by
  have hslide := slideTo_dropBelow h ack
  simp only [handleAck, popAcked_eq h.toWf ack le_rfl, bind, Except.bind, hslide, Bool.false_or,
    acked]
  split_ifs <;> rfl

theorem standard_acked (h : w.Standard) (ack : Pkt) : (acked w ack).Standard := by
  have hslide := (standard_dropBelow h ack.getSeqnum.toNat).slideTo (slideTo_dropBelow h ack)
  unfold acked
  dsimp only
  split_ifs
  · exact hslide
  · exact hslide.popNode _

/-! ### Responses -/

/-- What `handle_nack` does to the packet that is named, if there is one. -/
theorem handleNack_named {nack : Pkt} {readings readings' : List ℕ} {w' : Window}
    {named : Option PktPtr}
    (hnamed : (if w.has nack.getSeqnum.toNat then w.findSeqnum nack.getSeqnum.toNat else none) =
      named) (h : handleNack w nack readings = .ok (w', readings')) :
    (named = none ∧ w' = w ∧ readings' = readings) ∨
      ∃ p now, named = some p ∧ readings = now :: readings' ∧
        w' = w.store (p.setTimestamp (BitVec.ofNat 32 now)) := by
  rw [handleNack] at h
  by_cases hhas : w.has nack.getSeqnum.toNat
  · rw [if_pos hhas] at hnamed
    rw [if_neg (not_not.2 hhas), hnamed] at h
    cases named with
    | none =>
      cases h
      exact .inl ⟨rfl, rfl, rfl⟩
    | some p =>
      cases readings with
      | nil => cases h
      | cons now readings =>
        cases h
        exact .inr ⟨p, now, rfl, rfl, rfl⟩
  · rw [if_neg hhas] at hnamed
    rw [if_pos hhas] at h
    cases h
    exact .inl ⟨hnamed.symm, rfl, rfl⟩

theorem handleNack_cases {nack : Pkt} {readings readings' : List ℕ} {w' : Window}
    (h : handleNack w nack readings = .ok (w', readings')) :
    (w' = w ∧ readings' = readings) ∨
      ∃ p ∈ w.front, ∃ now, readings = now :: readings' ∧
        w' = w.store (p.setTimestamp (BitVec.ofNat 32 now)) := by
  obtain ⟨-, hsame⟩ | ⟨p, now, hnamed, hnow, hw'⟩ := handleNack_named rfl h
  · exact .inl hsame
  · split_ifs at hnamed
    exact .inr ⟨p, (Window.mem_of_findSeqnum hnamed).1, now, hnow, hw'⟩

/-- The window is resized to the one advertised, which is never larger than the maximum. -/
theorem resizeTo_eq (h : w.Standard) (resp : Pkt) :
    resizeTo w resp = .ok { w with size := resp.getWindow.toNat } := by
  have hcap := h.capacity_eq
  have hlt := resp.getWindow.isLt
  have hmin : (if w.getMaxSize < resp.getWindow.toNat then w.getMaxSize
      else resp.getWindow.toNat) = resp.getWindow.toNat := if_neg (by
    rw [Window.getMaxSize, hcap]
    omega)
  have hsize : resp.getWindow.toNat ≤ w.capacity := by omega
  simp only [resizeTo, hmin, Window.resize_of_le hsize]
  rfl

section

variable {d : List Byte} {readings : List ℕ}

theorem handleResponse_of_not_received (h : received crc32 d = none) :
    handleResponse crc32 w d readings = .ok (some (w, readings)) := by
  obtain ⟨⟨err, resp⟩, hdec⟩ := Pkt.exists_decode crc32 (d.take maxPacketSize) Pkt.new
  have herr : err ≠ .ok := by
    rintro rfl
    simp only [received, hdec] at h
    cases h
  simp only [handleResponse, hdec, if_pos herr]
  rfl

/-- A DATA packet is ignored, and ends the iteration. -/
theorem handleResponse_of_data {p : Pkt} (h : received crc32 d = some p)
    (htype : p.getType = ptypeData) : handleResponse crc32 w d readings = .ok none := by
  simp only [handleResponse, decode_of_received h, ne_eq, not_true_eq_false, if_false,
    if_pos htype]
  rfl

/-- After an ACK the window is resized. -/
theorem handleResponse_of_ack (hw : w.Standard) {ack : Pkt} (h : received crc32 d = some ack)
    (htype : ack.getType = ptypeAck) :
    handleResponse crc32 w d readings =
      .ok (some ({ acked w ack with size := ack.getWindow.toNat }, readings)) := by
  have hdata : ack.getType ≠ ptypeData := htype.symm ▸ by decide
  simp only [handleResponse, decode_of_received h, ne_eq, not_true_eq_false, if_false,
    if_neg hdata, if_pos htype, handleAck_eq hw]
  change resizeTo (acked w ack) ack >>= _ = _
  rw [resizeTo_eq (standard_acked hw ack)]
  rfl

/-- So it is after a NACK. -/
theorem handleResponse_of_nack (hw : w.Standard) {nack : Pkt} (h : received crc32 d = some nack)
    (hdata : nack.getType ≠ ptypeData) (hack : nack.getType ≠ ptypeAck) :
    handleResponse crc32 w d readings = (handleNack w nack readings).map fun r =>
      some ({ r.1 with size := nack.getWindow.toNat }, r.2) := by
  simp only [handleResponse, decode_of_received h, ne_eq, not_true_eq_false, if_false,
    if_neg hdata, if_neg hack]
  cases hnack : handleNack w nack readings with
  | error e => rfl
  | ok r =>
    have hstd : r.1.Standard := by
      rcases handleNack_cases hnack with ⟨heq, -⟩ | ⟨p, -, now, -, heq⟩
      · exact heq ▸ hw
      · exact heq ▸ hw.store _
    change resizeTo r.1 nack >>= _ = _
    rw [resizeTo_eq hstd]
    rfl

/-- What the handling of a datagram does to the window. -/
theorem handleResponse_cases (hw : w.Standard) {r : Option (Window × List ℕ)}
    (h : handleResponse crc32 w d readings = .ok r) :
    (received crc32 d = none ∧ r = some (w, readings)) ∨
    (∃ p, received crc32 d = some p ∧ p.getType = ptypeData ∧ r = none) ∨
    (∃ ack, received crc32 d = some ack ∧ ack.getType = ptypeAck ∧
      r = some ({ acked w ack with size := ack.getWindow.toNat }, readings)) ∨
    ∃ nack, received crc32 d = some nack ∧ nack.getType ≠ ptypeData ∧ nack.getType ≠ ptypeAck ∧
      ∃ w' readings', handleNack w nack readings = .ok (w', readings') ∧
        r = some ({ w' with size := nack.getWindow.toNat }, readings') := by
  cases hrec : received crc32 d with
  | none =>
    rw [handleResponse_of_not_received hrec] at h
    cases h
    exact .inl ⟨rfl, rfl⟩
  | some resp =>
    by_cases hdata : resp.getType = ptypeData
    · rw [handleResponse_of_data hrec hdata] at h
      cases h
      exact .inr (.inl ⟨resp, rfl, hdata, rfl⟩)
    by_cases hack : resp.getType = ptypeAck
    · rw [handleResponse_of_ack hw hrec hack] at h
      cases h
      exact .inr (.inr (.inl ⟨resp, rfl, hack, rfl⟩))
    · rw [handleResponse_of_nack hw hrec hdata hack] at h
      obtain ⟨⟨w', readings'⟩, hnack, rfl⟩ := map_eq_ok.1 h
      exact .inr (.inr (.inr ⟨resp, rfl, hdata, hack, w', readings', hnack, rfl⟩))

end

/-! ### Retransmission -/

/-- The packets of the buffer are distinct and can be encoded. -/
structure Sendable (w : Window) : Prop where
  type_ne : ∀ p ∈ w.front, p.pkt.getType ≠ 0
  length_le : ∀ p ∈ w.front, p.pkt.getLength.toNat ≤ 512

theorem Sendable.store (h : Sendable w) {p : PktPtr} (hp : p ∈ w.front) (t : BitVec 32) :
    Sendable (w.store (p.setTimestamp t)) := by
  constructor
  · intro q hq
    rcases Window.mem_store hq with rfl | ⟨hq, -⟩
    · exact h.type_ne p hp
    · exact h.type_ne q hq
  · intro q hq
    rcases Window.mem_store hq with rfl | ⟨hq, -⟩
    · exact h.length_le p hp
    · exact h.length_le q hq

/-- One turn of the loop. -/
theorem retransmitExpired_cons (h : Sendable w) {loopNow : BitVec 32} {p : PktPtr}
    (hpeek : w.peekMinTimestamp = some p) (hle : p.timestamp ≤ loopNow) (now : ℕ)
    (readings : List ℕ) :
    let p' := p.setTimestamp (BitVec.ofNat 32 now + timer)
    retransmitExpired crc32 loopNow (now :: readings) w =
      (retransmitExpired crc32 loopNow readings (w.store p')).map fun r =>
        (r.1, ⟨p', (p'.pkt.sealed crc32).image⟩ :: r.2.1, r.2.2) := by
  intro p'
  have hp : p ∈ w.front := Window.mem_of_peekMinTimestamp hpeek
  have hupdate := Window.updateTimestamp_of_peek hpeek (BitVec.ofNat 32 now + timer)
  have haddr : p'.addr = p.addr := PktPtr.addr_setTimestamp p _
  have hderef : (w.store p').deref p = p' := Window.deref_store hp haddr
  have hsend : sendPacket crc32 p'.pkt = .ok (p'.pkt.sealed crc32).image :=
    sendPacket_eq crc32 ((h.store hp _).type_ne p' (Window.mem_store_self hp haddr))
      ((h.store hp _).length_le p' (Window.mem_store_self hp haddr))
  rw [retransmitExpired]
  simp only [hpeek, if_pos hle, hupdate, bind, Except.bind]
  rw [hderef, hsend]
  dsimp only
  cases retransmitExpired crc32 loopNow readings (w.store p') <;> rfl

variable (crc32) in
/-- The loop stops when no timer has expired. -/
theorem retransmitExpired_of_late {loopNow : BitVec 32}
    (h : ∀ p ∈ w.front, ¬ p.timestamp ≤ loopNow) (readings : List ℕ) :
    retransmitExpired crc32 loopNow readings w = .ok (w, [], readings) := by
  rw [retransmitExpired.eq_def]
  cases hp : w.peekMinTimestamp with
  | none => rfl
  | some p =>
    simp only [if_neg (h p (Window.mem_of_peekMinTimestamp hp))]
    rfl

variable (crc32) in
/-- It waits for the clock when there is no reading left for the packet that has expired. -/
theorem retransmitExpired_nil {loopNow : BitVec 32} {p : PktPtr}
    (hpeek : w.peekMinTimestamp = some p) (hle : p.timestamp ≤ loopNow) :
    retransmitExpired crc32 loopNow [] w = .error .blocked := by
  rw [retransmitExpired.eq_def]
  simp only [hpeek, if_pos hle]
  rfl

/-- **The rule for the retransmission loop.** -/
theorem retransmitExpired_induction {loopNow : BitVec 32}
    {motive : List ℕ → Window → Window × List Sent × List ℕ → Prop}
    (stop : ∀ readings w, (∀ p ∈ w.front, ¬ p.timestamp ≤ loopNow) →
      motive readings w (w, [], readings))
    (turn : ∀ now readings w p q r, p ∈ w.front → p.timestamp ≤ loopNow →
      q = p.setTimestamp (BitVec.ofNat 32 now + timer) → motive readings (w.store q) r →
      motive (now :: readings) w (r.1, ⟨q, (q.pkt.sealed crc32).image⟩ :: r.2.1, r.2.2))
    {readings : List ℕ} {r : Window × List Sent × List ℕ} (h : Sendable w)
    (hr : retransmitExpired crc32 loopNow readings w = .ok r) : motive readings w r := by
  induction readings generalizing w r with
  | nil =>
    rcases Window.late_or_peekMinTimestamp_le w loopNow with hlate | ⟨p, hpeek, hle⟩
    · rw [retransmitExpired_of_late crc32 hlate] at hr
      cases hr
      exact stop [] w hlate
    · rw [retransmitExpired_nil crc32 hpeek hle] at hr
      cases hr
  | cons now readings ih =>
    rcases Window.late_or_peekMinTimestamp_le w loopNow with hlate | ⟨p, hpeek, hle⟩
    · rw [retransmitExpired_of_late crc32 hlate] at hr
      cases hr
      exact stop _ w hlate
    · have hp := Window.mem_of_peekMinTimestamp hpeek
      rw [retransmitExpired_cons h hpeek hle] at hr
      obtain ⟨r', hrec, rfl⟩ := map_eq_ok.1 hr
      exact turn now readings w p _ r' hp hle rfl (ih (h.store hp _) hrec)

/-! ### A new packet -/

theorem State.length_data_le (st : State) : st.data.length ≤ 512 := by
  unfold State.data
  split
  · simp
  · rename_i chunk _ _
    exact chunk.length_le

/-- The setter calls that make a DATA packet. -/
theorem exists_carries {data : List Byte} (hlen : data.length ≤ 512) (next : ℕ) (t : BitVec 32) :
    ∃ p, Pkt.setPayload
        { Pkt.new with
          type := ptypeData
          seqnum := BitVec.ofNat 8 next
          window := 0
          timestamp := htonl t }
        (some (data ++ List.replicate (maxPayloadSize - data.length) 0))
        (BitVec.ofNat 16 data.length) = some (.ok, p) ∧
      p.Carries (next % 256) data ∧ p.getTimestamp = t := by
  have hnat : (BitVec.ofNat 16 data.length).toNat = data.length := by
    rw [BitVec.toNat_ofNat, Nat.mod_eq_of_lt (by omega)]
  have hread : CMem.readAt (data ++ List.replicate (maxPayloadSize - data.length) 0) 0
      (BitVec.ofNat 16 data.length).toNat = some data := by
    rw [hnat, CMem.readAt_of_le (by simp)]
    simp
  have hlen' : ¬ maxPayloadSize < (BitVec.ofNat 16 data.length).toNat := by
    rw [hnat, maxPayloadSize_eq]
    omega
  obtain ⟨payload, hwrite, hcells⟩ := CMem.Block.write_of_le
    (Pkt.new.payload.fillFrom (BitVec.ofNat 16 data.length).toNat 0 (Nat.le_of_not_lt hlen'))
    0 data (by simpa using hlen)
  refine ⟨{ Pkt.new with
    type := ptypeData
    seqnum := BitVec.ofNat 8 next
    window := 0
    timestamp := htonl t
    length := htons (BitVec.ofNat 16 data.length)
    payload := payload }, ?_, ⟨rfl, rfl, BitVec.toNat_ofNat .., ?_, ?_, hlen⟩, ntohl_htonl t⟩
  · have hset : ∀ p : Pkt, p.setLength (BitVec.ofNat 16 data.length) = (.ok, { p with
        payload := p.payload.fillFrom (BitVec.ofNat 16 data.length).toNat 0 (Nat.le_of_not_lt hlen')
        length := htons (BitVec.ofNat 16 data.length) }) := fun p => dif_neg hlen'
    simp only [Pkt.setPayload, reduceCtorEq, if_false, hset, ne_eq, not_true_eq_false,
      Option.getD_some, hread, hwrite, Option.bind_eq_bind, Option.bind_some]
  · change (ntohs (htons (BitVec.ofNat 16 data.length))).toNat = _
    rw [ntohs_htons, hnat]
  · change payload.cells.take (ntohs (htons (BitVec.ofNat 16 data.length))).toNat = _
    rw [ntohs_htons, hnat, hcells]
    simp

variable {st st' : State} {readings rest : List ℕ}

/-- The state once packet `p` has been sent and buffered. -/
def State.added (st : State) (p : Pkt) : State :=
  { w := { st.w with
      front := { addr := st.allocs, pkt := p } :: st.w.front
      bufsize := st.w.bufsize + 1 }
    next := (st.next + 1) % 256
    sentEof := st.sentEof || decide (st.data.length = 0)
    infile := st.infile.tail
    allocs := st.allocs + 1 }

variable (crc32) in
/-- A window that is not full takes the packet made of the next piece of the input. -/
theorem sendNew_eq (hfull : st.w.full = false) (now : ℕ) (rest : List ℕ) :
    ∃ p, p.Carries (st.next % 256) st.data ∧ p.getTimestamp = BitVec.ofNat 32 now + timer ∧
      sendNew crc32 st (now :: rest) =
        .ok (st.added p, ⟨{ addr := st.allocs, pkt := p }, (p.sealed crc32).image⟩, rest) := by
  obtain ⟨p, hset, hp, ht⟩ :=
    exists_carries st.length_data_le st.next (BitVec.ofNat 32 now + timer)
  have hsend := sendPacket_eq crc32 hp.type_ne hp.getLength_le
  have hpush := Window.push_of_not_full { addr := st.allocs, pkt := p } hfull
  refine ⟨p, hp, ht, ?_⟩
  have htype := Pkt.new.setType_of_ne (t := ptypeData) (by decide)
  have hwindow : ∀ p : Pkt, p.setWindow 0 = (.ok, { p with window := 0 }) := fun _ => rfl
  have hok : ∀ q : Pkt, checked (PktStatusCode.ok, q) = .ok q := fun _ => rfl
  dsimp only at hset
  simp only [sendNew, htype, hwindow, Pkt.setSeqnum, Pkt.setTimestamp, hok,
    getMonotime, bind, Except.bind, pure, Except.pure, hset, hsend, hpush]
  rfl

/-- **What the end of the iteration does**: the next piece of the input is sent and buffered. -/
theorem sendNew_spec (hfull : st.w.full = false) {new : Sent}
    (h : sendNew crc32 st readings = .ok (st', new, rest)) :
    ∃ now p, readings = now :: rest ∧ p.Carries (st.next % 256) st.data ∧
      p.getTimestamp = BitVec.ofNat 32 now + timer ∧ st' = st.added p ∧
      new = ⟨{ addr := st.allocs, pkt := p }, (p.sealed crc32).image⟩ := by
  cases readings with
  | nil => cases h
  | cons now readings =>
    obtain ⟨p, hp, ht, hnew⟩ := sendNew_eq crc32 hfull now readings
    rw [hnew] at h
    cases h
    exact ⟨now, p, rfl, hp, ht, rfl, rfl⟩

/-! ### The iteration -/

/-- The loop ends once the last packet has been made and the buffer is empty. -/
theorem running_eq_false_iff (hw : st.w.Wf) :
    st.running = false ↔ st.sentEof = true ∧ st.w.front = [] := by
  rw [State.running, Bool.or_eq_false_iff, Bool.not_eq_false', Bool.not_eq_false',
    Window.empty_iff hw]

theorem getTimeout_cases {t : BitVec 32} (h : getTimeout st readings = .ok (t, rest)) :
    rest = readings ∨ ∃ now, readings = now :: rest := by
  unfold getTimeout at h
  split_ifs at h
  · cases hp : st.w.peekMinTimestamp with
    | none =>
      rw [hp] at h
      cases h
    | some p =>
      rw [hp] at h
      cases readings with
      | nil => cases h
      | cons now readings =>
        cases h
        exact .inr ⟨now, rfl⟩
  · cases h
    exact .inl rfl

theorem await_cases {ready : Option (List Byte)} (h : await ready readings st = .ok rest) :
    rest = readings ∨ ∃ now, readings = now :: rest := by
  rw [await] at h
  by_cases hwait : (!st.sentEof && st.w.bufferSize = 0 && st.w.getSize = 0) = true
  · rw [if_pos hwait] at h
    split_ifs at h
    cases h
    exact .inl rfl
  · rw [if_neg hwait] at h
    obtain ⟨⟨t, readings'⟩, ht, hret⟩ := bind_eq_ok.1 h
    cases hret
    exact getTimeout_cases ht

/-- **How an iteration is put together**, once `select` has come back. -/
theorem mainLoop_cases_of_await {ready : Option (List Byte)} {sent : List Sent}
    {readings₀ : List ℕ} (hwait : await ready readings st = .ok readings₀)
    (h : mainLoop crc32 ready readings st = .ok (st', sent, rest)) :
    (receive crc32 st.w ready readings₀ = .ok none ∧ st' = st ∧ sent = [] ∧ rest = readings₀) ∨
      ∃ w₁ loopNow readings₁ w₂ sent₂ readings₂,
        receive crc32 st.w ready readings₀ = .ok (some (w₁, loopNow :: readings₁)) ∧
        retransmitExpired crc32 (BitVec.ofNat 32 loopNow) readings₁ w₁ =
          .ok (w₂, sent₂, readings₂) ∧
        ((w₂.full = false ∧ st.sentEof = false ∧ ∃ new,
            sendNew crc32 { st with w := w₂ } readings₂ = .ok (st', new, rest) ∧
            sent = sent₂ ++ [new]) ∨
          ((w₂.full = true ∨ st.sentEof = true) ∧ st' = { st with w := w₂ } ∧
            sent = sent₂ ∧ rest = readings₂)) := by
  obtain ⟨_, hwait', h₀⟩ := bind_eq_ok.1 h
  rw [hwait] at hwait'
  cases hwait'
  obtain ⟨r, hreceive, h₁⟩ := bind_eq_ok.1 h₀
  match r with
  | none =>
    cases h₁
    exact .inl ⟨hreceive, rfl, rfl, rfl⟩
  | some (w₁, []) => cases h₁
  | some (w₁, loopNow :: readings₁) =>
    obtain ⟨⟨w₂, sent₂, readings₂⟩, hretr, h₂⟩ := bind_eq_ok.1 h₁
    refine .inr ⟨w₁, loopNow, readings₁, w₂, sent₂, readings₂, hreceive, hretr, ?_⟩
    dsimp only at h₂
    by_cases hnew : ¬ w₂.full ∧ ¬ st.sentEof
    · rw [if_pos hnew] at h₂
      obtain ⟨⟨st'', new, readings₃⟩, hsend, h₃⟩ := bind_eq_ok.1 h₂
      cases h₃
      exact .inl ⟨by simpa using hnew.1, by simpa using hnew.2, new, hsend, rfl⟩
    · rw [if_neg hnew] at h₂
      cases h₂
      refine .inr ⟨?_, rfl, rfl, rfl⟩
      by_contra hn
      exact hnew ⟨fun hf => hn (.inl hf), fun he => hn (.inr he)⟩

theorem mainLoop_cases {ready : Option (List Byte)} {sent : List Sent}
    (h : mainLoop crc32 ready readings st = .ok (st', sent, rest)) :
    ∃ readings₀, (readings₀ = readings ∨ ∃ now, readings = now :: readings₀) ∧
      ((receive crc32 st.w ready readings₀ = .ok none ∧ st' = st ∧ sent = [] ∧ rest = readings₀) ∨
      ∃ w₁ loopNow readings₁ w₂ sent₂ readings₂,
        receive crc32 st.w ready readings₀ = .ok (some (w₁, loopNow :: readings₁)) ∧
        retransmitExpired crc32 (BitVec.ofNat 32 loopNow) readings₁ w₁ =
          .ok (w₂, sent₂, readings₂) ∧
        ((w₂.full = false ∧ st.sentEof = false ∧ ∃ new,
            sendNew crc32 { st with w := w₂ } readings₂ = .ok (st', new, rest) ∧
            sent = sent₂ ++ [new]) ∨
          ((w₂.full = true ∨ st.sentEof = true) ∧ st' = { st with w := w₂ } ∧
            sent = sent₂ ∧ rest = readings₂))) := by
  obtain ⟨readings₀, hwait, -⟩ := bind_eq_ok.1 h
  exact ⟨readings₀, await_cases hwait, mainLoop_cases_of_await hwait h⟩

end Sender

end LosslessTransport
