import LosslessTransport.Sender.Expiry
import LosslessTransport.Sender.Progress

/-!
# What a NACK makes the sender do

`handle_nack` stamps the packet that the NACK names with the current time, so that it comes before
`loop_now` and `retransmit_packets` takes it.  For any other packet an iteration does the same with
the NACK and without it (`Sender.Treated`): the packet is sent when its timer has expired at
`loop_now`, and is left alone otherwise.
-/

namespace LosslessTransport

open Links

namespace Sender

/-- The datagrams of packet `q`. -/
def sentOf (sent : List Sent) (q : PktPtr) : List Sent :=
  sent.filter fun d => d.pkt.addr = q.addr

/-- Packet `q` is sent once and stays in the buffer; it has one of these readings, plus `TIMER`, for
its timestamp, and is otherwise as it was. -/
def SentOnce (crc32 : List Byte → BitVec 32) (readings : List ℕ) (w' : Window) (sent : List Sent)
    (q : PktPtr) : Prop :=
  ∃ now ∈ readings, ∃ q', q' = q.setTimestamp (BitVec.ofNat 32 now + timer) ∧ q' ∈ w'.front ∧
    sentOf sent q = [⟨q', (q'.pkt.sealed crc32).image⟩]

/-- Packet `q` is not sent, and stays in the buffer as it is. -/
def LeftAlone (w' : Window) (sent : List Sent) (q : PktPtr) : Prop :=
  q ∈ w'.front ∧ sentOf sent q = []

/-- What an iteration that reads `loopNow` does about a packet that no response is about. -/
def Treated (crc32 : List Byte → BitVec 32) (loopNow : BitVec 32) (readings : List ℕ)
    (w' : Window) (sent : List Sent) (q : PktPtr) : Prop :=
  if q.timestamp ≤ loopNow then SentOnce crc32 readings w' sent q else LeftAlone w' sent q

/-- The 32-bit clock does not wrap between these readings, nor in the timestamps made of them. -/
def Unwrapped (loopNow : ℕ) (readings : List ℕ) : Prop :=
  ∀ now ∈ readings, loopNow % 2 ^ 32 < (now + timer.toNat) % 2 ^ 32

instance (loopNow : ℕ) (readings : List ℕ) : Decidable (Unwrapped loopNow readings) :=
  inferInstanceAs (Decidable (∀ now ∈ readings, _))

variable (crc32 : List Byte → BitVec 32)

/-- The iteration that hears `d` reads the clock for `p`, sends it once, and treats the others as if
it had heard nothing; it comes back when there are readings enough. -/
def Resends (st : State) (d : List Byte) (p : PktPtr) : Prop :=
  ∀ readings now loopNow later,
    await (some d) readings st = .ok (now :: loopNow :: later) →
    now % 2 ^ 32 ≤ loopNow % 2 ^ 32 → Unwrapped loopNow later →
    (st.w.front.length < later.length → ∃ r, mainLoop crc32 (some d) readings st = .ok r) ∧
    ∀ st' sent rest, mainLoop crc32 (some d) readings st = .ok (st', sent, rest) →
      SentOnce crc32 later st'.w sent p ∧
      ∀ q ∈ st.w.front, q.addr ≠ p.addr →
        Treated crc32 (BitVec.ofNat 32 loopNow) later st'.w sent q

/-- What an iteration does that hears nothing, or nothing about a packet. -/
def TreatsAll (ready : Option (List Byte)) (st : State) : Prop :=
  ∀ readings loopNow later, await ready readings st = .ok (loopNow :: later) →
    Unwrapped loopNow later →
    ∀ st' sent rest, mainLoop crc32 ready readings st = .ok (st', sent, rest) →
      ∀ q ∈ st.w.front, Treated crc32 (BitVec.ofNat 32 loopNow) later st'.w sent q

variable {crc32} {input : List Chunk} {n : ℕ} {w w₁ w' : Window}
  {loopNow : BitVec 32} {readings : List ℕ} {sent : List Sent} {p q : PktPtr}

theorem Unwrapped.late {loopNow : ℕ} (h : Unwrapped loopNow readings) :
    ∀ now ∈ readings, ¬ BitVec.ofNat 32 now + timer ≤ BitVec.ofNat 32 loopNow :=
  fun now hnow => (not_le_iff_wrapped loopNow now).2 (h now hnow)

/-! ### The retransmissions -/

/-- A packet whose timer has expired is sent once. -/
theorem Resent.sentOnce (h : Buffered input n w)
    (hsent : Resent crc32 loopNow readings w w' sent) (hq : q ∈ expired w loopNow) :
    SentOnce crc32 readings w' sent q := by
  have hnodup : (sent.map fun d => d.pkt.addr).Nodup := by
    refine hsent.once.nodup_iff.2 (List.Nodup.map_on ?_ (h.nodup.filter _))
    intro x hx y hy heq
    exact h.inj (mem_expired.1 hx).1 (mem_expired.1 hy).1 heq
  obtain ⟨d, hd, hdq⟩ := List.mem_map.1 (hsent.once.mem_iff.2 (List.mem_map_of_mem hq))
  obtain ⟨hbytes, hmem, x, hx, hdx⟩ := hsent.made d hd
  obtain rfl : x = q := by
    refine h.inj hx (mem_expired.1 hq).1 ?_
    rw [← hdq, hdx, PktPtr.addr_setTimestamp]
  obtain ⟨now, hnow, htime⟩ : ∃ now ∈ readings, BitVec.ofNat 32 now + timer = d.pkt.timestamp := by
    have hstamp := List.mem_map_of_mem (f := fun d : Sent => d.pkt.timestamp) hd
    rw [hsent.stamped] at hstamp
    exact List.mem_map.1 hstamp
  refine ⟨now, hnow, d.pkt, htime ▸ hdx, hmem, ?_⟩
  have honly := filter_eq_singleton hnodup hd
  rw [hdq] at honly
  rw [sentOf, honly, ← hbytes]

/-- The others are left alone. -/
theorem Resent.leftAlone (h : Buffered input n w)
    (hsent : Resent crc32 loopNow readings w w' sent) (hq : q ∈ w.front)
    (hahead : ¬ q.timestamp ≤ loopNow) : LeftAlone w' sent q := by
  have hnot : q.addr ∉ sent.map fun d => d.pkt.addr := by
    intro hmem
    obtain ⟨x, hx, hxq⟩ := List.mem_map.1 (hsent.once.mem_iff.1 hmem)
    obtain ⟨hx, hxle⟩ := mem_expired.1 hx
    rw [h.inj hx hq hxq] at hxle
    exact hahead hxle
  constructor
  · rw [hsent.kept]
    exact List.mem_map.2 ⟨q, hq, resent_of_not_mem hnot⟩
  · refine List.filter_eq_nil_iff.2 fun d hd heq => hnot ?_
    exact List.mem_map.2 ⟨d, hd, of_decide_eq_true heq⟩

theorem Resent.treated (h : Buffered input n w)
    (hsent : Resent crc32 loopNow readings w w' sent) (hq : q ∈ w.front) :
    Treated crc32 loopNow readings w' sent q := by
  unfold Treated
  split_ifs with hle
  · exact hsent.sentOnce h (mem_expired.2 ⟨hq, hle⟩)
  · exact hsent.leftAlone h hq hle

/-! ### The iteration -/

theorem SentOnce.mono {later : List ℕ} {w'' : Window} {sent' : List Sent}
    (h : SentOnce crc32 readings w' sent q) (hreadings : readings ⊆ later)
    (hfront : w'.front ⊆ w''.front) (hsent : sentOf sent' q = sentOf sent q) :
    SentOnce crc32 later w'' sent' q := by
  obtain ⟨now, hnow, q', hq', hmem, honly⟩ := h
  exact ⟨now, hreadings hnow, q', hq', hfront hmem, hsent.trans honly⟩

theorem Treated.mono {later : List ℕ} {w'' : Window} {sent' : List Sent}
    (h : Treated crc32 loopNow readings w' sent q) (hreadings : readings ⊆ later)
    (hfront : w'.front ⊆ w''.front) (hsent : sentOf sent' q = sentOf sent q) :
    Treated crc32 loopNow later w'' sent' q := by
  unfold Treated at h ⊢
  split_ifs at h ⊢
  · exact h.mono hreadings hfront hsent
  · exact ⟨hfront h.1, hsent.trans h.2⟩

theorem sentOf_append_of_ne {new : Sent} (hne : new.pkt.addr ≠ q.addr) (sent : List Sent) :
    sentOf (sent ++ [new]) q = sentOf sent q := by
  rw [sentOf, List.filter_append, List.filter_singleton, decide_eq_false hne]
  exact List.append_nil _

variable {st st' : State} {ready : Option (List Byte)} {readings₀ later rest : List ℕ}
  {loopNow : ℕ} {d : List Byte} {nack : Pkt}

/-- **What an iteration does about the packets** in the buffer after the response. -/
theorem treated_of_mainLoop (hinv : Inv input st) (hwait : await ready readings st = .ok readings₀)
    (hreceive : receive crc32 st.w ready readings₀ = .ok (some (w₁, loopNow :: later)))
    (hclock : Unwrapped loopNow later)
    (h : mainLoop crc32 ready readings st = .ok (st', sent, rest)) (hq : q ∈ w₁.front) :
    Treated crc32 (BitVec.ofNat 32 loopNow) later st'.w sent q := by
  have hbuf := (response_of_receive_some hinv.standard hreceive).buffered hinv.toBuffered
  obtain ⟨hnone, -⟩ | ⟨w₁', loopNow', readings₁, w₂, sent₂, readings₂, hreceive', hretr, hnew⟩ :=
    mainLoop_cases_of_await hwait h
  · rw [hreceive] at hnone
    cases hnone
  rw [hreceive] at hreceive'
  cases hreceive'
  obtain ⟨used, hused, hsent⟩ := Resent.of_ok hbuf hclock.late hretr
  have hsub : used ⊆ later := fun t ht => hused.symm ▸ List.mem_append_left _ ht
  have htreated := hsent.treated hbuf hq
  obtain ⟨hfull, -, new, hsend, rfl⟩ | ⟨-, rfl, rfl, -⟩ := hnew
  · obtain ⟨t, x, -, -, -, rfl, rfl⟩ := sendNew_spec hfull hsend
    exact htreated.mono hsub (List.subset_cons_self ..)
      (sentOf_append_of_ne (hbuf.addr_lt q hq).ne' sent₂)
  · exact htreated.mono hsub (List.Subset.refl _) rfl

/-- An iteration comes back when there are readings enough. -/
theorem exists_mainLoop (hinv : Inv input st) (hwait : await ready readings st = .ok readings₀)
    (hreceive : receive crc32 st.w ready readings₀ = .ok (some (w₁, loopNow :: later)))
    (hclock : Unwrapped loopNow later) (hlen : w₁.front.length < later.length) :
    ∃ r, mainLoop crc32 ready readings st = .ok r := by
  have hbuf := (response_of_receive_some hinv.standard hreceive).buffered hinv.toBuffered
  have hexpired : (expired w₁ (BitVec.ofNat 32 loopNow)).length ≤ w₁.front.length :=
    List.length_filter_le _ _
  obtain ⟨⟨w₂, sent₂, readings₂⟩, hretr⟩ :=
    exists_retransmitExpired crc32 hbuf (by omega) hclock.late
  by_cases hnew : ¬ w₂.full = true ∧ ¬ st.sentEof = true
  · -- there is a reading left for the new packet
    obtain ⟨used, hused, hsent⟩ := Resent.of_ok hbuf hclock.late hretr
    have hlength := congrArg List.length hused
    rw [List.length_append, hsent.length_eq] at hlength
    cases readings₂ with
    | nil =>
      rw [List.length_nil] at hlength
      omega
    | cons t rest =>
      obtain ⟨p, -, -, hloop⟩ := mainLoop_eq hwait hreceive hretr (by simpa using hnew.1)
        (by simpa using hnew.2)
      exact ⟨_, hloop⟩
  · have hretr' : retransmitPackets crc32 w₁ (loopNow :: later) = .ok (w₂, sent₂, readings₂) :=
      hretr
    refine ⟨({ st with w := w₂ }, sent₂, readings₂), ?_⟩
    simp only [mainLoop, hwait, hreceive, hretr', bind, Except.bind, if_neg hnew]
    rfl

/-- **What an iteration does that hears a NACK** within the window. -/
theorem resends_of_nack (hinv : Inv input st) (hrec : received crc32 d = some nack)
    (htype : nack.getType = ptypeNack) (hhas : st.w.has nack.getSeqnum.toNat)
    (hfind : st.w.findSeqnum nack.getSeqnum.toNat = some p) : Resends crc32 st d p := by
  intro readings now loopNow later hwait hnow hclock
  have hp := (Window.mem_of_findSeqnum hfind).1
  obtain ⟨p', hp'⟩ : ∃ p', p' = p.setTimestamp (BitVec.ofNat 32 now) := ⟨_, rfl⟩
  have haddr : p'.addr = p.addr := hp' ▸ PktPtr.addr_setTimestamp p _
  have hreceive := receive_nack hinv.standard hrec htype hhas hfind now (loopNow :: later)
  rw [← hp'] at hreceive
  constructor
  · intro hlen
    refine exists_mainLoop hinv hwait hreceive hclock ?_
    rwa [Window.store, List.length_map]
  intro st' sent rest h
  have hall : ∀ q ∈ (st.w.store p').front,
      Treated crc32 (BitVec.ofNat 32 loopNow) later st'.w sent q :=
    fun q hq => treated_of_mainLoop hinv hwait hreceive hclock h hq
  refine ⟨?_, fun q hq hne => hall q (Window.mem_store_of_ne hq (haddr ▸ hne))⟩
  have hle : p'.timestamp ≤ BitVec.ofNat 32 loopNow := by
    rw [hp', PktPtr.timestamp_setTimestamp, BitVec.le_def, BitVec.toNat_ofNat, BitVec.toNat_ofNat]
    exact hnow
  have hsent := hall p' (Window.mem_store_self hp haddr)
  rw [Treated, if_pos hle] at hsent
  -- the datagram carries the later of the two timestamps, so it is one of `p`
  obtain ⟨t, ht, q', hq', hmem, honly⟩ := hsent
  rw [hp', setTimestamp_setTimestamp] at hq'
  rw [sentOf, haddr] at honly
  exact ⟨t, ht, q', hq', hmem, honly⟩

/-- What is received leaves the packets of the buffer as they are. -/
theorem treatsAll (hinv : Inv input st)
    (hsame : ∀ readings, ∃ w, receive crc32 st.w ready readings = .ok (some (w, readings)) ∧
      w.front = st.w.front) : TreatsAll crc32 ready st := by
  intro readings loopNow later hwait hclock st' sent rest h q hq
  obtain ⟨w₁, hreceive, hfront⟩ := hsame (loopNow :: later)
  exact treated_of_mainLoop hinv hwait hreceive hclock h (hfront.symm ▸ hq)

/-- A NACK that is not in the window resizes it, and no more. -/
theorem receive_nack_of_not_has (hw : st.w.Standard) (hrec : received crc32 d = some nack)
    (htype : nack.getType = ptypeNack) (hhas : ¬ st.w.has nack.getSeqnum.toNat)
    (readings : List ℕ) :
    receive crc32 st.w (some d) readings =
      .ok (some ({ st.w with size := nack.getWindow.toNat }, readings)) := by
  have hnack : handleNack st.w nack readings = .ok (st.w, readings) := by
    rw [handleNack, if_pos hhas]
    rfl
  rw [receive, handleResponse_of_nack hw hrec (htype ▸ by decide) (htype ▸ by decide), hnack]
  rfl

end Sender

end LosslessTransport
