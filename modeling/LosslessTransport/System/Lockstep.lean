import LosslessTransport.Sender.Progress
import LosslessTransport.System.Invariant

/-!
# A transfer in lockstep

Runs in which each packet is delivered before the next one is made.  `Lockstep` describes the state
between two packets: the ACK to the last one is on its way, and the sender still holds that packet,
and those whose ACKs were lost.  `Lockstep.exchange` delivers the next packet, and `Lockstep.lose`
does so after losing the ACK; so the sender can hold on to a packet for as long as its sequence
number is not passed by those of the ACKs.
-/

namespace LosslessTransport.System

open Sender (Chunk Sent payload)
open Receiver (ackPkt)

variable (crc32 : List Byte → BitVec 32) (input : List Chunk)

/-- The receiver has written the first `n` packets, and the sender has made no other. -/
structure Idle (n now : ℕ) (s : System) : Prop where
  reach : ((lts crc32).restrict Ticks).Reachable (init input) s
  allocs : s.sender.allocs = n
  data : s.data = []
  buffer : s.receiver.w.front = []
  outfile : s.receiver.outfile = (List.range n).map (payload input)
  pos : s.receiver.w.pos = n % 256
  clock : s.clock = now

/-- The ACK to the last of `n` packets, `p`, is on its way to a sender with a window of `size`. -/
structure Lockstep (size n now : ℕ) (p : PktPtr) (stale : List PktPtr) (s : System) : Prop extends
    Idle crc32 input n now s where
  size_eq : s.sender.w.size = size
  front : s.sender.w.front = p :: stale
  addr : p.addr + 1 = n
  stamp : p.timestamp.toNat + 1 = now + 4500000
  acks : ∃ snap, s.acks = [⟨((ackPkt 31 (n % 256) p.timestamp).sealed crc32).image, snap⟩]

variable {crc32 input} {s : System} {size n now : ℕ} {p : PktPtr} {stale : List PktPtr}

theorem toNat_stamp {t : ℕ} (h : t < 2 ^ 31) :
    (BitVec.ofNat 32 t + Sender.timer).toNat = t + 4500000 := by
  have htimer : Sender.timer.toNat = 4500000 := by decide
  rw [BitVec.toNat_add, BitVec.toNat_ofNat, htimer]
  omega

variable (crc32) in
/-- The packet that is due is written at once. -/
theorem receive_in_sequence {st : Receiver.State} (hst : Receiver.Inv st) (hnil : st.w.front = [])
    {i : ℕ} (hi : i < input.length) (hpos : st.w.pos = i % 256) {q : Pkt}
    (hq : q.Carries (i % 256) (payload input i)) :
    Receiver.mainLoop crc32 (q.sealed crc32).image st = .ok
      ({ w := { st.w with pos := (i + 1) % 256 }
         outfile := st.outfile ++ [payload input i]
         allocs := st.allocs + 1 },
        some ((ackPkt 31 ((i + 1) % 256) q.getTimestamp).sealed crc32).image) := by
  obtain ⟨x, hx, hagree⟩ := received_image crc32 hq.type_ne hq.getLength_le (.inl hq.type)
  have hxq := hq.of_agree hagree
  have hlen : x.getLength ≠ 0 := by
    intro hz
    have hnil := (Sender.payload_eq_nil_iff i).not.2 (Nat.not_le.2 hi)
    have hlength := hxq.length
    rw [hz] at hlength
    exact hnil (List.length_eq_zero_iff.1 hlength.symm)
  have hnext : (st.w.pos + 1) % 256 = (i + 1) % 256 := by
    rw [hpos]
    omega
  have hrecv := Receiver.mainLoop_in_sequence hst hnil hx (hxq.seqnum.trans hpos.symm) hxq.tr hlen
  rwa [hnext, hxq.payload, hagree.timestamp] at hrecv

theorem Idle.sentEof (h : Idle crc32 input n now s) (hn : n < input.length) :
    s.sender.sentEof = false := by
  obtain ⟨owner, hinv⟩ := exists_inv h.reach
  rw [Bool.eq_false_iff, ne_eq, hinv.sender.sentEof_iff, h.allocs]
  omega

theorem Idle.running (h : Idle crc32 input n now s) (hn : n < input.length) :
    s.sender.running = true := by
  simp [Sender.State.running, h.sentEof hn]

/-- **The next packet is made and delivered**, once the response has left the sender with the window
`w₁`, which is not full and in which no timer has expired. -/
theorem Idle.deliver (h : Idle crc32 input n now s) (hn : n < input.length) {hear : Bool}
    {ready : Option (List Byte)} {readings : List ℕ} {t : ℕ} {w₁ : Window}
    (hhear : hearFrom s.acks hear = some (ready, []))
    (hadv : Sender.advance now readings = some (t + 2)) (ht : t + 1 < 2 ^ 31)
    (hwait : Sender.await ready readings s.sender = .ok [t, t + 1])
    (hreceive : Sender.receive crc32 s.sender.w ready [t, t + 1] = .ok (some (w₁, [t, t + 1])))
    (hfull : w₁.full = false) (hlate : ∀ q ∈ w₁.front, t < q.timestamp.toNat) :
    ∃ p s', Lockstep crc32 input w₁.size (n + 1) (t + 2) p w₁.front s' := by
  obtain ⟨owner, hinv⟩ := exists_inv h.reach
  have hdata := hinv.sender.data_eq
  have hnext := hinv.sender.next_eq
  have hretr : Sender.retransmitExpired crc32 (BitVec.ofNat 32 t) [t + 1] w₁ =
      .ok (w₁, [], [t + 1]) := by
    refine Sender.retransmitExpired_of_late crc32 ?_ _
    intro q hq hle
    have := hlate q hq
    rw [BitVec.le_def, BitVec.toNat_ofNat] at hle
    omega
  obtain ⟨p, hp, hts, hloop⟩ := Sender.mainLoop_eq hwait hreceive hretr hfull (h.sentEof hn)
  rw [hdata, hnext, h.allocs, Nat.mod_mod] at hp
  have hadv' : Sender.advance s.clock readings = some (t + 2) := h.clock ▸ hadv
  have hstep := step_send_eq (h.running hn) hadv' hhear hloop
  rw [h.data, List.nil_append, List.nil_append] at hstep
  have hrecv := receive_in_sequence crc32 hinv.receiver h.buffer hn h.pos hp
  have hstep' := step_receive_eq crc32 (s := { s with
    sender := ({ s.sender with w := w₁ }).added p
    data := [⟨⟨s.sender.allocs, p⟩, (p.sealed crc32).image⟩]
    acks := []
    clock := t + 2 }) rfl hrecv
  refine ⟨⟨s.sender.allocs, p⟩, _, {
    reach := (h.reach.tail ⟨ticks_of_advance hadv', hstep⟩).tail (l := .receive) ⟨trivial, hstep'⟩
    allocs := congrArg (· + 1) h.allocs
    data := rfl
    buffer := h.buffer
    outfile := ?_
    pos := rfl
    clock := rfl
    size_eq := rfl
    front := rfl
    addr := congrArg (· + 1) h.allocs
    stamp := ?_
    acks := ⟨_, rfl⟩ }⟩
  · show s.receiver.outfile ++ [payload input n] = _
    rw [h.outfile, List.range_succ, List.map_append]
    rfl
  · have := toNat_stamp ht
    rw [← hts] at this
    show p.getTimestamp.toNat + 1 = _
    omega

/-- **A packet is retransmitted**, the only one that the response leaves in the buffer, and the next
one is made after it. -/
theorem Idle.retransmit (h : Idle crc32 input n now s) (hn : n < input.length) {hear : Bool}
    {ready : Option (List Byte)} {acks : List Reply} {t : ℕ} {w₁ : Window} {q : PktPtr}
    (hhear : hearFrom s.acks hear = some (ready, acks)) (hnow : now ≤ t) (ht : t + 2 < 2 ^ 31)
    (hroom : s.sender.w.full = false)
    (hreceive : Sender.receive crc32 s.sender.w ready [t, t + 1, t + 2] =
      .ok (some (w₁, [t, t + 1, t + 2])))
    (hstd : w₁.Standard) (hsize : w₁.size = 31) (hfront : w₁.front = [q])
    (hq : q ∈ s.sender.w.front) (hexpired : q.timestamp.toNat ≤ t) :
    ∃ q' r s', ((lts crc32).restrict Ticks).step s (.send hear [t, t + 1, t + 2]) s' ∧
      s' = { s with
        sender := ({ s.sender with w := w₁.store q' }).added r
        data := [⟨q', (q'.pkt.sealed crc32).image⟩,
          ⟨⟨s.sender.allocs, r⟩, (r.sealed crc32).image⟩]
        acks := acks
        clock := t + 3 } ∧
      s'.sender.w.front = [⟨n, r⟩, q'] ∧ q'.addr = q.addr ∧
      q'.pkt.Carries (q.addr % 256) (payload input q.addr) ∧
      q'.timestamp.toNat = t + 1 + 4500000 ∧ r.Carries (n % 256) (payload input n) ∧
      r.getTimestamp.toNat = t + 2 + 4500000 := by
  obtain ⟨owner, hinv⟩ := exists_inv h.reach
  have hcarries := hinv.sender.carries q hq
  obtain ⟨q', hq'⟩ : ∃ q', q' = q.setTimestamp (BitVec.ofNat 32 (t + 1) + Sender.timer) := ⟨_, rfl⟩
  have hstamp : q'.timestamp.toNat = t + 1 + 4500000 := by
    rw [hq', PktPtr.timestamp_setTimestamp, toNat_stamp (by omega)]
  have hle : q.timestamp ≤ BitVec.ofNat 32 t := by
    rw [BitVec.le_def, BitVec.toNat_ofNat, Nat.mod_eq_of_lt (by omega)]
    exact hexpired
  have hlate : ¬ q'.timestamp ≤ BitVec.ofNat 32 t := by
    rw [BitVec.le_def, hstamp, BitVec.toNat_ofNat]
    omega
  obtain ⟨hretr, hfront₂⟩ := Sender.retransmitExpired_single crc32 hfront
    hcarries.type_ne hcarries.getLength_le hle hq' hlate [t + 2]
  have hfull₂ : (w₁.store q').full = false := by
    rw [Window.full_eq_false_iff (hstd.store q').toWf, hfront₂]
    exact hsize.symm ▸ (by decide : 1 < 31)
  have hadv : Sender.advance s.clock [t, t + 1, t + 2] = some (t + 3) := by
    simp only [Sender.advance]
    rw [if_pos (by rw [h.clock]; omega), if_pos (by omega), if_pos (by omega)]
  have hsize₀ : s.sender.w.size ≠ 0 := by
    have := (Window.full_eq_false_iff hinv.sender.standard.toWf).1 hroom
    omega
  obtain ⟨r, hr, hrt, hloop⟩ := Sender.mainLoop_eq
    (Sender.await_eq hroom (h.sentEof hn) hsize₀ _) hreceive hretr hfull₂ (h.sentEof hn)
  rw [hinv.sender.data_eq, hinv.sender.next_eq, h.allocs, Nat.mod_mod] at hr
  have hstep := step_send_eq (h.running hn) hadv hhear hloop
  rw [h.data, List.nil_append] at hstep
  refine ⟨q', r, _, ⟨ticks_of_advance hadv, hstep⟩, rfl, ?_, hq' ▸ PktPtr.addr_setTimestamp q _,
    hq' ▸ hcarries.setTimestamp _, hstamp, hr, hrt ▸ toNat_stamp ht⟩
  show ⟨s.sender.allocs, r⟩ :: (w₁.store q').front = _
  rw [hfront₂, h.allocs]

/-- The ACK that is on its way. -/
theorem Lockstep.ack (h : Lockstep crc32 input size n now p stale s) :
    ∃ bytes ack, hearFrom s.acks true = some (some bytes, []) ∧
      received crc32 bytes = some ack ∧ ack.getType = ptypeAck ∧
      p.timestamp = ack.getTimestamp ∧ ack.getSeqnum.toNat = n % 256 ∧
      ack.getWindow.toNat = 31 := by
  obtain ⟨snap, hacks⟩ := h.acks
  obtain ⟨ack, hrec, hagree⟩ :=
    Receiver.received_ackPkt crc32 31 (n % 256) p.timestamp
  refine ⟨_, ack, by rw [hacks]; rfl, hrec, hagree.type,
    (hagree.timestamp.trans (ntohl_htonl _)).symm, ?_, by rw [hagree.window]; rfl⟩
  rw [hagree.seqnum]
  exact Nat.mod_eq_of_lt (Nat.mod_lt n (by decide))

/-- What the sender makes of the ACK: it lets go of `p`. -/
theorem Lockstep.response (h : Lockstep crc32 input size n now p stale s)
    (hstale : ∀ q ∈ stale, n % 256 ≤ q.seqnum) :
    ∃ bytes w₁, hearFrom s.acks true = some (some bytes, []) ∧
      (∀ readings, Sender.receive crc32 s.sender.w (some bytes) readings =
        .ok (some (w₁, readings))) ∧
      w₁.front = stale ∧ w₁.size = 31 ∧ w₁.Standard := by
  obtain ⟨owner, hinv⟩ := exists_inv h.reach
  obtain ⟨bytes, ack, hhear, hrec, htype, hts, hseq, hwindow⟩ := h.ack
  have hstd := hinv.sender.standard
  refine ⟨bytes, { Sender.acked s.sender.w ack with size := 31 }, hhear, fun readings => ?_,
    Sender.front_acked h.front hts (hseq.symm ▸ hstale), rfl,
    Sender.standard_resized (Sender.standard_acked hstd ack) le_rfl⟩
  rw [Sender.receive_ack hstd hrec htype, hwindow]

theorem Lockstep.full_iff (h : Lockstep crc32 input size n now p stale s) :
    s.sender.w.full = false ↔ stale.length + 1 < size := by
  obtain ⟨owner, hinv⟩ := exists_inv h.reach
  rw [Window.full_eq_false_iff hinv.sender.standard.toWf, h.front, h.size_eq, List.length_cons]

/-- **One exchange**: the ACK is heard, and the next packet delivered. -/
theorem Lockstep.exchange (h : Lockstep crc32 input 31 n now p stale s) (hn : n < input.length)
    (hnow : now + 1 < 2 ^ 31) (hlen : stale.length < 30)
    (hstale : ∀ q ∈ stale, n % 256 ≤ q.seqnum) (hlate : ∀ q ∈ stale, now < q.timestamp.toNat) :
    ∃ p' s', Lockstep crc32 input 31 (n + 1) (now + 2) p' stale s' := by
  obtain ⟨bytes, w₁, hhear, hreceive, hfront, hsize, hstd⟩ := h.response hstale
  have hadv : Sender.advance now [now, now + 1] = some (now + 2) := by
    simp only [Sender.advance]
    rw [if_pos (by omega), if_pos (by omega)]
  have hfull₁ : w₁.full = false := by
    rw [Window.full_eq_false_iff hstd.toWf, hfront, hsize]
    omega
  have hsize₀ : s.sender.w.size ≠ 0 := h.size_eq.symm ▸ by decide
  have := h.toIdle.deliver hn hhear hadv hnow
    (Sender.await_eq (h.full_iff.2 (by omega)) (h.sentEof hn) hsize₀ _) (hreceive _) hfull₁
    (hfront.symm ▸ hlate)
  rwa [hsize, hfront] at this

/-- **The ACK is lost**, and the sender holds on to the packet while the next one is delivered. -/
theorem Lockstep.lose (h : Lockstep crc32 input 31 n now p stale s) (hn : n < input.length)
    (hnow : now + 1 < 2 ^ 31) (hlen : stale.length < 30)
    (hlate : ∀ q ∈ stale, now < q.timestamp.toNat) :
    ∃ p' s', Lockstep crc32 input 31 (n + 1) (now + 2) p' (p :: stale) s' := by
  obtain ⟨snap, hacks⟩ := h.acks
  have hstep : step crc32 s (.loseAck 0) = some { s with acks := [] } := by
    rw [step, hacks]
    rfl
  have hidle : Idle crc32 input n now { s with acks := [] } :=
    { h.toIdle with reach := h.reach.tail (l := .loseAck 0) ⟨trivial, hstep⟩ }
  have hadv : Sender.advance now [now, now + 1] = some (now + 2) := by
    simp only [Sender.advance]
    rw [if_pos (by omega), if_pos (by omega)]
  have hfull := h.full_iff.2 (by omega)
  have hsize₀ : s.sender.w.size ≠ 0 := h.size_eq.symm ▸ by decide
  have hstamp := h.stamp
  have hhear : hearFrom [] false = some (none, []) := rfl
  have hreceive : Sender.receive crc32 s.sender.w none [now, now + 1] =
      .ok (some (s.sender.w, [now, now + 1])) := rfl
  have hlate' : ∀ q ∈ s.sender.w.front, now < q.timestamp.toNat := by
    intro q hq
    rw [h.front] at hq
    rcases List.mem_cons.1 hq with rfl | hq
    · omega
    · exact hlate q hq
  have := hidle.deliver hn hhear hadv hnow (Sender.await_eq hfull (h.sentEof hn) hsize₀ _) hreceive
    hfull hlate'
  rwa [h.size_eq, h.front] at this

/-- **As many exchanges as there are packets.**  The sender holds on to the stale ones while their
timers have not expired and no ACK passes their sequence numbers. -/
theorem Lockstep.exchanges (h : Lockstep crc32 input 31 n now p stale s) (k : ℕ)
    (hn : n + k ≤ input.length) (hnow : now + 2 * k < 2 ^ 31) (hlen : stale.length < 30)
    (hstale : ∀ q ∈ stale, ∀ j < k, (n + j) % 256 ≤ q.seqnum)
    (hlate : ∀ q ∈ stale, now + 2 * k ≤ q.timestamp.toNat) :
    ∃ p' s', Lockstep crc32 input 31 (n + k) (now + 2 * k) p' stale s' := by
  induction k with
  | zero => exact ⟨p, s, h⟩
  | succ k ih =>
    obtain ⟨p', s', h'⟩ := ih (by omega) (by omega)
      (fun q hq j hj => hstale q hq j (Nat.lt_succ_of_lt hj))
      (fun q hq => by have := hlate q hq; omega)
    exact h'.exchange (by omega) (by omega) hlen (fun q hq => hstale q hq k (Nat.lt_succ_self k))
      fun q hq => by have := hlate q hq; omega

variable (crc32 input) in
/-- **The start**: the first two packets.  The window of the sender is 1 until the first ACK. -/
theorem exists_lockstep (hlen : 2 ≤ input.length) :
    ∃ p s, Lockstep crc32 input 31 2 5 p [] s := by
  have hidle : Idle crc32 input 0 0 (init input) := {
    reach := .refl _
    allocs := rfl
    data := rfl
    buffer := rfl
    outfile := rfl
    pos := rfl
    clock := rfl }
  have hhear₀ : hearFrom [] false = some (none, []) := rfl
  have hadv₀ : Sender.advance 0 [0, 1] = some (0 + 2) := rfl
  have hreceive₀ : Sender.receive crc32 (Sender.init input).w none [0, 1] =
      .ok (some ((Sender.init input).w, [0, 1])) := rfl
  obtain ⟨p, s, h⟩ := hidle.deliver (by omega) hhear₀ hadv₀ (by decide) rfl hreceive₀ rfl nofun
  replace h : Lockstep crc32 input 1 1 2 p [] s := h
  obtain ⟨bytes, w₁, hhear, hreceive, hfront, hsize, hstd⟩ := h.response nofun
  obtain ⟨owner, hinv⟩ := exists_inv h.reach
  have hfull : s.sender.w.full = true := by
    rw [← Bool.not_eq_false, h.full_iff]
    decide
  have hne : s.sender.w.front ≠ [] := h.front.symm ▸ List.cons_ne_nil _ _
  have hadv : Sender.advance 2 [2, 3, 4] = some (3 + 2) := rfl
  have := h.toIdle.deliver (by omega) hhear hadv (by decide)
    (Sender.await_of_full hinv.sender.standard hfull hne 2 _) (hreceive _) (by
      rw [Window.full_eq_false_iff hstd.toWf, hfront, hsize]
      decide) (by rw [hfront]; nofun)
  rwa [hsize, hfront] at this

/-- **A stale packet is taken for a new one**: when its sequence number has come round and its timer
expires, it is retransmitted before the packet that now has the number, and written in its place.
The sender then holds both. -/
theorem Lockstep.accept_stale {q : PktPtr} (h : Lockstep crc32 input 31 n now p [q] s)
    (hn : n < input.length) (hseq : q.seqnum = n % 256) {t : ℕ} (hnow : now ≤ t)
    (ht : t + 2 < 2 ^ 31) (hexpired : q.timestamp.toNat ≤ t) :
    ∃ s', ((lts crc32).restrict Ticks).Reachable (init input) s' ∧
      s'.receiver.outfile = (List.range n).map (payload input) ++ [payload input q.addr] ∧
      ¬ (s'.sender.w.front.map PktPtr.seqnum).Nodup := by
  obtain ⟨owner, hinv⟩ := exists_inv h.reach
  obtain ⟨bytes, w₁, hhear, hreceive, hfront, hsize, hstd⟩ := h.response
    (List.forall_mem_singleton.2 hseq.ge)
  have hq : q ∈ s.sender.w.front := by simp [h.front]
  have hlt := h.allocs ▸ hinv.sender.addr_lt q hq
  obtain ⟨q', r, s₁, hstep₁, rfl, hsender, -, hcarries', -, hr, -⟩ := h.toIdle.retransmit hn hhear
    hnow ht (h.full_iff.2 (by simp)) (hreceive _) hstd hsize hfront hq hexpired
  -- the stale packet arrives first
  have hqseq : q.addr % 256 = n % 256 := (hinv.sender.carries q hq).seqnum_eq.symm.trans hseq
  have hrecv := receive_in_sequence crc32 hinv.receiver h.buffer (hlt.trans hn)
    (h.pos.trans hqseq.symm) hcarries'
  have hstep₂ := step_receive_eq crc32 (s := { s with
    sender := ({ s.sender with w := w₁.store q' }).added r
    data := [⟨q', (q'.pkt.sealed crc32).image⟩,
      ⟨⟨s.sender.allocs, r⟩, (r.sealed crc32).image⟩]
    acks := []
    clock := t + 3 }) rfl hrecv
  refine ⟨_, (h.reach.tail hstep₁).tail (l := .receive) ⟨trivial, hstep₂⟩, ?_, ?_⟩
  · show s.receiver.outfile ++ [payload input q.addr] = _
    rw [h.outfile]
  · have hrseq : PktPtr.seqnum ⟨n, r⟩ = n % 256 := hr.seqnum
    have hq'seq : q'.seqnum = n % 256 := hcarries'.seqnum.trans hqseq
    rw [hsender, List.map_cons, List.map_singleton, hrseq, hq'seq]
    simp

variable (crc32 input) in
/-- The ACK to packet 1 is on its way to a sender that has packets 1 and 2 in its buffer, neither of
them with the timestamp of the ACK.  Nothing else is on its way. -/
structure Mismatch (bytes : List Byte) (ack : Pkt) (p : PktPtr) (r : Pkt) (s : System) : Prop where
  reach : ((lts crc32).restrict Ticks).Reachable (init input) s
  allocs : s.sender.allocs = 3
  size : s.sender.w.size = 31
  front : s.sender.w.front = [⟨2, r⟩, p]
  seqnum : p.seqnum = 1
  seqnum_last : r.getSeqnum.toNat = 2
  timestamp : p.timestamp ≠ ack.getTimestamp
  timestamp_last : r.getTimestamp ≠ ack.getTimestamp
  data : s.data = []
  hear : hearFrom s.acks true = some (some bytes, [])
  received : received crc32 bytes = some ack
  type : ack.getType = ptypeAck
  ack_seqnum : ack.getSeqnum.toNat = 2
  window : ack.getWindow.toNat = 31
  clock : s.clock = 4600003
  buffer : s.receiver.w.front = []
  outfile : s.receiver.outfile = (List.range 2).map (payload input)

variable (crc32 input) in
/-- Packet 1 is retransmitted before its ACK is heard, so it no longer carries the timestamp of the
ACK.  Packet 2 is made, and both datagrams are lost. -/
theorem exists_mismatch (hlen : 3 ≤ input.length) :
    ∃ bytes ack p r s, Mismatch crc32 input bytes ack p r s := by
  obtain ⟨p, s, h⟩ := exists_lockstep crc32 input (by omega)
  obtain ⟨owner, hinv⟩ := exists_inv h.reach
  obtain ⟨bytes, ack, hhear, hrec, htype, hts, hseq, hwindow⟩ := h.ack
  have hstamp := h.stamp
  have haddr : p.addr = 1 := Nat.succ.inj h.addr
  have hhear₀ : hearFrom s.acks false = some (none, s.acks) := rfl
  have hreceive : Sender.receive crc32 s.sender.w none [4600000, 4600000 + 1, 4600000 + 2] =
      .ok (some (s.sender.w, [4600000, 4600000 + 1, 4600000 + 2])) := rfl
  -- the timer of packet 1 expires before the ACK is read from the socket
  obtain ⟨p', r, s₁, hstep₁, rfl, hfront₁, -, hcarries', hstamp', hr, hrstamp⟩ :=
    h.toIdle.retransmit (by omega) hhear₀ (by omega) (by omega) (h.full_iff.2 (by simp)) hreceive
      hinv.sender.standard h.size_eq h.front (by simp [h.front]) (by omega)
  rw [haddr] at hcarries'
  have hreach₁ := (h.reach.tail hstep₁).tail (l := Event.loseData 0)
    ⟨trivial, step_loseData_eq (i := 0) Nat.two_pos⟩
  exact ⟨bytes, ack, p', r, _, {
    reach := hreach₁.tail (l := Event.loseData 0)
      ⟨trivial, step_loseData_eq (i := 0) Nat.one_pos⟩
    allocs := congrArg (· + 1) h.allocs
    size := h.size_eq
    front := hfront₁
    seqnum := hcarries'.seqnum
    seqnum_last := hr.seqnum
    timestamp := fun heq => by
      rw [← hts] at heq
      rw [heq] at hstamp'
      omega
    timestamp_last := fun heq => by
      rw [← hts] at heq
      rw [heq] at hrstamp
      omega
    data := rfl
    hear := hhear
    received := hrec
    type := htype
    ack_seqnum := hseq
    window := hwindow
    clock := rfl
    buffer := h.buffer
    outfile := h.outfile }⟩

/-- The ACK removes packet 1 by its number, and packet 2 in place of the packet that it does not
find. -/
theorem Mismatch.front_acked {bytes : List Byte} {ack r : Pkt}
    (h : Mismatch crc32 input bytes ack p r s) : (Sender.acked s.sender.w ack).front = [] := by
  refine Sender.front_acked_of_miss (r := ⟨2, r⟩) ?_ ?_
  · rw [h.front]
    intro q hq
    rcases List.mem_pair.1 hq with rfl | rfl
    · exact h.timestamp_last
    · exact h.timestamp
  · have hseq : PktPtr.seqnum ⟨2, r⟩ = 2 := h.seqnum_last
    rw [h.front, h.ack_seqnum, List.filter_cons_of_pos (by simp [hseq]),
      List.filter_cons_of_neg (by simp [h.seqnum]), List.filter_nil]

variable (crc32 input) in
/-- **A packet is let go of that the receiver does not have**: when the ACK has removed packet 2,
the sender makes packet 3. -/
theorem exists_let_go (hlen : 3 ≤ input.length) :
    ∃ s, ((lts crc32).restrict Ticks).Reachable (init input) s ∧ s.sender.allocs = 4 ∧
      (∀ p ∈ s.sender.w.front, p.addr ≠ 2) ∧ (∀ d ∈ s.data, d.pkt.addr ≠ 2) ∧
      s.receiver.w.front = [] ∧ s.receiver.outfile = (List.range 2).map (payload input) := by
  obtain ⟨bytes, ack, p, r, s, h⟩ := exists_mismatch crc32 input (by omega)
  obtain ⟨owner, hinv⟩ := exists_inv h.reach
  have hstd := hinv.sender.standard
  have hallocs := h.allocs
  have heof : s.sender.sentEof = false := by
    rw [Bool.eq_false_iff, ne_eq, hinv.sender.sentEof_iff]
    omega
  -- with its buffer empty, the sender has nothing to retransmit and room for packet 3
  have hempty := h.front_acked
  have hreceive := Sender.receive_ack hstd h.received h.type [4600003, 4600004]
  rw [h.window] at hreceive
  have hfull : s.sender.w.full = false := by
    rw [Window.full_eq_false_iff hstd.toWf, h.front, h.size]
    exact Nat.lt_of_sub_pos (Nat.succ_pos _)
  have hfull₁ : ({ Sender.acked s.sender.w ack with size := 31 } : Window).full = false := by
    rw [Window.full_eq_false_iff
      (Sender.standard_resized (Sender.standard_acked hstd ack) le_rfl).toWf]
    show (Sender.acked s.sender.w ack).front.length < 31
    rw [hempty]
    exact Nat.succ_pos _
  have hretr : Sender.retransmitExpired crc32 (BitVec.ofNat 32 4600003) [4600004]
      { Sender.acked s.sender.w ack with size := 31 } =
      .ok ({ Sender.acked s.sender.w ack with size := 31 }, [], [4600004]) := by
    refine Sender.retransmitExpired_of_late crc32 ?_ _
    intro q hq
    change q ∈ (Sender.acked s.sender.w ack).front at hq
    rw [hempty] at hq
    cases hq
  obtain ⟨x, -, -, hloop⟩ := Sender.mainLoop_eq
    (Sender.await_eq hfull heof (h.size.symm ▸ by decide) _) hreceive hretr hfull₁ heof
  have hrun : s.sender.running = true := by simp [Sender.State.running, heof]
  have hadv : Sender.advance s.clock [4600003, 4600004] = some 4600005 := by
    rw [h.clock]
    rfl
  have hstep := step_send_eq hrun hadv h.hear hloop
  refine ⟨_, h.reach.tail ⟨ticks_of_advance hadv, hstep⟩, congrArg (· + 1) hallocs,
    ?_, ?_, h.buffer, h.outfile⟩
  · show ∀ q ∈ ⟨s.sender.allocs, x⟩ :: (Sender.acked s.sender.w ack).front, q.addr ≠ 2
    rw [hempty, hallocs]
    simp
  · rw [h.data]
    show ∀ d ∈ [Sent.mk ⟨s.sender.allocs, x⟩ _], d.pkt.addr ≠ 2
    rw [hallocs]
    simp

variable (crc32 input) in
/-- **Packet 255 is written for packet 511**: the ACK to it is lost, no other ACK passes its
sequence number, and its timer expires when packet 511 is due.  The sender then holds both. -/
theorem exists_stale_written (hlen : 512 ≤ input.length) :
    ∃ s, ((lts crc32).restrict Ticks).Reachable (init input) s ∧
      s.receiver.outfile = (List.range 511).map (payload input) ++ [payload input 255] ∧
      ¬ (s.sender.w.front.map PktPtr.seqnum).Nodup := by
  obtain ⟨p₀, s₀, h₀⟩ := exists_lockstep crc32 input (by omega)
  obtain ⟨p, s, h⟩ := h₀.exchanges 254 (by omega) (by decide) (by decide) nofun nofun
  have haddr : p.addr = 255 := Nat.succ.inj h.addr
  have hseq : p.seqnum = 255 := by
    obtain ⟨owner, hinv⟩ := exists_inv h.reach
    have hcarries := hinv.sender.carries p (by simp [h.front])
    rw [haddr] at hcarries
    exact hcarries.seqnum
  have hstamp := h.stamp
  -- the ACK to packet 255 is lost, and from then on it stays in the buffer of the sender
  obtain ⟨p₁, s₁, h₁⟩ := h.lose (by omega) (by decide) (by decide) nofun
  -- once round the circle
  obtain ⟨p₂, s₂, h₂⟩ := h₁.exchanges 254 (by omega) (by decide) (by simp)
    (List.forall_mem_singleton.2 fun j hj => by omega)
    (List.forall_mem_singleton.2 (by omega))
  have haccept := h₂.accept_stale (t := 5000000) (by omega) hseq (by decide) (by decide) (by omega)
  rwa [haddr] at haccept

end LosslessTransport.System
