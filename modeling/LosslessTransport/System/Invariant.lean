import LosslessTransport.Lib.Crc32
import LosslessTransport.Receiver.Abort
import LosslessTransport.System.Basic

/-!
# What holds in every run of the system

`System.Untimed` collects what the two programs keep by themselves, whatever the clock says.  While
it ticks, `System.Inv` says besides where the timestamps are: each packet in the sender's buffer, in
a datagram or in the receiver's buffer has the number that owns its timestamp.  So two packets with
one timestamp are the same, the receiver never fails its assertion (`Inv.receive_ok`), and the ACK
to a packet removes that packet and no other by its timestamp.

`System.decode_truncated` is what is left of a DATA packet that the network truncates.
`System.effective_iff` is what retransmitting a packet comes to: it is effective exactly when the
packet lies in the receiver's window.
-/

namespace LosslessTransport

/-- A packet with TR set. -/
def Pkt.withTr (p : Pkt) : Pkt := { p with tr := 1 }

namespace System

open Sender (Chunk Sent payload Stamped Old)

variable (crc32 : List Byte → BitVec 32) (input : List Chunk) (owner : BitVec 32 → ℕ)

/-- A datagram on its way to the receiver: the image of its packet, whole or truncated. -/
structure Conveys (n : ℕ) (d : Sent) : Prop where
  carries : d.pkt.pkt.Carries (d.pkt.addr % 256) (payload input d.pkt.addr)
  addr_lt : d.pkt.addr < n
  bytes : d.bytes = (d.pkt.pkt.sealed crc32).image ∨
    d.bytes = (d.pkt.pkt.withTr.sealed crc32).image

/-- Its packet owns its timestamp. -/
structure Carried (clock n : ℕ) (d : Sent) : Prop extends Conveys crc32 input n d where
  stamped : Stamped clock owner d.pkt

/-- A packet in the receiver's buffer: the one that owns its timestamp. -/
structure Stored (clock n : ℕ) (q : PktPtr) : Prop where
  old : Old clock q.timestamp
  lt : owner q.timestamp < n
  carries : q.pkt.Carries (owner q.timestamp % 256) (payload input (owner q.timestamp))

/-- What holds in every reachable state, whatever the clock says. -/
structure Untimed (s : System) : Prop where
  sender : Sender.Inv input s.sender
  receiver : Receiver.Inv s.receiver
  conveyed : ∀ d ∈ s.data, Conveys crc32 input s.sender.allocs d

/-- What holds in every state that is reached while the clock ticks. -/
structure Inv (s : System) : Prop extends Untimed crc32 input s where
  clock_le : s.clock ≤ 2 ^ 32
  buffered : ∀ p ∈ s.sender.w.front, Stamped s.clock owner p
  stamped : ∀ d ∈ s.data, Stamped s.clock owner d.pkt
  stored : ∀ q ∈ s.receiver.w.front, Stored input owner s.clock s.sender.allocs q

variable {crc32 input owner} {s s' : System} {c c' n n' : ℕ} {owner' : BitVec 32 → ℕ}

/-! ### Truncation -/

theorem set_tr :
    ∀ (ty : BitVec 2) (tr : BitVec 1) (w : BitVec 5),
      ((ty ++ tr ++ w : BitVec 8) ||| 0x20) = (ty ++ 1#1 ++ w : BitVec 8) := by
  decide +kernel

/-- Truncating the image of a packet gives the image of the packet with TR set. -/
theorem truncated_image (p : Pkt) :
    truncated (p.sealed crc32).image = (p.withTr.sealed crc32).image := by
  have htr : (p.withTr.sealed crc32).getLength = 0 := Pkt.getLength_of_tr rfl
  have himage : (p.withTr.sealed crc32).image = (p.withTr.sealed crc32).header := by
    simp [Pkt.image, Pkt.payloadBytes, htr]
  have hhead : (p.sealed crc32).image.take headerSize = (p.sealed crc32).header := by
    rw [Pkt.image, List.take_left' (by simp)]
  rw [truncated, hhead, himage]
  -- CRC1 does not cover TR, so only the first byte changes
  exact congrArg (· :: (p.sealed crc32).header.tail) (set_tr p.type p.tr p.window)

theorem truncated_image_withTr (p : Pkt) :
    truncated (p.withTr.sealed crc32).image = (p.withTr.sealed crc32).image := by
  rw [truncated_image]
  rfl

theorem setTr_one (p : Pkt) : p.setTr 1 = (.ok, p.withTr) := rfl

variable (crc32) in
/-- **Truncation is always recognised**: from the header that is left of an encoded DATA packet,
with TR set, `pkt_decode` gets the fields of the packet back, without a payload; it is what
`pkt_encode` would have made of the packet with TR set. -/
theorem decode_truncated {p : Pkt} (hp : p.Built) (htype : p.getType = ptypeData) (pkt : Pkt)
    {buf : List Byte} {c : ℕ} (hc : p.getTotalSize ≤ c) (hbuf : c ≤ buf.length) :
    ∃ bytes, bytes.length = p.getTotalSize ∧
      p.encode crc32 buf c =
        some ⟨.ok, p, bytes ++ buf.drop p.getTotalSize, p.getTotalSize⟩ ∧
      (∃ q, Pkt.decode crc32 (some (truncated bytes)) (truncated bytes).length pkt =
          some (.ok, q) ∧
        q.getTr = 1 ∧ q.getType = p.getType ∧ q.getWindow = p.getWindow ∧
        q.getSeqnum = p.getSeqnum ∧ q.getTimestamp = p.getTimestamp ∧
        q.getLength = 0 ∧ q.getPayload = none) ∧
      ∀ (buf' : List Byte) (c' : ℕ), 12 ≤ c' → c' ≤ buf'.length →
        (p.setTr 1).2.encode crc32 buf' c' =
          some ⟨.ok, (p.setTr 1).2, truncated bytes ++ buf'.drop 12, 12⟩ := by
  have hle := hp.lengthOk.getLength_le
  have hne : p.getType ≠ 0 := htype.symm ▸ by decide
  have hzero : p.withTr.getLength = 0 := Pkt.getLength_of_tr rfl
  have hzero' : p.withTr.getLength.toNat = 0 := congrArg BitVec.toNat hzero
  have hsize : p.withTr.getTotalSize = 12 := Pkt.getTotalSize_of_zero hzero'
  have hle' : p.withTr.getLength.toNat ≤ 512 := by omega
  have hlen : (p.withTr.sealed crc32).image.length = 12 :=
    (Pkt.length_image (p := p.withTr.sealed crc32) hle').trans hsize
  refine ⟨_, Pkt.length_image (p := p.sealed crc32) hle,
    Pkt.encode_of_le crc32 hne hle hc hbuf, ?_, fun buf' c' hc' hbuf' => ?_⟩
  · obtain ⟨q, hdec, hagree⟩ := Pkt.decode_image crc32 (p := p.withTr) hne hle' pkt
    rw [if_pos (.inl htype), hsize] at hdec
    have hq := hagree (.inl htype)
    rw [truncated_image, hlen]
    refine ⟨q, hdec, hq.tr, hq.type, hq.window, hq.seqnum, hq.timestamp, hq.length.trans hzero, ?_⟩
    rw [Pkt.getPayload, if_pos (hq.length.trans hzero)]
  · rw [setTr_one, truncated_image, ← hsize]
    exact Pkt.encode_of_le crc32 hne hle' (hsize.symm ▸ hc') hbuf'

/-- A packet with a payload of 11 zeros. -/
theorem decode_truncated_zeros :
    let p := ((Pkt.new.setType 1).2.setLength 11).2
    ∃ bytes q, p.encode Crc32.crc32 (List.replicate 528 0) 528 =
        some ⟨.ok, p, bytes ++ List.replicate 501 0, 27⟩ ∧
      Pkt.decode Crc32.crc32 (some (truncated bytes)) (truncated bytes).length Pkt.new =
        some (.ok, q) ∧ q.getTr = 1 ∧ q.getPayload = none := by
  intro p
  have hbuilt : p.Built := .setLength 11 (.setType 1 .new)
  have hsize : p.getTotalSize = 27 := by decide +kernel
  obtain ⟨bytes, -, henc, ⟨q, hdec, htr, -, -, -, -, -, hnull⟩, -⟩ :=
    decode_truncated Crc32.crc32 hbuilt (by decide +kernel) Pkt.new (c := 528)
      (hsize.symm ▸ by decide) (List.length_replicate (n := 528)).ge
  rw [hsize] at henc
  exact ⟨bytes, q, henc, hdec, htr, hnull⟩

/-! ### What the receiver makes of a datagram -/

/-- The receiver gets the packet whole, or with TR set. -/
theorem Conveys.received {d : Sent} (h : Conveys crc32 input n d) :
    ∃ q, received crc32 d.bytes = some q ∧ q.getSeqnum.toNat = d.pkt.addr % 256 ∧
      (q.getTr = 0 → d.bytes = (d.pkt.pkt.sealed crc32).image ∧
        q.Carries (d.pkt.addr % 256) (payload input d.pkt.addr) ∧
        q.getTimestamp = d.pkt.timestamp) := by
  rcases h.bytes with hb | hb
  · obtain ⟨q, hq, hagree⟩ := received_image crc32 h.carries.type_ne h.carries.getLength_le
      (.inl h.carries.type)
    have hcarries := h.carries.of_agree hagree
    exact ⟨q, hb ▸ hq, hcarries.seqnum, fun _ => ⟨hb, hcarries, hagree.timestamp⟩⟩
  · have htr : d.pkt.pkt.withTr.getLength = 0 := Pkt.getLength_of_tr rfl
    obtain ⟨q, hq, hagree⟩ := received_image crc32 (p := d.pkt.pkt.withTr) h.carries.type_ne
      (by simp [htr]) (.inl h.carries.type)
    refine ⟨q, hb ▸ hq, (congrArg BitVec.toNat hagree.seqnum).trans h.carries.seqnum, fun h0 => ?_⟩
    rw [hagree.tr] at h0
    cases h0

theorem Inv.data (h : Inv crc32 input owner s) {d : Sent} (hd : d ∈ s.data) :
    Carried crc32 input owner s.clock s.sender.allocs d :=
  ⟨h.conveyed d hd, h.stamped d hd⟩

theorem Conveys.mono {d : Sent} (h : Conveys crc32 input n d) (hn : n ≤ n') :
    Conveys crc32 input n' d :=
  { h with addr_lt := h.addr_lt.trans_le hn }

theorem Stored.mono {q : PktPtr} (h : Stored input owner c n q) (hc : c ≤ c') (hn : n ≤ n')
    (hext : Sender.Extends c owner owner') : Stored input owner' c' n' q where
  old := h.old.mono hc
  lt := (hext _ h.old).symm ▸ h.lt.trans_le hn
  carries := (hext _ h.old).symm ▸ h.carries

/-- What is truncated stays so. -/
theorem Conveys.truncate {d : Sent} (h : Conveys crc32 input n d) :
    Conveys crc32 input n { d with bytes := truncated d.bytes } := by
  refine { h with bytes := .inr ?_ }
  rcases h.bytes with hb | hb
  · exact (congrArg truncated hb).trans (truncated_image _)
  · exact (congrArg truncated hb).trans (truncated_image_withTr _)

/-- Packets of the receiver's buffer with one timestamp are the same. -/
theorem unambiguous_of_stored {w : Window} (hbuf : Receiver.Buffered w)
    (h : ∀ q ∈ w.front, Stored input owner c n q) : Receiver.Unambiguous w := by
  intro q hq _ x hx hts haddr
  have hseq : x.seqnum = q.seqnum := by
    rw [(h x hx).carries.seqnum_eq, (h q hq).carries.seqnum_eq, hts]
  rw [hbuf.inj x hx q hq hseq] at haddr
  exact absurd haddr (Nat.lt_irrefl _)

/-- A packet received from a datagram is stored among packets that own their timestamps. -/
theorem Inv.stored_arrive (h : Inv crc32 input owner s) {d : Sent}
    (hd : Carried crc32 input owner s.clock s.sender.allocs d) {p : Pkt}
    (hp : received crc32 d.bytes = some p) (htr : p.getTr = 0) :
    ∀ q ∈ (Receiver.arrive s.receiver.w (s.receiver.alloc p)).front,
      Stored input owner s.clock s.sender.allocs q := by
  intro q hq
  rcases Receiver.mem_arrive hq with hq | rfl
  · exact h.stored q hq
  · obtain ⟨p', hp', -, hwhole⟩ := hd.received
    obtain rfl := Option.some.inj (hp.symm.trans hp')
    obtain ⟨-, hcarries, hts⟩ := hwhole htr
    have hts' : (s.receiver.alloc p).timestamp = d.pkt.timestamp := hts
    have howner := hd.stamped.2
    exact ⟨hts' ▸ hd.stamped.1, by rw [hts', howner]; exact hd.addr_lt,
      by rw [hts', howner]; exact hcarries⟩

/-- **The receiver comes through** on every datagram of the system. -/
theorem Inv.receive_ok (h : Inv crc32 input owner s) {d : Sent}
    (hd : Carried crc32 input owner s.clock s.sender.allocs d) :
    ∃ r, Receiver.mainLoop crc32 d.bytes s.receiver = .ok r := by
  rw [Receiver.mainLoop_ok_iff h.receiver]
  intro p hp hhas htr
  exact unambiguous_of_stored (h.receiver.arrive hhas htr) (h.stored_arrive hd hp htr)

/-! ### The steps, whatever the clock says -/

theorem Untimed.send (h : Untimed crc32 input s) {readings : List ℕ} {ready : Option (List Byte)}
    {sender : Sender.State} {sent : List Sent} (acks : List Reply) (clock : ℕ)
    (hloop : Sender.mainLoop crc32 ready readings s.sender = .ok (sender, sent, [])) :
    s.sender.allocs ≤ sender.allocs ∧ Untimed crc32 input
      { s with sender := sender, data := s.data ++ sent, acks := acks, clock := clock } := by
  obtain ⟨hinv', _, _, _, -, -, -, hallocs, hsent⟩ := Sender.mainLoop_spec h.sender hloop
  have hle : s.sender.allocs ≤ sender.allocs := by
    rcases hallocs with ⟨heq, -⟩ | ⟨heq, -⟩ <;> omega
  refine ⟨hle, hinv', h.receiver, fun d hd => ?_⟩
  rcases List.mem_append.1 hd with hd | hd
  · exact (h.conveyed d hd).mono hle
  · obtain ⟨hok, -⟩ := hsent d hd
    exact ⟨hok.carries, hok.addr_lt, .inl hok.bytes⟩

theorem Untimed.receive (h : Untimed crc32 input s) {d : Sent} {data : List Sent}
    {receiver : Receiver.State} {reply : Option (List Byte)} {acks : List Reply}
    (hdata : s.data = d :: data)
    (hloop : Receiver.mainLoop crc32 d.bytes s.receiver = .ok (receiver, reply)) :
    Untimed crc32 input { s with receiver := receiver, data := data, acks := acks } where
  sender := h.sender
  receiver := h.receiver.mainLoop hloop
  conveyed := fun d' hd' => h.conveyed d' (hdata ▸ List.mem_cons_of_mem d hd')

theorem Untimed.loseData (h : Untimed crc32 input s) (i : ℕ) :
    Untimed crc32 input { s with data := s.data.eraseIdx i } :=
  { h with conveyed := fun d hd => h.conveyed d (Links.mem_of_mem_eraseIdx hd) }

theorem Untimed.truncate (h : Untimed crc32 input s) {i : ℕ} {d : Sent} (hd : s.data[i]? = some d) :
    Untimed crc32 input
      { s with data := s.data.set i { d with bytes := truncated d.bytes } } := by
  refine { h with conveyed := fun d' hd' => ?_ }
  rcases List.mem_or_eq_of_mem_set hd' with hd' | rfl
  · exact h.conveyed d' hd'
  · exact (h.conveyed d (List.mem_of_getElem? hd)).truncate

theorem Untimed.step (h : Untimed crc32 input s) {e : Event} (hs : step crc32 s e = some s') :
    Untimed crc32 input s' := by
  cases e with
  | send hear readings =>
    obtain ⟨ready, acks, sender, sent, -, hloop, rfl⟩ := step_send hs
    exact (h.send _ _ hloop).2
  | receive =>
    obtain ⟨d, data, receiver, reply, hdata, hloop, rfl⟩ := step_receive hs
    exact h.receive hdata hloop
  | loseData i => exact (step_loseData hs).symm ▸ h.loseData i
  | loseAck i => exact (step_loseAck hs).symm ▸ { h with }
  | truncate i =>
    obtain ⟨d, hd, rfl⟩ := step_truncate hs
    exact h.truncate hd

theorem Untimed.init (input : List Chunk) : Untimed crc32 input (init input) where
  sender := Sender.Inv.init input
  receiver := Receiver.Inv.init
  conveyed := nofun

/-- What holds in every reachable state. -/
theorem untimed_of_reachable (h : (lts crc32).Reachable (init input) s) : Untimed crc32 input s :=
  h.invariant (I := Untimed crc32 input) (.init input) fun _ _ _ h hs => h.step hs

/-! ### The steps while the clock ticks -/

theorem Inv.send (h : Inv crc32 input owner s) {readings : List ℕ} {clock : ℕ}
    {ready : Option (List Byte)} {sender : Sender.State} {sent : List Sent} (acks : List Reply)
    (hadv : Sender.advance s.clock readings = some clock)
    (hloop : Sender.mainLoop crc32 ready readings s.sender = .ok (sender, sent, [])) :
    ∃ owner', Sender.Extends s.clock owner owner' ∧ Inv crc32 input owner'
      { s with sender := sender, data := s.data ++ sent, acks := acks, clock := clock } := by
  obtain ⟨hle, huntimed⟩ := h.toUntimed.send acks clock hloop
  obtain ⟨owner', hext, hfront, hstamps⟩ :=
    Sender.mainLoop_stamps h.sender h.clock_le h.buffered hadv hloop
  have hclock := Sender.advance_le hadv h.clock_le
  refine ⟨owner', hext, huntimed, hclock.2, hfront, fun d hd => ?_, fun q hq =>
    (h.stored q hq).mono hclock.1 hle hext⟩
  rcases List.mem_append.1 hd with hd | hd
  · exact (h.stamped d hd).mono hclock.1 hext
  · exact hstamps d hd

theorem Inv.receive (h : Inv crc32 input owner s) {d : Sent} {data : List Sent}
    {receiver : Receiver.State} {reply : Option (List Byte)} {acks : List Reply}
    (hdata : s.data = d :: data)
    (hloop : Receiver.mainLoop crc32 d.bytes s.receiver = .ok (receiver, reply)) :
    Inv crc32 input owner { s with receiver := receiver, data := data, acks := acks } := by
  have hd := h.data (hdata ▸ List.mem_cons_self ..)
  refine { h with
    toUntimed := h.toUntimed.receive hdata hloop
    stamped := fun d' hd' => h.stamped d' (hdata ▸ List.mem_cons_of_mem d hd')
    stored := fun q hq => ?_ }
  obtain ⟨rfl, -, -⟩ | ⟨p, -, -, -, rfl, -⟩ | ⟨p, hp, -, htr, hbuf, hs, -, -⟩ :=
    Receiver.mainLoop_cases h.receiver hloop
  · exact h.stored q hq
  · exact h.stored q hq
  · exact h.stored_arrive hd hp htr q ((Receiver.drain_buffered hbuf hs).2.1 hq)

theorem Inv.loseData (h : Inv crc32 input owner s) (i : ℕ) :
    Inv crc32 input owner { s with data := s.data.eraseIdx i } :=
  { h with
    toUntimed := h.toUntimed.loseData i
    stamped := fun d hd => h.stamped d (Links.mem_of_mem_eraseIdx hd) }

theorem Inv.truncate (h : Inv crc32 input owner s) {i : ℕ} {d : Sent} (hd : s.data[i]? = some d) :
    Inv crc32 input owner
      { s with data := s.data.set i { d with bytes := truncated d.bytes } } := by
  refine { h with toUntimed := h.toUntimed.truncate hd, stamped := fun d' hd' => ?_ }
  rcases List.mem_or_eq_of_mem_set hd' with hd' | rfl
  · exact h.stamped d' hd'
  · exact h.stamped d (List.mem_of_getElem? hd)

/-- What holds is kept by every step, for a map of owners that agrees on the old timestamps. -/
theorem Inv.step (h : Inv crc32 input owner s) {e : Event} (hticks : Ticks s e)
    (hs : step crc32 s e = some s') :
    ∃ owner', Sender.Extends s.clock owner owner' ∧ Inv crc32 input owner' s' := by
  cases e with
  | send hear readings =>
    obtain ⟨clock, ready, acks, sender, sent, hadv, -, hloop, rfl⟩ := step_send_of_ticks hticks hs
    exact h.send _ hadv hloop
  | receive =>
    obtain ⟨d, data, receiver, reply, hdata, hloop, rfl⟩ := step_receive hs
    exact ⟨owner, fun _ _ => rfl, h.receive hdata hloop⟩
  | loseData i => exact ⟨owner, fun _ _ => rfl, (step_loseData hs).symm ▸ h.loseData i⟩
  | loseAck i => exact ⟨owner, fun _ _ => rfl, (step_loseAck hs).symm ▸ { h with }⟩
  | truncate i =>
    obtain ⟨d, hd, rfl⟩ := step_truncate hs
    exact ⟨owner, fun _ _ => rfl, h.truncate hd⟩

theorem Inv.init (input : List Chunk) : Inv crc32 input owner (init input) where
  toUntimed := .init input
  clock_le := Nat.zero_le _
  buffered := nofun
  stamped := nofun
  stored := nofun

theorem Inv.reachable (h : Inv crc32 input owner s)
    (h' : ((lts crc32).restrict Ticks).Reachable s s') : ∃ owner', Inv crc32 input owner' s' := by
  refine h'.invariant (I := fun s => ∃ owner, Inv crc32 input owner s) ⟨owner, h⟩ ?_
  rintro s e s' ⟨owner, hinv⟩ ⟨hticks, hs⟩
  obtain ⟨owner', -, hinv'⟩ := hinv.step hticks hs
  exact ⟨owner', hinv'⟩

/-- What holds in every state that is reached while the clock ticks. -/
theorem exists_inv (h : ((lts crc32).restrict Ticks).Reachable (init input) s) :
    ∃ owner, Inv crc32 input owner s := by
  have hinit : Inv crc32 input (fun _ => 0) (init input) := .init input
  exact hinit.reachable h

end System

end LosslessTransport
