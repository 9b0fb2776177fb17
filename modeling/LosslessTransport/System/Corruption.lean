import LosslessTransport.Packet.Corruption
import LosslessTransport.System.Network

/-!
# Over a network that corrupts

The network of `Network`, which may also alter a datagram on its way to the receiver: damage in one
place that a checksum covers, or one flipped bit anywhere (`Network.Altered`).

With zlib's CRC-32 that gives it no power: whatever it makes of a datagram is refused, or is a
datagram that has been sent, whole or truncated (`Network.received_of_altered`).  So what it can
reach can be reached without corruption, and what has been written stays a prefix of the input
(`Network.output_prefix_of_altered`).
-/

namespace LosslessTransport

namespace Network

open Sender (Chunk Sent)

/-- The network may make the second datagram of the first. -/
def Altered (d d' : List Byte) : Prop :=
  d'.length = d.length ∧
    (Wire.Corrupted d d' ∨ ∃ k i, k < d.length ∧ i < 8 ∧ d' = Wire.flip d k i)

/-- A datagram as it arrives when it is not altered. -/
def intact (d : Sent) (whole : Bool) : List Byte :=
  if whole then d.bytes else System.truncated d.bytes

/-- What can happen. -/
inductive NoisyEvent where
  /-- Something without corruption. -/
  | clean (e : Event)
  /-- The datagram sent as number `i` arrives, whole or truncated, altered to this. -/
  | alter (i : ℕ) (whole : Bool) (datagram : List Byte)

/-- The network that corrupts. -/
def noisy (crc32 : List Byte → BitVec 32) : LTS Network NoisyEvent where
  step s e s' :=
    match e with
    | .clean e => step crc32 s e = some s'
    | .alter i whole datagram => ∃ d, s.sent[i]? = some d ∧ Altered (intact d whole) datagram ∧
        receive crc32 s datagram = some s'

/-- The datagram that arrives, altered or not, is fresh. -/
def NoisyFresh (s : Network) : NoisyEvent → Prop
  | .clean e => Fresh s e
  | .alter i whole _ => Fresh s (.deliver i whole)

variable {crc32 : List Byte → BitVec 32} {input : List Chunk} {s s' : Network} {d : Sent} {n : ℕ}
  {datagram : List Byte}

/-! ### What is sent -/

theorem received_eq_none (hstatus : Wire.status crc32 datagram ≠ .ok)
    (hlen : datagram.length ≤ maxPacketSize) : received crc32 datagram = none := by
  cases hrec : received crc32 datagram with
  | none => rfl
  | some p =>
    have hdec := decode_of_received hrec
    rw [List.take_of_length_le hlen] at hdec
    exact absurd (Pkt.status_of_decode hdec) hstatus

/-- The image of a DATA packet is accepted. -/
theorem status_of_image {p : Pkt} (htype : p.getType = ptypeData) (hle : p.getLength.toNat ≤ 512) :
    Wire.status crc32 (p.sealed crc32).image = .ok ∧
      (p.sealed crc32).image.length ≤ maxPacketSize := by
  have hne : p.getType ≠ 0 := htype.symm ▸ by decide
  have hlen : (p.sealed crc32).image.length = p.getTotalSize :=
    Pkt.length_image (p := p.sealed crc32) hle
  refine ⟨by rw [Pkt.status_image crc32 hne hle, if_pos (.inl htype)], ?_⟩
  rw [hlen, p.getTotalSize_eq, maxPacketSize_eq]
  split_ifs <;> omega

/-- A datagram that arrives unaltered is accepted. -/
theorem status_intact (hd : d.Ok crc32 input n) (whole : Bool) :
    Wire.status crc32 (intact d whole) = .ok ∧ (intact d whole).length ≤ maxPacketSize := by
  cases whole with
  | true =>
    rw [intact, if_pos rfl, hd.bytes]
    exact status_of_image hd.carries.type hd.carries.getLength_le
  | false =>
    have hzero : d.pkt.pkt.withTr.getLength = 0 := Pkt.getLength_of_tr rfl
    rw [intact, if_neg (by decide), hd.bytes, System.truncated_image]
    refine status_of_image hd.carries.type ?_
    rw [hzero]
    decide

/-! ### One flipped bit -/

theorem set_tr_of_clear :
    ∀ b : Byte, b.extractLsb' 5 1 = 0 → b ||| 0x20 = b ^^^ BitVec.twoPow 8 5 := by
  decide +kernel

theorem length_truncated (bytes : List Byte) :
    Wire.length (System.truncated bytes) = Wire.length bytes := by
  rw [Wire.length, Wire.be, System.truncated, List.drop_modifyHead_of_pos (by decide), ← Wire.be,
    Wire.be_take (by decide), Wire.length]

/-- Truncating a packet without payload flips TR. -/
theorem truncated_eq_flip (hd : d.Ok crc32 input n) (hzero : Wire.length d.bytes = 0) :
    System.truncated d.bytes = Wire.flip d.bytes 0 5 := by
  have hok := Wire.status_eq_ok_iff.1 (status_intact hd true).1
  have htr : Wire.tr d.bytes = 0 := by
    rw [hd.bytes, Pkt.image, Wire.tr_header]
    exact hd.carries.tr
  have hsize := hok.size
  rw [intact, if_pos rfl, Wire.size, if_pos (.inr hzero)] at hsize
  unfold Wire.tr at htr
  rw [System.truncated, headerSize_eq, List.take_of_length_le hsize.le]
  cases hbytes : d.bytes with
  | nil => rfl
  | cons b bs =>
    rw [hbytes] at htr
    exact congrArg (· :: bs) (set_tr_of_clear b htr)

/-- **What corruption makes of a datagram** is refused, or is what arrives without corruption. -/
theorem received_of_altered (hd : d.Ok Crc32.crc32 input n) {whole : Bool}
    (h : Altered (intact d whole) datagram) :
    received Crc32.crc32 datagram = none ∨ ∃ whole', datagram = intact d whole' := by
  obtain ⟨hstatus, hmax⟩ := status_intact hd whole
  obtain ⟨hlen, hcorrupted | ⟨k, i, hk, hi, rfl⟩⟩ := h
  · exact .inl (received_eq_none (Wire.status_of_corrupted hstatus hcorrupted hlen)
      (hlen.trans_le hmax))
  by_cases hflip : Wire.status Crc32.crc32 (Wire.flip (intact d whole) k i) = .ok
  · -- the TR bit of a packet without payload
    obtain ⟨rfl, rfl, -, hzero⟩ := (Wire.status_flip_iff hstatus hk hi).1 hflip
    right
    cases whole with
    | true => exact ⟨false, (truncated_eq_flip hd hzero).symm⟩
    | false =>
      rw [intact, if_neg (by decide), length_truncated] at hzero
      refine ⟨true, ?_⟩
      rw [intact, if_neg (by decide), truncated_eq_flip hd hzero, Wire.flip_flip, intact,
        if_pos rfl]
  · exact .inl (received_eq_none hflip (hlen.trans_le hmax))

/-! ### Simulation -/

/-- A datagram that has been sent, as an event. -/
theorem step_deliver {i : ℕ} (hd : s.sent[i]? = some d) (whole : Bool) :
    step crc32 s (.deliver i whole) = receive crc32 s (intact d whole) := by
  have harr : arriving crc32 s (.deliver i whole) = some (intact d whole) := by
    rw [arriving, hd]
    rfl
  exact congrArg (Option.bind · (receive crc32 s)) harr

theorem step_noise (hnone : received crc32 datagram = none) :
    step crc32 s (.noise datagram) = receive crc32 s datagram := by
  have harr : arriving crc32 s (.noise datagram) = some datagram := by
    rw [arriving, hnone]
    rfl
  exact congrArg (Option.bind · (receive crc32 s)) harr

/-- **A step with corruption is a step without**, and a fresh one if it was fresh. -/
theorem step_of_noisy (h : Inv Crc32.crc32 input s) {e : NoisyEvent}
    (hs : (noisy Crc32.crc32).step s e s') :
    ∃ e', step Crc32.crc32 s e' = some s' ∧ (NoisyFresh s e → Fresh s e') := by
  cases e with
  | clean e => exact ⟨e, hs, id⟩
  | alter i whole datagram =>
    obtain ⟨d, hd, halt, hrecv⟩ := hs
    obtain hnone | ⟨whole', rfl⟩ :=
      received_of_altered (h.stream.made d (List.mem_of_getElem? hd)) halt
    · exact ⟨.noise datagram, (step_noise hnone).trans hrecv, fun _ => trivial⟩
    · exact ⟨.deliver i whole', (step_deliver hd whole').trans hrecv, id⟩

/-- **Corruption is no worse than loss**: what can be reached over a network that also corrupts can
be reached without corruption. -/
theorem reachable_of_noisy
    (h : ((noisy Crc32.crc32).restrict NoisyFresh).Reachable (init input) s) :
    ((lts Crc32.crc32).restrict Fresh).Reachable (init input) s := by
  refine h.invariant (.refl _) fun s e s' hreach ⟨hfresh, hs⟩ => ?_
  obtain ⟨e', hs', hfresh'⟩ := step_of_noisy (inv_of_fresh hreach) hs
  exact hreach.tail (l := e') ⟨hfresh' hfresh, hs'⟩

/-- **Nothing corrupted is written**, with zlib's CRC-32 and as long as what arrives is fresh. -/
theorem output_prefix_of_altered (hcrc : crc32 = Crc32.crc32)
    (h : ((noisy crc32).restrict NoisyFresh).Reachable (init input) s) :
    ((lts crc32).restrict Fresh).Reachable (init input) s ∧
      s.receiver.outfile.flatten <+: (input.map Chunk.bytes).flatten := by
  subst hcrc
  have hreach := reachable_of_noisy h
  exact ⟨hreach, (inv_of_fresh hreach).begins_input⟩

/-- The datagram of a file of one byte. -/
def single : List Byte :=
  [0x40, 0, 0, 1, 0, 0x44, 0xAA, 0x21, 0x1E, 0xCD, 0x55, 0x15, 0x60, 0x9F, 0xB0, 0x8E, 0xD5]

/-- The sender has sent it. -/
theorem exists_single :
    ∃ s d, step Crc32.crc32 (init [System.byte 0x60]) (.send none [0, 1]) = some s ∧
      s.sent[0]? = some d ∧ d.pkt.addr = 0 ∧ d.bytes = single ∧ s.receiver = Receiver.init := by
  have hrun : (step Crc32.crc32 (init [System.byte 0x60]) (.send none [0, 1])).map
      (fun s => (s.sent.map fun d => (d.pkt.addr, d.bytes), s.receiver)) =
      some ([(0, single)], Receiver.init) := by decide +kernel
  obtain ⟨s, hs, hsent⟩ := Option.map_eq_some_iff.1 hrun
  obtain ⟨hsent, hreceiver⟩ := Prod.mk.inj hsent
  have hget : s.sent[0]?.map (fun d => (d.pkt.addr, d.bytes)) = some (0, single) := by
    rw [← List.getElem?_map, hsent]
    rfl
  obtain ⟨d, hd, hpair⟩ := Option.map_eq_some_iff.1 hget
  obtain ⟨haddr, hbytes⟩ := Prod.mk.inj hpair
  exact ⟨s, d, hs, hd, haddr, hbytes, hreceiver⟩

/-- It arrives with the lowest bit of its payload flipped, and then as it was. -/
theorem output_prefix_of_altered_flipped :
    ∃ s s' s'', (noisy Crc32.crc32).step s (.alter 0 true (Wire.flip single 12 0)) s' ∧
      (noisy Crc32.crc32).step s' (.clean (.deliver 0 true)) s'' ∧
      s''.receiver.outfile = [[0x60]] ∧
      s''.receiver.outfile.flatten <+: [0x60] := by
  obtain ⟨s, d, hs, hd, haddr, hbytes, hreceiver⟩ := exists_single
  have hintact : intact d true = single := by rw [intact, if_pos rfl, hbytes]
  have hfresh : ∀ s', s'.sent = s.sent → s'.receiver.next = 0 → Fresh s' (.deliver 0 true) := by
    intro s' hsame hnext d' hd'
    rw [hsame, hd] at hd'
    obtain rfl := Option.some.inj hd'
    omega
  -- the altered datagram is refused
  obtain ⟨s', hrecv, hsame, hreceiver'⟩ : ∃ s',
      receive Crc32.crc32 s (Wire.flip single 12 0) = some s' ∧ s'.sent = s.sent ∧
        s'.receiver = { Receiver.init with allocs := 1 } := by
    have hnone : received Crc32.crc32 (Wire.flip single 12 0) = none :=
      received_eq_none (by decide +kernel) (by decide)
    refine ⟨{ s with receiver := { Receiver.init with allocs := 1 } }, ?_, rfl, rfl⟩
    rw [receive, hreceiver, Receiver.mainLoop_of_not_received hnone]
    rfl
  have halter : (noisy Crc32.crc32).step s (.alter 0 true (Wire.flip single 12 0)) s' := by
    refine ⟨d, hd, ?_, hrecv⟩
    rw [hintact]
    exact ⟨Wire.length_flip .., .inr ⟨12, 0, by decide, by decide, rfl⟩⟩
  -- the datagram itself is not
  obtain ⟨s'', hdeliver, hout⟩ : ∃ s'', step Crc32.crc32 s' (.deliver 0 true) = some s'' ∧
      s''.receiver.outfile = [[0x60]] := by
    have hloop : (Receiver.mainLoop Crc32.crc32 single
        { Receiver.init with allocs := 1 }).toOption.map (fun r => r.1.outfile) =
        some [[0x60]] := by decide +kernel
    obtain ⟨⟨receiver, reply⟩, hok, hout⟩ := Option.map_eq_some_iff.1 hloop
    refine ⟨{ s' with receiver := receiver }, ?_, hout⟩
    rw [step_deliver (hsame ▸ hd), hintact, receive, hreceiver', ok_of_toOption hok]
  have h₁ : ((noisy Crc32.crc32).restrict NoisyFresh).Reachable (init [System.byte 0x60]) s :=
    (LTS.Reachable.refl _).tail (l := .clean (.send none [0, 1])) ⟨trivial, hs⟩
  have h₂ := h₁.tail (l := .alter 0 true (Wire.flip single 12 0))
    ⟨hfresh s rfl (hreceiver ▸ rfl), halter⟩
  have h₃ := h₂.tail (l := .clean (.deliver 0 true)) ⟨hfresh s' hsame (hreceiver' ▸ rfl), hdeliver⟩
  exact ⟨s, s', s'', halter, hdeliver, hout, (output_prefix_of_altered rfl h₃).2⟩

end Network

end LosslessTransport
