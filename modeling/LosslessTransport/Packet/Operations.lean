import LosslessTransport.Lib.Crc32
import LosslessTransport.Lib.Lts
import LosslessTransport.Packet.RoundTrip

/-!
# One packet through setters and decodes

`Pkt.Op` is a call that changes a packet: a setter, accepted or refused, or a `pkt_decode` of some
datagram that returns `PKT_OK`.  `Pkt.keeps_or_resets_of_apply` says what a setter does to the
stored length and to the payload slots, which is all that the two invariants of this file need:

* the stored length fits the payload array, exactly as long as no truncated datagram is accepted
  whose length field exceeds 512 (`Pkt.lengthOk_iff`);
* the slots from the stored length on are zero, exactly as long as a datagram that is decoded does
  not leave behind a part of an earlier payload (`Pkt.unusedZero_iff`).

`Pkt.decodesAlike_iff` compares what one datagram makes of two packets: the getters agree but for
`pkt_get_crc2`, which reads what was there before when the datagram has no payload.
-/

namespace LosslessTransport

open CMem

namespace Pkt

/-- A call that changes a packet. -/
inductive Op where
  | setType (type : BitVec 32)
  | setTr (tr : BitVec 8)
  | setWindow (window : BitVec 8)
  | setSeqnum (seqnum : BitVec 8)
  | setLength (length : BitVec 16)
  | setTimestamp (timestamp : BitVec 32)
  | setCrc1 (crc1 : BitVec 32)
  | setCrc2 (crc2 : BitVec 32)
  | setPayload (data : Option (List Byte)) (length : BitVec 16)
  | decode (datagram : List Byte)

variable (crc32 : List Byte → BitVec 32)

/-- The packet after the call; there is none when `pkt_decode` refuses the datagram, or when a
setter reads past the caller's buffer. -/
def apply (p : Pkt) : Op → Option Pkt
  | .setType type => some (p.setType type).2
  | .setTr tr => some (p.setTr tr).2
  | .setWindow window => some (p.setWindow window).2
  | .setSeqnum seqnum => some (p.setSeqnum seqnum).2
  | .setLength length => some (p.setLength length).2
  | .setTimestamp timestamp => some (p.setTimestamp timestamp).2
  | .setCrc1 crc1 => some (p.setCrc1 crc1).2
  | .setCrc2 crc2 => some (p.setCrc2 crc2).2
  | .setPayload data length => (p.setPayload data length).map Prod.snd
  | .decode d =>
    match Pkt.decode crc32 (some d) d.length p with
    | some (.ok, q) => some q
    | _ => none

/-- The length field in host order, whatever TR is. -/
def storedLength (p : Pkt) : ℕ := (ntohs p.length).toNat

variable {crc32} {p q : Pkt}

/-! ### What a call does -/

/-- The call leaves the length and the payload as they are. -/
def Keeps (p q : Pkt) : Prop := q.length = p.length ∧ q.payload = p.payload

/-- The call sets a length that fits, and zeroes the slots from there on. -/
def Resets (q : Pkt) : Prop :=
  q.storedLength ≤ 512 ∧ ∀ b ∈ q.payload.cells.drop q.storedLength, b = 0

theorem setLength_of_lt {length : BitVec 16} (h : 512 < length.toNat) :
    p.setLength length = (.eLength, p) := dif_pos h

theorem setLength_of_le {length : BitVec 16} (h : length.toNat ≤ 512) :
    (p.setLength length).1 = .ok ∧ (p.setLength length).2.storedLength = length.toNat ∧
      (p.setLength length).2.payload.cells =
        p.payload.cells.take length.toNat ++ List.replicate (512 - length.toNat) 0 := by
  have hle : ¬ maxPayloadSize < length.toNat := Nat.not_lt.2 h
  rw [setLength, dif_neg hle]
  exact ⟨rfl, congrArg BitVec.toNat (ntohs_htons length), rfl⟩

theorem resets_of_cells {n : ℕ} {pre : List Byte} (hn : n ≤ 512) (hlen : q.storedLength = n)
    (hpre : pre.length = n) (hcells : q.payload.cells = pre ++ List.replicate (512 - n) 0) :
    q.Resets := by
  refine ⟨hlen ▸ hn, fun b hb => ?_⟩
  rw [hlen, hcells, ← hpre, List.drop_left] at hb
  exact List.eq_of_mem_replicate hb

theorem keeps_or_resets_setLength (p : Pkt) (length : BitVec 16) :
    p.Keeps (p.setLength length).2 ∨ (p.setLength length).2.Resets := by
  rcases Nat.lt_or_ge 512 length.toNat with hlt | hle
  · rw [setLength_of_lt hlt]
    exact .inl ⟨rfl, rfl⟩
  · obtain ⟨-, hlen, hcells⟩ := setLength_of_le (p := p) hle
    refine .inr (resets_of_cells hle hlen ?_ hcells)
    rw [List.length_take, p.payload.length_cells, maxPayloadSize_eq]
    omega

theorem keeps_or_resets_setPayload {data : Option (List Byte)} {length : BitVec 16}
    {r : PktStatusCode × Pkt} (hr : p.setPayload data length = some r) :
    p.Keeps r.2 ∨ r.2.Resets := by
  simp only [setPayload, Option.bind_eq_bind] at hr
  generalize (if data = none then 0 else length) = actual at hr
  rcases Nat.lt_or_ge 512 actual.toNat with hlt | hle
  · rw [setLength_of_lt hlt] at hr
    cases hr
    exact .inl ⟨rfl, rfl⟩
  · obtain ⟨hok, hlen, hcells⟩ := setLength_of_le (p := p) hle
    rw [if_neg (not_not.2 hok)] at hr
    obtain ⟨src, hsrc, hr⟩ := Option.bind_eq_some_iff.1 hr
    obtain ⟨payload, hwrite, hr⟩ := Option.bind_eq_some_iff.1 hr
    cases hr
    have hsrclen : src.length = actual.toNat := length_of_readAt hsrc
    refine .inr (resets_of_cells hle hlen hsrclen ?_)
    -- the copy fills the slots up to the length, the others are still zero
    have htake : (p.payload.cells.take actual.toNat).length = actual.toNat := by
      rw [List.length_take, p.payload.length_cells, maxPayloadSize_eq]
      omega
    rw [Block.cells_of_write hwrite, hcells, hsrclen, List.take_zero, List.nil_append, Nat.zero_add,
      List.drop_left' htake]

/-- **What a call does** to the stored length and the slots, when it is no `pkt_decode`. -/
theorem keeps_or_resets_of_apply {op : Op} (hop : ∀ d, op ≠ .decode d)
    (h : p.apply crc32 op = some q) : p.Keeps q ∨ q.Resets := by
  cases op with
  | setType | setTr | setWindow =>
    cases h
    simp only [setType, setTr, setWindow]
    split_ifs <;> exact .inl ⟨rfl, rfl⟩
  | setSeqnum | setTimestamp | setCrc1 | setCrc2 =>
    cases h
    exact .inl ⟨rfl, rfl⟩
  | setLength length =>
    cases h
    exact keeps_or_resets_setLength p length
  | setPayload data length =>
    obtain ⟨r, hr, rfl⟩ := Option.map_eq_some_iff.1 h
    exact keeps_or_resets_setPayload hr
  | decode d => exact absurd rfl (hop d)

theorem decode_of_apply {d : List Byte} (h : p.apply crc32 (.decode d) = some q) :
    decode crc32 (some d) d.length p = some (.ok, q) := by
  rw [apply] at h
  split at h
  · rename_i hdec
    rw [hdec, Option.some.inj h]
  · cases h

/-- The fields of an accepted datagram are those of the packet. -/
theorem Accepted.wire {d : List Byte} (h : q.Accepted crc32 d) :
    Wire.tr d = q.tr ∧ Wire.length d = q.storedLength := by
  rw [h.bytes, image]
  exact ⟨Wire.tr_header q _, Wire.length_header q _⟩

/-! ### The stored length -/

/-- The stored length fits the payload array, so neither `pkt_encode` into any buffer nor a reader
of `pkt_get_payload` and `pkt_get_length` leaves the array. -/
structure StaysInside (crc32 : List Byte → BitVec 32) (p : Pkt) : Prop where
  stored_le : p.storedLength ≤ 512
  encode : ∀ buf c, c ≤ buf.length → ∃ r, p.encode crc32 buf c = some r
  payload : ∃ bytes, readAt p.payload.cells 0 p.getLength.toNat = some bytes

/-- When the call decodes a truncated datagram, its length field is at most 512. -/
def Op.LengthFits (op : Op) : Prop := ∀ d, op = .decode d → Wire.tr d = 1 → Wire.length d ≤ 512

theorem exists_encode (crc32 : List Byte → BitVec 32) (h : p.getLength.toNat ≤ 512)
    (buf : List Byte) {c : ℕ} (hc : c ≤ buf.length) : ∃ r, p.encode crc32 buf c = some r := by
  by_cases htype : p.getType = 0
  · exact ⟨_, if_pos htype⟩
  rcases Nat.lt_or_ge c p.getTotalSize with hlt | hle
  · exact ⟨_, encode_of_lt crc32 htype hlt⟩
  · exact ⟨_, encode_of_le crc32 htype h hle hc⟩

theorem staysInside_iff : p.StaysInside crc32 ↔ p.storedLength ≤ 512 := by
  refine ⟨fun h => h.stored_le, fun h => ?_⟩
  have hle : p.getLength.toNat ≤ 512 := LengthOk.getLength_le h
  refine ⟨h, fun buf c hc => exists_encode crc32 hle buf hc, _, readAt_of_le ?_⟩
  rw [p.payload.length_cells, Nat.zero_add]
  exact hle

/-- One call. -/
theorem stored_le_apply {op : Op} (hp : p.storedLength ≤ 512) (h : p.apply crc32 op = some q) :
    q.storedLength ≤ 512 ↔ op.LengthFits := by
  by_cases hop : ∃ d, op = .decode d
  · obtain ⟨d, rfl⟩ := hop
    obtain ⟨hacc, -⟩ := accepted_of_decode crc32 (decode_of_apply h)
    obtain ⟨htr, hlen⟩ := hacc.wire
    have hle := hacc.length_le
    constructor
    · rintro hq d' heq -
      cases heq
      exact hlen ▸ hq
    · intro hfits
      rcases bit_cases q.tr with h0 | h1
      · rwa [getLength_of_not_tr h0] at hle
      · exact hlen ▸ hfits d rfl (htr.trans h1)
  · have hne : ∀ d, op ≠ .decode d := fun d hd => hop ⟨d, hd⟩
    refine ⟨fun _ d hd => absurd hd (hne d), fun _ => ?_⟩
    rcases keeps_or_resets_of_apply hne h with hkeep | hreset
    · rwa [storedLength, hkeep.1]
    · exact hreset.1

/-- **When the stored length fits the payload array**: in every state of a run of setters and
decodes, exactly when each truncated datagram that is accepted has a length field of at most
512. -/
theorem lengthOk_iff (crc32 : List Byte → BitVec 32) (ops : List Op) :
    LTS.Always (apply crc32) (StaysInside crc32) new ops ↔
      LTS.Each (apply crc32) (fun _ op => op.LengthFits) new ops := by
  refine LTS.always_iff_each (fun p op q hp h => ?_) ?_
  · rw [staysInside_iff] at hp ⊢
    exact stored_le_apply hp h
  · rw [staysInside_iff]
    exact Built.new.lengthOk

/-- A truncated datagram with length field 513 is accepted; once TR is cleared, encoding the packet
reads past the array. -/
theorem length_overflows_after_truncated :
    ∃ p, LTS.run (apply Crc32.crc32) new
        [.decode [0x60, 0, 0x02, 0x01, 0, 0, 0, 0, 0x3c, 0x17, 0x95, 0x3f], .setTr 0] = some p ∧
      p.storedLength = 513 ∧ p.encode Crc32.crc32 (List.replicate 529 0) 529 = none := by
  have hrun : (LTS.run (apply Crc32.crc32) new
      [.decode [0x60, 0, 0x02, 0x01, 0, 0, 0, 0, 0x3c, 0x17, 0x95, 0x3f], .setTr 0]).map (fun p =>
      (p.storedLength, (p.encode Crc32.crc32 (List.replicate 529 0) 529).isNone)) =
      some (513, true) := by
    decide +kernel
  obtain ⟨p, hp, heq⟩ := Option.map_eq_some_iff.1 hrun
  obtain ⟨hlen, hnone⟩ := Prod.mk.inj heq
  exact ⟨p, hp, hlen, Option.isNone_iff_eq_none.1 hnone⟩

/-! ### The unused slots -/

/-- The slots from the stored length on are zero, so a larger length exposes only zeros. -/
structure UnusedZero (p : Pkt) : Prop where
  zero : ∀ b ∈ p.payload.cells.drop p.storedLength, b = 0
  exposed : ∀ length, p.storedLength ≤ length.toNat →
    ∀ b ∈ (p.setLength length).2.payload.cells.drop p.storedLength, b = 0

theorem unusedZero_iff_zero :
    p.UnusedZero ↔ ∀ b ∈ p.payload.cells.drop p.storedLength, b = 0 := by
  refine ⟨fun h => h.zero, fun h => ⟨h, fun length hle b hb => ?_⟩⟩
  rcases Nat.lt_or_ge 512 length.toNat with hlt | hge
  · rw [setLength_of_lt hlt] at hb
    exact h b hb
  · obtain ⟨-, -, hcells⟩ := setLength_of_le (p := p) hge
    rw [hcells] at hb
    rw [List.drop_append] at hb
    rcases List.mem_append.1 hb with hb | hb
    · rw [List.drop_take] at hb
      exact h b (List.mem_of_mem_take hb)
    · exact List.eq_of_mem_replicate (List.mem_of_mem_drop hb)

/-- The packet after a call, where only whole datagrams are decoded. -/
def applyWhole (crc32 : List Byte → BitVec 32) (p : Pkt) : Op → Option Pkt
  | .decode d => if Wire.tr d = 0 then p.apply crc32 (.decode d) else none
  | op => p.apply crc32 op

/-- When the call decodes a datagram, the bytes of the packet's payload that the datagram does not
reach are zero. -/
def Op.LeavesZero (p : Pkt) (op : Op) : Prop :=
  ∀ d, op = .decode d → ∀ b ∈ (p.payload.cells.take p.storedLength).drop (Wire.length d), b = 0

theorem apply_of_applyWhole {op : Op} (h : p.applyWhole crc32 op = some q) :
    p.apply crc32 op = some q ∧ ∀ d, op = .decode d → Wire.tr d = 0 := by
  cases op with
  | decode d =>
    rw [applyWhole] at h
    split_ifs at h with htr
    refine ⟨h, fun d' heq => ?_⟩
    cases heq
    exact htr
  | _ => exact ⟨h, nofun⟩

/-- The slots from index `n` on: those of the payload, and the unused ones. -/
theorem mem_drop_cells (p : Pkt) (n : ℕ)
    (hzero : ∀ b ∈ p.payload.cells.drop p.storedLength, b = 0) :
    (∀ b ∈ p.payload.cells.drop n, b = 0) ↔
      ∀ b ∈ (p.payload.cells.take p.storedLength).drop n, b = 0 := by
  have hsplit : p.payload.cells.drop n = (p.payload.cells.take p.storedLength).drop n ++
      (p.payload.cells.drop p.storedLength).drop (n - (p.payload.cells.take p.storedLength).length)
      := by
    rw [← List.drop_append, List.take_append_drop]
  rw [hsplit]
  constructor
  · intro h b hb
    exact h b (List.mem_append_left _ hb)
  · intro h b hb
    rcases List.mem_append.1 hb with hb | hb
    · exact h b hb
    · exact hzero b (List.mem_of_mem_drop hb)

/-- One call. -/
theorem unused_zero_apply {op : Op} (hp : ∀ b ∈ p.payload.cells.drop p.storedLength, b = 0)
    (h : p.applyWhole crc32 op = some q) :
    (∀ b ∈ q.payload.cells.drop q.storedLength, b = 0) ↔ op.LeavesZero p := by
  obtain ⟨happly, hwhole⟩ := apply_of_applyWhole h
  by_cases hop : ∃ d, op = .decode d
  · obtain ⟨d, rfl⟩ := hop
    obtain ⟨hacc, hrest⟩ := accepted_of_decode crc32 (decode_of_apply happly)
    obtain ⟨htr, hlen⟩ := hacc.wire
    have hget : q.getLength.toNat = q.storedLength :=
      congrArg BitVec.toNat (getLength_of_not_tr (htr.symm.trans (hwhole d rfl)))
    rw [hget] at hrest
    rw [hrest, ← hlen, mem_drop_cells p _ hp]
    constructor
    · intro hzero d' heq
      cases heq
      exact hzero
    · exact fun hzero => hzero d rfl
  · have hne : ∀ d, op ≠ .decode d := fun d hd => hop ⟨d, hd⟩
    refine ⟨fun _ d hd => absurd hd (hne d), fun _ => ?_⟩
    rcases keeps_or_resets_of_apply hne happly with hkeep | hreset
    · rwa [hkeep.2, storedLength, hkeep.1]
    · exact hreset.2

/-- **When the unused slots are zero**: in every state of a run of setters and decodes of whole
datagrams, exactly when each datagram that is accepted leaves only zeros of the earlier payload. -/
theorem unusedZero_iff (crc32 : List Byte → BitVec 32) (ops : List Op) :
    LTS.Always (applyWhole crc32) UnusedZero new ops ↔
      LTS.Each (applyWhole crc32) (fun p op => op.LeavesZero p) new ops := by
  refine LTS.always_iff_each (fun p op q hp h => ?_) ?_
  · rw [unusedZero_iff_zero]
    exact unused_zero_apply hp.zero h
  · rw [unusedZero_iff_zero]
    intro b hb
    exact List.eq_of_mem_replicate (List.mem_of_mem_drop hb)

/-- A packet with a payload is decoded into again, from a datagram without payload: its first byte
is still there, and setting the length to 1 exposes it. -/
theorem leftover_after_decode :
    ∃ p, LTS.run (applyWhole Crc32.crc32) new [.setPayload (some [0x61]) 1,
        .decode [0x40, 0, 0, 0, 0, 0, 0, 0, 0x4c, 0xbf, 0x1d, 0x84]] = some p ∧
      p.storedLength = 0 ∧ ¬ p.UnusedZero ∧ (p.setLength 1).2.payloadBytes = [0x61] := by
  have hrun : (LTS.run (applyWhole Crc32.crc32) new [.setPayload (some [0x61]) 1,
      .decode [0x40, 0, 0, 0, 0, 0, 0, 0, 0x4c, 0xbf, 0x1d, 0x84]]).map (fun p =>
      (p.storedLength, p.payload.cells.head?, (p.setLength 1).2.payloadBytes)) =
      some (0, some 0x61, [0x61]) := by
    decide +kernel
  obtain ⟨p, hp, heq⟩ := Option.map_eq_some_iff.1 hrun
  obtain ⟨hlen, heq⟩ := Prod.mk.inj heq
  obtain ⟨hhead, hbytes⟩ := Prod.mk.inj heq
  refine ⟨p, hp, hlen, fun hzero => ?_, hbytes⟩
  have hmem : (0x61 : Byte) ∈ p.payload.cells.drop p.storedLength := by
    rw [hlen]
    exact List.mem_of_mem_head? hhead
  exact absurd (hzero.zero _ hmem) (by decide)

/-! ### One datagram, two packets -/

/-- A datagram that is accepted has come as far as the payload stage. -/
theorem decodePayload_of_decode {q₀ : Pkt} {rest : List Byte}
    (h : decode crc32 (some (q₀.header ++ rest)) (q₀.header ++ rest).length p = some (.ok, q)) :
    q₀.getLength.toNat ≤ 512 ∧ 12 + rest.length = q₀.getTotalSize ∧
      (q₀.overlay p).decodePayload crc32 (q₀.header ++ rest) = some (.ok, q) := by
  rw [decode_header] at h
  split_ifs at h with htype htr hle hsize hcrc
  · cases h
  · cases h
  · cases h
  · cases h
  · cases h
  · exact ⟨Nat.le_of_not_lt hle, not_not.1 hsize, h⟩

/-- A datagram without payload leaves `crc2` as it was. -/
theorem crc2_of_decode {d : List Byte} (h : decode crc32 (some d) d.length p = some (.ok, q))
    (hz : q.getLength.toNat = 0) : q.crc2 = p.crc2 := by
  by_cases hd : d.length < 12
  · simp [decode, hd] at h
  obtain ⟨q₀, rest, rfl⟩ := exists_header (Nat.le_of_not_lt hd)
  obtain ⟨hle, hsize, hpay⟩ := decodePayload_of_decode h
  have hhead : (q₀.overlay p).header = q₀.header := header_overlay q₀ p
  rcases Nat.eq_zero_or_pos q₀.getLength.toNat with h0 | hpos
  · have hdec := decodePayload_zero crc32 (q := q₀.overlay p) rest h0
    rw [hhead, hpay, Option.some.injEq, Prod.mk.injEq] at hdec
    rw [hdec.2]
    rfl
  · obtain ⟨body, tail, rfl, hbody, htail⟩ := exists_body hsize hpos
    obtain ⟨payload, -, hdec⟩ := decodePayload_pos crc32 (q := q₀.overlay p) hpos hle hbody htail
    rw [hhead, hpay, Option.some.injEq, Prod.mk.injEq] at hdec
    -- its length is the one of the header, which is not zero
    have hlen : q.getLength = q₀.getLength := by
      rw [hdec.2]
      rfl
    rw [hlen] at hz
    omega

/-- No getter tells the two packets apart. -/
structure ReadsSame (p q : Pkt) : Prop extends Agree p q where
  crc1 : p.getCrc1 = q.getCrc1
  crc2 : p.getCrc2 = q.getCrc2
  null : p.getPayload = none ↔ q.getPayload = none

/-- Decoding the datagram into either packet gives the same status and, when it is accepted, the
same values of all getters. -/
def DecodesAlike (crc32 : List Byte → BitVec 32) (d : List Byte) (p₁ p₂ : Pkt) : Prop :=
  ∃ st q₁ q₂, decode crc32 (some d) d.length p₁ = some (st, q₁) ∧
    decode crc32 (some d) d.length p₂ = some (st, q₂) ∧ (st = .ok → q₁.ReadsSame q₂)

/-- All getters but the one of `crc2` agree. -/
theorem agree_of_accepted {d : List Byte} {q₁ q₂ : Pkt} (h₁ : q₁.Accepted crc32 d)
    (h₂ : q₂.Accepted crc32 d) :
    q₁.Agree q₂ ∧ q₁.getCrc1 = q₂.getCrc1 ∧ (q₁.getPayload = none ↔ q₂.getPayload = none) := by
  have himage : q₁.image = q₂.image := h₁.bytes.symm.trans h₂.bytes
  have hagree := agree_of_image_eq himage h₁.length_le
  have hhead : q₁.header = q₂.header := (List.append_inj himage (by simp)).1
  have hcrc1 : (q₁.overlay new).getCrc1 = (q₂.overlay new).getCrc1 :=
    congrArg getCrc1 (overlay_of_header_eq hhead new)
  refine ⟨hagree, hcrc1, ?_⟩
  simp [getPayload, hagree.length]

/-- **When decoding depends on the datagram alone**: exactly when it is refused or has a payload,
or the two packets had the same `crc2` before. -/
theorem decodesAlike_iff (crc32 : List Byte → BitVec 32) (d : List Byte) (p₁ p₂ : Pkt) :
    DecodesAlike crc32 d p₁ p₂ ↔
      (Wire.status crc32 d = .ok →
        (Wire.tr d = 0 ∧ 0 < Wire.length d) ∨ p₁.getCrc2 = p₂.getCrc2) := by
  obtain ⟨q₁, hdec₁⟩ := decode_status crc32 d p₁
  obtain ⟨q₂, hdec₂⟩ := decode_status crc32 d p₂
  have halike : DecodesAlike crc32 d p₁ p₂ ↔ (Wire.status crc32 d = .ok → q₁.ReadsSame q₂) := by
    constructor
    · rintro ⟨st, q₁', q₂', h₁, h₂, h⟩
      rw [hdec₁, Option.some.injEq, Prod.mk.injEq] at h₁
      rw [hdec₂, Option.some.injEq, Prod.mk.injEq] at h₂
      obtain ⟨rfl, rfl⟩ := h₁
      exact h₂.2 ▸ h
    · exact fun h => ⟨_, q₁, q₂, hdec₁, hdec₂, h⟩
  rw [halike]
  refine imp_congr_right fun hok => ?_
  rw [hok] at hdec₁ hdec₂
  obtain ⟨hacc₁, -⟩ := accepted_of_decode crc32 hdec₁
  obtain ⟨hacc₂, -⟩ := accepted_of_decode crc32 hdec₂
  obtain ⟨hagree, hcrc1, hnull⟩ := agree_of_accepted hacc₁ hacc₂
  obtain ⟨htr, hlen⟩ := hacc₁.wire
  rcases Nat.eq_zero_or_pos q₁.getLength.toNat with hz | hpos
  · -- without a payload there is no CRC2 on the wire, and the field keeps its old value
    have hno : ¬ (Wire.tr d = 0 ∧ 0 < Wire.length d) := by
      rintro ⟨h0, hpos⟩
      rw [getLength_of_not_tr (htr.symm.trans h0)] at hz
      rw [hlen, storedLength] at hpos
      omega
    have hcrc₁ : q₁.getCrc2 = p₁.getCrc2 := congrArg ntohl (crc2_of_decode hdec₁ hz)
    have hcrc₂ : q₂.getCrc2 = p₂.getCrc2 :=
      congrArg ntohl (crc2_of_decode hdec₂ (hagree.length ▸ hz))
    rw [or_iff_right hno, ← hcrc₁, ← hcrc₂]
    exact ⟨fun h => h.crc2, fun h => ⟨hagree, hcrc1, h, hnull⟩⟩
  · -- a payload has been checked against the CRC2 that came with it
    have hpayload : Wire.tr d = 0 ∧ 0 < Wire.length d := by
      rcases bit_cases q₁.tr with h0 | h1
      · rw [getLength_of_not_tr h0] at hpos
        exact ⟨htr.trans h0, hlen ▸ hpos⟩
      · rw [getLength_of_tr h1] at hpos
        exact absurd hpos (by decide)
    refine ⟨fun _ => .inl hpayload, fun _ => ⟨hagree, hcrc1, ?_, hnull⟩⟩
    rw [hacc₁.crc2 hpos, hacc₂.crc2 (hagree.length ▸ hpos), hagree.payload]

/-- The same datagram without payload, decoded into a new packet and into one whose `crc2` has been
set. -/
theorem decodes_unlike_after_setCrc2 :
    ∃ p, LTS.run (apply Crc32.crc32) new [.setCrc2 1] = some p ∧
      ¬ DecodesAlike Crc32.crc32 [0x40, 0, 0, 0, 0, 0, 0, 0, 0x4c, 0xbf, 0x1d, 0x84] new p := by
  have hnew : (decode Crc32.crc32 (some [0x40, 0, 0, 0, 0, 0, 0, 0, 0x4c, 0xbf, 0x1d, 0x84]) 12
      new).map (fun r => (r.1, r.2.getCrc2)) = some (.ok, 0) := by
    decide +kernel
  have hset : (decode Crc32.crc32 (some [0x40, 0, 0, 0, 0, 0, 0, 0, 0x4c, 0xbf, 0x1d, 0x84]) 12
      (new.setCrc2 1).2).map (fun r => (r.1, r.2.getCrc2)) = some (.ok, 1) := by
    decide +kernel
  refine ⟨(new.setCrc2 1).2, rfl, ?_⟩
  rintro ⟨st, q₁, q₂, h₁, h₂, hsame⟩
  change decode _ _ 12 _ = _ at h₁ h₂
  rw [h₁, Option.map_some, Option.some.injEq, Prod.mk.injEq] at hnew
  rw [h₂, Option.map_some, Option.some.injEq, Prod.mk.injEq] at hset
  have hcrc := (hsame hnew.1).crc2
  rw [hnew.2, hset.2] at hcrc
  exact absurd hcrc (by decide)

end Pkt

end LosslessTransport
