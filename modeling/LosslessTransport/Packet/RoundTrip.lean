import LosslessTransport.Lib.Crc32
import LosslessTransport.Packet.Grammar

/-!
# Encoding and decoding undo each other

`Pkt.sealed p` is the packet `pkt_encode` puts on the wire for `p`: `p` with its two checksums.

* `Pkt.encode_of_le` : when the buffer is large enough, `encode` writes the image of `p.sealed`;
* `Pkt.decode_image` : decoding that image gives the fields of `p` back;
* `Pkt.decode_encode`, `Pkt.encode_decode` : the two round trips, on the packets made with the
  setters and on the datagrams that are accepted.

`Pkt.Agree` says that two packets look the same through the getters, checksums apart.
-/

namespace LosslessTransport

open CMem

namespace Pkt

variable (crc32 : List Byte → BitVec 32)

/-- The packet with both checksums filled in, as `pkt_encode` puts it on the wire. -/
def sealed (p : Pkt) : Pkt :=
  { p with crc1 := htonl (p.computeCrc1 crc32), crc2 := htonl (crc32 p.payloadBytes) }

/-- The two packets agree on everything but the checksums and the unused payload slots. -/
structure Agree (p q : Pkt) : Prop where
  type : p.getType = q.getType
  tr : p.getTr = q.getTr
  window : p.getWindow = q.getWindow
  seqnum : p.getSeqnum = q.getSeqnum
  timestamp : p.getTimestamp = q.getTimestamp
  length : p.getLength = q.getLength
  payload : p.payloadBytes = q.payloadBytes

theorem Agree.trans {p q r : Pkt} (h : p.Agree q) (h' : q.Agree r) : p.Agree r :=
  ⟨h.type.trans h'.type, h.tr.trans h'.tr, h.window.trans h'.window, h.seqnum.trans h'.seqnum,
    h.timestamp.trans h'.timestamp, h.length.trans h'.length, h.payload.trans h'.payload⟩

section sealed

variable (p : Pkt)

@[simp] theorem type_sealed : (p.sealed crc32).type = p.type := rfl
@[simp] theorem tr_sealed : (p.sealed crc32).tr = p.tr := rfl
@[simp] theorem getLength_sealed : (p.sealed crc32).getLength = p.getLength := rfl
@[simp] theorem getTotalSize_sealed : (p.sealed crc32).getTotalSize = p.getTotalSize := rfl
@[simp] theorem payloadBytes_sealed : (p.sealed crc32).payloadBytes = p.payloadBytes := rfl

theorem getCrc1_sealed : (p.sealed crc32).getCrc1 = (p.sealed crc32).computeCrc1 crc32 := by
  simp only [getCrc1, sealed, ntohl_htonl]
  -- CRC1 does not cover itself
  simp [computeCrc1, header, Endian.toBytes]

theorem agree_sealed : (p.sealed crc32).Agree p := ⟨rfl, rfl, rfl, rfl, rfl, rfl, rfl⟩

end sealed

/-- Packets with one header agree on the header fields. -/
theorem overlay_of_header_eq {p q : Pkt} (h : p.header = q.header) (r : Pkt) :
    p.overlay r = q.overlay r := by
  have := copyHeader_header p r
  rw [h, copyHeader_header, Option.some.injEq] at this
  exact this.symm

theorem length_image {p : Pkt} (h : p.getLength.toNat ≤ 512) : p.image.length = p.getTotalSize := by
  rw [image, List.length_append, List.length_append, length_header, length_payloadBytes h,
    getTotalSize_eq]
  split_ifs <;> simp <;> omega

/-- Packets with the same image agree. -/
theorem agree_of_image_eq {p q : Pkt} (h : p.image = q.image) (hp : p.getLength.toNat ≤ 512) :
    p.Agree q := by
  obtain ⟨hhdr, hbody⟩ := List.append_inj h (by simp)
  have hover := overlay_of_header_eq hhdr new
  have hlen : p.getLength = q.getLength := by simpa using congrArg getLength hover
  have hpayload : p.payloadBytes = q.payloadBytes :=
    (List.append_inj hbody (by
      rw [length_payloadBytes hp, length_payloadBytes (hlen ▸ hp), hlen])).1
  refine ⟨?_, ?_, ?_, ?_, ?_, hlen, hpayload⟩
  · simpa using congrArg getType hover
  · simpa using congrArg getTr hover
  · simpa using congrArg getWindow hover
  · simpa using congrArg getSeqnum hover
  · simpa using congrArg getTimestamp hover

/-! ### The encoder -/

section encode

variable {p : Pkt} {buf : List Byte} {len : ℕ}

theorem encode_of_lt (htype : p.getType ≠ 0) (hlen : len < p.getTotalSize) :
    p.encode crc32 buf len = some ⟨.eNomem, p, buf, 0⟩ := by
  simp only [encode, if_neg htype, if_pos hlen]

/-- With room enough the encoder writes the image of the sealed packet. -/
theorem encode_of_le (htype : p.getType ≠ 0) (hle : p.getLength.toNat ≤ 512)
    (hlen : p.getTotalSize ≤ len) (hbuf : len ≤ buf.length) :
    p.encode crc32 buf len =
      some ⟨.ok, p, (p.sealed crc32).image ++ buf.drop p.getTotalSize, p.getTotalSize⟩ := by
  have hread : readAt p.payload.cells 0 p.getLength.toNat = some p.payloadBytes := by
    rw [readAt_of_le (by rw [p.payload.length_cells]; simpa using hle)]
    rfl
  have hcrc2 : computeCrc2 crc32 (p.setCrc1 (p.computeCrc1 crc32)).2 p.getLength.toNat =
      some (crc32 p.payloadBytes) := by
    simp only [computeCrc2, setCrc1, hread, Option.map_some]
  have hseal : ((p.setCrc1 (p.computeCrc1 crc32)).2.setCrc2 (crc32 p.payloadBytes)).2 =
      p.sealed crc32 := rfl
  have hcells : (p.sealed crc32).payload = p.payload := rfl
  set front := (p.sealed crc32).header ++ p.payloadBytes with hfront
  have hflen : front.length = 12 + p.getLength.toNat := by
    rw [hfront, List.length_append, length_header, length_payloadBytes hle]
  have hsize := getTotalSize_eq p
  have hw : writeAt buf 0 front = some (front ++ buf.drop front.length) :=
    writeAt_zero (by split_ifs at hsize <;> omega)
  simp only [encode, if_neg htype, if_neg (Nat.not_lt.2 hlen), hcrc2, Option.bind_eq_bind,
    Option.bind_some, hseal, hcells, hread, ← hfront, hw, headerSize_eq]
  have himage : (p.sealed crc32).image = front ++
      if 0 < p.getLength.toNat then Endian.toBytes 4 (p.sealed crc32).crc2.toNat else [] := by
    rw [image, hfront, List.append_assoc]
    rfl
  rcases Nat.eq_zero_or_pos p.getLength.toNat with hz | hpos
  · rw [himage, hsize]
    simp [hz, hflen]
  · rw [himage, if_pos hpos, if_pos hpos, ← hflen, writeAt_append, Option.bind_some,
      getTotalSize_of_pos hpos]
    · simp [hflen, List.drop_drop]
    · rw [if_neg (by omega)] at hsize
      simp only [Endian.length_toBytes, List.length_drop]
      omega

end encode

/-! ### Decoding what was encoded -/

theorem not_badCrc_sealed {p : Pkt} (hle : p.getLength.toNat ≤ 512) :
    ¬ Wire.BadCrc crc32 (p.sealed crc32).image := by
  have hbody : (p.sealed crc32).payloadBytes.length = (p.sealed crc32).getLength.toNat :=
    length_payloadBytes hle
  rintro (h | ⟨htr, hpos, h⟩)
  · exact (crc1_ne_iff crc32 _ _).1 h (getCrc1_sealed crc32 p)
  · rw [image, Wire.tr_header] at htr
    rw [image, Wire.length_header, ← getLength_of_not_tr htr] at hpos
    rw [image, if_pos hpos] at h
    refine (crc2_ne_iff crc32 htr hbody (by simp)).1 h ?_
    rw [ofNat_ofBytes_toBytes _ (by norm_num)]
    exact ntohl_htonl (crc32 p.payloadBytes)

/-- The status `decode` gives the image of a sealed packet. -/
theorem status_image {p : Pkt} (htype : p.getType ≠ 0) (hle : p.getLength.toNat ≤ 512) :
    Wire.status crc32 (p.sealed crc32).image =
      if p.getType = ptypeData ∨ p.getTr = 0 then .ok else .eTr := by
  have hbad := not_badCrc_sealed crc32 hle
  have hsize : (p.sealed crc32).image.length = (p.sealed crc32).getTotalSize := length_image hle
  rw [image] at hbad hsize ⊢
  rw [List.length_append, length_header] at hsize
  have htype' : (p.sealed crc32).type ≠ 0 := htype
  rw [status_header, if_neg htype']
  by_cases h : p.getType = ptypeData ∨ p.getTr = 0
  · have h' : ¬ ((p.sealed crc32).type ≠ ptypeData ∧ (p.sealed crc32).tr ≠ 0) := fun hn =>
      h.elim hn.1 hn.2
    have hle' : ¬ 512 < (p.sealed crc32).getLength.toNat := Nat.not_lt.2 hle
    rw [if_neg h', if_neg hle', if_neg (not_not.2 hsize), if_neg hbad, if_pos h]
  · have h' : (p.sealed crc32).type ≠ ptypeData ∧ (p.sealed crc32).tr ≠ 0 := not_or.1 h
    rw [if_pos h', if_neg h]

/-- Decoding the image of a sealed packet, into any packet. -/
theorem decode_image {p : Pkt} (htype : p.getType ≠ 0) (hle : p.getLength.toNat ≤ 512)
    (pkt : Pkt) :
    ∃ q, decode crc32 (some (p.sealed crc32).image) p.getTotalSize pkt =
        some (if p.getType = ptypeData ∨ p.getTr = 0 then .ok else .eTr, q) ∧
      (p.getType = ptypeData ∨ p.getTr = 0 → q.Agree p) := by
  obtain ⟨q, hdec, hok⟩ := decode_spec crc32 (p.sealed crc32) pkt ((p.sealed crc32).payloadBytes ++
    if 0 < (p.sealed crc32).getLength.toNat then Endian.toBytes 4 (p.sealed crc32).crc2.toNat
    else [])
  rw [← image, status_image crc32 htype hle, length_image (p := p.sealed crc32) hle] at hdec
  rw [← image, status_image crc32 htype hle] at hok
  refine ⟨q, hdec, fun h => ?_⟩
  obtain ⟨hacc, -⟩ := hok (if_pos h)
  exact (agree_of_image_eq hacc.bytes.symm hacc.length_le).trans (agree_sealed crc32 p)

/-- An accepted packet already carries its checksums. -/
theorem Accepted.image_sealed {d : List Byte} {q : Pkt} (h : q.Accepted crc32 d) :
    (q.sealed crc32).image = q.image := by
  have h1 : (q.sealed crc32).crc1 = q.crc1 := by
    rw [← htonl_ntohl q.crc1]
    exact congrArg htonl h.crc1.symm
  have hhdr : (q.sealed crc32).header = q.header := by
    simp only [header, h1]
    rfl
  rw [image, image, hhdr, payloadBytes_sealed, getLength_sealed]
  by_cases hpos : 0 < q.getLength.toNat
  · have h2 : (q.sealed crc32).crc2 = q.crc2 := by
      rw [← htonl_ntohl q.crc2]
      exact congrArg htonl (h.crc2 hpos).symm
    rw [h2]
  · rw [if_neg hpos, if_neg hpos]

/-- **Decode undoes encode** on the packets made with the setters: with too small a buffer nothing
is written, otherwise exactly the total size is, and decoding it into a fresh packet succeeds, with
the same fields, exactly for the packets that are DATA or have TR equal to 0. -/
theorem decode_encode {p : Pkt} (hp : p.Built) (htype : p.getType ≠ 0) (buf : List Byte) (c : ℕ)
    (hbuf : c ≤ buf.length) :
    p.getTotalSize = (if p.getLength = 0 then 12 else 16 + p.getLength.toNat) ∧
    (c < p.getTotalSize → p.encode crc32 buf c = some ⟨.eNomem, p, buf, 0⟩) ∧
    (p.getTotalSize ≤ c → ∃ bytes,
      bytes.length = p.getTotalSize ∧
      p.encode crc32 buf c =
        some ⟨.ok, p, bytes ++ buf.drop p.getTotalSize, p.getTotalSize⟩ ∧
      ∃ q, decode crc32 (some bytes) bytes.length new =
          some (if p.getType = ptypeData ∨ p.getTr = 0 then .ok else .eTr, q) ∧
        (p.getType = ptypeData ∨ p.getTr = 0 → q.Agree p)) := by
  have hle := hp.lengthOk.getLength_le
  refine ⟨?_, encode_of_lt crc32 htype, fun hc => ⟨(p.sealed crc32).image, length_image hle,
    encode_of_le crc32 htype hle hc hbuf, ?_⟩⟩
  · have hz : p.getLength = 0 ↔ p.getLength.toNat = 0 := BitVec.toNat_inj.symm
    rw [getTotalSize_eq]
    simp only [hz]
  · rw [length_image (p := p.sealed crc32) hle]
    exact decode_image crc32 htype hle new

/-- The packet of the tests, with a payload of 11 zeros. -/
theorem decode_encode_zeros :
    let p := (((((new.setType 1).2.setWindow 28).2.setSeqnum 0x7b).2.setTimestamp 0x17).2.setLength
      11).2
    ∃ bytes q, bytes.length = 27 ∧
      p.encode Crc32.crc32 (List.replicate 528 0) 528 =
        some ⟨.ok, p, bytes ++ List.replicate 501 0, 27⟩ ∧
      decode Crc32.crc32 (some bytes) bytes.length new = some (.ok, q) ∧ q.Agree p := by
  intro p
  have hbuilt : p.Built := .setLength 11 (.setTimestamp 0x17 (.setSeqnum 0x7b (.setWindow 28
    (.setType 1 .new))))
  have hsize : p.getTotalSize = 27 := by decide +kernel
  obtain ⟨-, -, henc⟩ := decode_encode Crc32.crc32 hbuilt (by decide +kernel) (List.replicate 528 0)
    528 (List.length_replicate (n := 528)).ge
  obtain ⟨bytes, hlen, henc, q, hdec, hagree⟩ := henc (hsize.symm ▸ by decide)
  have htr : p.getTr = 0 := by decide +kernel
  rw [hsize] at hlen henc
  rw [if_pos (.inr htr)] at hdec
  exact ⟨bytes, q, hlen, henc, hdec, hagree (.inr htr)⟩

/-- **Encode undoes decode** on every accepted datagram, whatever the packet held before; so no
two datagrams are decoded into the same packet. -/
theorem encode_decode :
    (∀ (d : List Byte) (pkt q : Pkt), decode crc32 (some d) d.length pkt = some (.ok, q) →
      ∀ (buf : List Byte) (c : ℕ), d.length ≤ c → c ≤ buf.length →
        q.encode crc32 buf c = some ⟨.ok, q, d ++ buf.drop d.length, d.length⟩) ∧
    ∀ (d₁ d₂ : List Byte) (pkt₁ pkt₂ q : Pkt),
      decode crc32 (some d₁) d₁.length pkt₁ = some (.ok, q) →
      decode crc32 (some d₂) d₂.length pkt₂ = some (.ok, q) → d₁ = d₂ := by
  refine ⟨fun d pkt q h buf c hc hbuf => ?_, fun d₁ d₂ pkt₁ pkt₂ q h₁ h₂ => ?_⟩
  · obtain ⟨hacc, -⟩ := accepted_of_decode crc32 h
    have hlen : d.length = q.getTotalSize := by rw [hacc.bytes, length_image hacc.length_le]
    rw [encode_of_le crc32 hacc.type_ne hacc.length_le (hlen ▸ hc) hbuf, hacc.image_sealed,
      ← hacc.bytes, hlen]
  · rw [(accepted_of_decode crc32 h₁).1.bytes, (accepted_of_decode crc32 h₂).1.bytes]

/-- The datagram of the tests that carries `hello world`. -/
theorem encode_decode_hello_world :
    let d : List Byte := [0x5c, 0x7b, 0x00, 0x0b, 0x17, 0x00, 0x00, 0x00, 0x33, 0xda, 0xe3, 0x06,
      0x68, 0x65, 0x6c, 0x6c, 0x6f, 0x20, 0x77, 0x6f, 0x72, 0x6c, 0x64, 0x0d, 0x4a, 0x11, 0x85]
    ∃ q, decode Crc32.crc32 (some d) d.length new = some (.ok, q) ∧
      q.encode Crc32.crc32 (List.replicate 27 0) 27 = some ⟨.ok, q, d, 27⟩ := by
  intro d
  have hok : (decode Crc32.crc32 (some d) d.length new).map Prod.fst = some .ok := by
    decide +kernel
  obtain ⟨⟨st, q⟩, hdec, rfl⟩ := Option.map_eq_some_iff.1 hok
  exact ⟨q, hdec, (encode_decode Crc32.crc32).1 d new q hdec (List.replicate 27 0) 27 le_rfl le_rfl⟩

end Pkt

end LosslessTransport
