import LosslessTransport.Packet.Basic

/-!
# Encoding and decoding packets

`Pkt.decode` and `Pkt.encode` are `pkt_decode` and `pkt_encode`.  `crc32` is zlib's checksum of a
buffer started from 0, as an arbitrary function of the bytes.  Every copy goes through
`CMem.readAt`, `CMem.writeAt` or `CMem.Block.write`, so the two functions have a result exactly on
the inputs for which the code stays inside the datagram, the caller's buffer and the payload
array.

`Pkt.header` is the image of the first 12 bytes of the structure.  The lemmas of this file say
that it and `Pkt.copyHeader` are inverse to each other, which is all the later files use.
-/

namespace LosslessTransport

open CMem

namespace Pkt

/-- The first `HEADER_SIZE` bytes of the structure: the bit-fields fill the first byte from its
low end, the other fields lie as a little-endian machine stores them. -/
def header (p : Pkt) : List Byte :=
  (p.type ++ p.tr ++ p.window) :: p.seqnum ::
    (Endian.toBytes 2 p.length.toNat ++ Endian.toBytes 4 p.timestamp.toNat ++
      Endian.toBytes 4 p.crc1.toNat)

/-- `memcpy (p, hdr, HEADER_SIZE)`. -/
def copyHeader (p : Pkt) : List Byte → Option Pkt
  | [b0, b1, b2, b3, b4, b5, b6, b7, b8, b9, b10, b11] =>
    some { p with
      window := b0.extractLsb' 0 5
      tr := b0.extractLsb' 5 1
      type := b0.extractLsb' 6 2
      seqnum := b1
      length := BitVec.ofNat 16 (Endian.ofBytes [b2, b3])
      timestamp := BitVec.ofNat 32 (Endian.ofBytes [b4, b5, b6, b7])
      crc1 := BitVec.ofNat 32 (Endian.ofBytes [b8, b9, b10, b11]) }
  | _ => none

/-- What the header, the payload and, when there is a payload, `crc2` of a packet are on the
wire. -/
def image (p : Pkt) : List Byte :=
  p.header ++ (p.payloadBytes ++
    if 0 < p.getLength.toNat then Endian.toBytes 4 p.crc2.toNat else [])

variable (crc32 : List Byte → BitVec 32)

/-- `pkt_compute_crc1`: the checksum of the header before `crc1`, with TR set to 0. -/
def computeCrc1 (p : Pkt) : BitVec 32 := crc32 ({ p with tr := 0 }.header.take (headerSize - 4))

/-- `pkt_compute_crc2`. -/
def computeCrc2 (p : Pkt) (len : ℕ) : Option (BitVec 32) :=
  (readAt p.payload.cells 0 len).map crc32

/-- `pkt_get_total_size`. -/
def getTotalSize (p : Pkt) : ℕ :=
  let payloadSize := p.getLength.toNat
  let totalSize := headerSize + payloadSize
  if 0 < payloadSize then totalSize + 4 else totalSize

/-- The end of `pkt_decode`, once the header in `pkt` has passed the checks: copy the payload, then
copy and compare `crc2` if there is a payload. -/
def decodePayload (data : List Byte) (pkt : Pkt) : Option (PktStatusCode × Pkt) := do
  let payloadSize := pkt.getLength.toNat
  let src ← readAt data headerSize payloadSize
  let payload ← pkt.payload.write 0 src
  let pkt := { pkt with payload := payload }
  if 0 < payloadSize then do
    let crc2 ← readAt data (headerSize + payloadSize) 4
    let pkt := { pkt with crc2 := BitVec.ofNat 32 (Endian.ofBytes crc2) }
    let computed ← pkt.computeCrc2 crc32 payloadSize
    if pkt.getCrc2 ≠ computed then some (.eCrc, pkt) else some (.ok, pkt)
  else some (.ok, pkt)

/-- `pkt_decode`: `data = none` is the null pointer. -/
def decode (data : Option (List Byte)) (len : ℕ) (pkt : Pkt) : Option (PktStatusCode × Pkt) :=
  match data with
  | none => some (.eNoheader, pkt)
  | some data =>
    if len < headerSize then some (.eNoheader, pkt)
    else do
      let hdr ← readAt data 0 headerSize
      let pkt ← pkt.copyHeader hdr
      if pkt.getType = 0 then some (.eType, pkt)
      else if pkt.getType ≠ ptypeData ∧ pkt.getTr ≠ 0 then some (.eTr, pkt)
      else if maxWindowSize < pkt.getWindow.toNat then some (.eWindow, pkt)
      else if maxPayloadSize < pkt.getLength.toNat then some (.eLength, pkt)
      else if len ≠ pkt.getTotalSize then some (.eUnconsistent, pkt)
      else if pkt.getCrc1 ≠ pkt.computeCrc1 crc32 then some (.eCrc, pkt)
      else pkt.decodePayload crc32 data

/-- What the caller of `pkt_encode` sees on return: the status, its packet, its buffer and the
value of `*len`. -/
structure Encoded where
  status : PktStatusCode
  pkt : Pkt
  buf : List Byte
  len : ℕ

/-- `pkt_encode` into a buffer with contents `buf`, when `*len` is `len`. -/
def encode (pkt : Pkt) (buf : List Byte) (len : ℕ) : Option Encoded :=
  -- a copy: the caller's packet is not touched
  let p := pkt
  if p.getType = 0 then some ⟨.eType, pkt, buf, len⟩
  else if len < p.getTotalSize then some ⟨.eNomem, pkt, buf, 0⟩
  else do
    let payloadSize := p.getLength.toNat
    let p := (p.setCrc1 (p.computeCrc1 crc32)).2
    let crc2 ← p.computeCrc2 crc32 payloadSize
    let p := (p.setCrc2 crc2).2
    let body ← readAt p.payload.cells 0 payloadSize
    let buf ← writeAt buf 0 (p.header ++ body)
    if 0 < payloadSize then do
      let buf ← writeAt buf (headerSize + payloadSize) (Endian.toBytes 4 p.crc2.toNat)
      some ⟨.ok, pkt, buf, headerSize + payloadSize + 4⟩
    else some ⟨.ok, pkt, buf, headerSize + payloadSize⟩

/-! ### The header -/

theorem bitFields_append :
    ∀ (ty : BitVec 2) (tr : BitVec 1) (w : BitVec 5),
      (ty ++ tr ++ w : BitVec 8).extractLsb' 0 5 = w ∧
        (ty ++ tr ++ w : BitVec 8).extractLsb' 5 1 = tr ∧
          (ty ++ tr ++ w : BitVec 8).extractLsb' 6 2 = ty := by
  decide +kernel

theorem append_bitFields : ∀ b : BitVec 8,
    (b.extractLsb' 6 2 ++ b.extractLsb' 5 1 ++ b.extractLsb' 0 5 : BitVec 8) = b := by
  decide +kernel

@[simp] theorem length_header (p : Pkt) : p.header.length = 12 := by simp [header]

theorem toBytes_ofNat_ofBytes {n w : ℕ} (bs : List Byte) (hn : bs.length = n)
    (hw : 256 ^ n = 2 ^ w) :
    Endian.toBytes n (BitVec.ofNat w (Endian.ofBytes bs)).toNat = bs := by
  subst hn
  rw [BitVec.toNat_ofNat, Nat.mod_eq_of_lt (hw ▸ Endian.ofBytes_lt bs), Endian.toBytes_ofBytes]

theorem ofNat_ofBytes_toBytes {n w : ℕ} (x : BitVec w) (hw : 256 ^ n = 2 ^ w) :
    BitVec.ofNat w (Endian.ofBytes (Endian.toBytes n x.toNat)) = x := by
  apply BitVec.eq_of_toNat_eq
  rw [Endian.ofBytes_toBytes, hw, BitVec.toNat_ofNat, Nat.mod_mod, Nat.mod_eq_of_lt x.isLt]

/-- Twelve bytes copied over a header are the header. -/
theorem exists_copyHeader (p : Pkt) {hdr : List Byte} (h : hdr.length = 12) :
    ∃ q, p.copyHeader hdr = some q ∧ q.header = hdr ∧ q.payload = p.payload ∧ q.crc2 = p.crc2 := by
  match hdr, h with
  | [b0, b1, b2, b3, b4, b5, b6, b7, b8, b9, b10, b11], _ =>
    refine ⟨_, rfl, ?_, rfl, rfl⟩
    have hl := toBytes_ofNat_ofBytes (n := 2) (w := 16) [b2, b3] rfl (by norm_num)
    have ht := toBytes_ofNat_ofBytes (n := 4) (w := 32) [b4, b5, b6, b7] rfl (by norm_num)
    have hc := toBytes_ofNat_ofBytes (n := 4) (w := 32) [b8, b9, b10, b11] rfl
      (by norm_num)
    simp only [header, append_bitFields, hl, ht, hc, List.cons_append, List.nil_append]

/-- The header of `q` over the payload and `crc2` of `p`. -/
def overlay (q p : Pkt) : Pkt := { q with payload := p.payload, crc2 := p.crc2 }

section overlay

variable (q p : Pkt)

@[simp] theorem getType_overlay : (q.overlay p).getType = q.getType := rfl
@[simp] theorem getTr_overlay : (q.overlay p).getTr = q.getTr := rfl
@[simp] theorem getWindow_overlay : (q.overlay p).getWindow = q.getWindow := rfl
@[simp] theorem getSeqnum_overlay : (q.overlay p).getSeqnum = q.getSeqnum := rfl
@[simp] theorem getTimestamp_overlay : (q.overlay p).getTimestamp = q.getTimestamp := rfl
@[simp] theorem getLength_overlay : (q.overlay p).getLength = q.getLength := rfl
@[simp] theorem getTotalSize_overlay : (q.overlay p).getTotalSize = q.getTotalSize := rfl
@[simp] theorem getCrc1_overlay : (q.overlay p).getCrc1 = q.getCrc1 := rfl
@[simp] theorem header_overlay : (q.overlay p).header = q.header := rfl

@[simp] theorem computeCrc1_overlay : (q.overlay p).computeCrc1 crc32 = q.computeCrc1 crc32 := rfl

/-- Copying the header of `q` takes over its header fields. -/
theorem copyHeader_header : p.copyHeader q.header = some (q.overlay p) := by
  obtain ⟨h1, h2, h3⟩ := bitFields_append q.type q.tr q.window
  have hl := ofNat_ofBytes_toBytes (n := 2) q.length (by norm_num)
  have ht := ofNat_ofBytes_toBytes (n := 4) q.timestamp (by norm_num)
  have hc := ofNat_ofBytes_toBytes (n := 4) q.crc1 (by norm_num)
  simp only [Endian.toBytes] at hl ht hc
  simp only [header, Endian.toBytes, List.cons_append, List.nil_append, copyHeader, overlay, h1, h2,
    h3, hl, ht, hc]

end overlay

/-! ### Sizes -/

theorem getTotalSize_eq (p : Pkt) :
    p.getTotalSize = if p.getLength.toNat = 0 then 12 else 16 + p.getLength.toNat := by
  simp only [getTotalSize, headerSize_eq]
  split_ifs <;> omega

@[simp] theorem getTotalSize_of_zero {p : Pkt} (h : p.getLength.toNat = 0) :
    p.getTotalSize = 12 := by simp [getTotalSize_eq, h]

theorem getTotalSize_of_pos {p : Pkt} (h : 0 < p.getLength.toNat) :
    p.getTotalSize = 12 + p.getLength.toNat + 4 := by
  rw [getTotalSize_eq, if_neg (by omega)]
  omega

end Pkt

end LosslessTransport
