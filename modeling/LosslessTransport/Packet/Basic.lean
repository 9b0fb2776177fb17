import LosslessTransport.Lib.Memory
import LosslessTransport.Lib.Endian

/-!
# Packets: the structure, its getters and its setters

`Pkt` is `struct pkt` of `packet_implem.c`.  A field holds what lies in memory: `length`,
`timestamp`, `crc1` and `crc2` are in network byte order, so the getters and setters convert with
`ntohs`, `htons`, `ntohl` and `htonl` (the host is little-endian), and the three bit-fields that
share the first byte have their own widths.  `ptypes_t` is an integer type in C: the code stores
it in two bits, shifts it, and tests it against 0, which names no type.

A setter returns a status and the packet after the call.  `Pkt.setPayload` reads the caller's
buffer, so it has no result when the buffer is shorter than the length announced.
-/

namespace LosslessTransport

open CMem

/-- A byte of memory or of a datagram. -/
abbrev Byte := BitVec 8

/-- `HEADER_SIZE`. -/
def headerSize : ℕ := 1 + 1 + 2 + 4 + 4

/-- `MAX_PAYLOAD_SIZE`. -/
def maxPayloadSize : ℕ := 512

/-- `MAX_PACKET_SIZE`. -/
def maxPacketSize : ℕ := headerSize + maxPayloadSize + 4

/-- `MAX_WINDOW_SIZE`. -/
def maxWindowSize : ℕ := 31

@[simp] theorem headerSize_eq : headerSize = 12 := rfl
@[simp] theorem maxPayloadSize_eq : maxPayloadSize = 512 := rfl
@[simp] theorem maxPacketSize_eq : maxPacketSize = 528 := rfl
@[simp] theorem maxWindowSize_eq : maxWindowSize = 31 := rfl

/-- `pkt_status_code`. -/
inductive PktStatusCode where
  | ok
  | eType
  | eTr
  | eLength
  | eCrc
  | eWindow
  | eSeqnum
  | eNomem
  | eNoheader
  | eUnconsistent
  deriving DecidableEq, Repr

/-- `PTYPE_DATA`. -/
def ptypeData : BitVec 2 := 1

/-- `PTYPE_ACK`. -/
def ptypeAck : BitVec 2 := 2

/-- `PTYPE_NACK`. -/
def ptypeNack : BitVec 2 := 3

/-! ### Byte order -/

/-- `htons`. -/
def htons (x : BitVec 16) : BitVec 16 := BitVec.ofNat 16 (Endian.swap 2 x.toNat)

/-- `ntohs`. -/
def ntohs (x : BitVec 16) : BitVec 16 := BitVec.ofNat 16 (Endian.swap 2 x.toNat)

/-- `htonl`. -/
def htonl (x : BitVec 32) : BitVec 32 := BitVec.ofNat 32 (Endian.swap 4 x.toNat)

/-- `ntohl`. -/
def ntohl (x : BitVec 32) : BitVec 32 := BitVec.ofNat 32 (Endian.swap 4 x.toNat)

theorem toNat_htons (x : BitVec 16) : (htons x).toNat = Endian.swap 2 x.toNat := by
  rw [htons, BitVec.toNat_ofNat, Nat.mod_eq_of_lt (by simpa using Endian.swap_lt 2 x.toNat)]

theorem toNat_ntohs (x : BitVec 16) : (ntohs x).toNat = Endian.swap 2 x.toNat := toNat_htons x

theorem toNat_htonl (x : BitVec 32) : (htonl x).toNat = Endian.swap 4 x.toNat := by
  rw [htonl, BitVec.toNat_ofNat, Nat.mod_eq_of_lt (by simpa using Endian.swap_lt 4 x.toNat)]

theorem toNat_ntohl (x : BitVec 32) : (ntohl x).toNat = Endian.swap 4 x.toNat := toNat_htonl x

@[simp] theorem ntohs_htons (x : BitVec 16) : ntohs (htons x) = x := by
  apply BitVec.eq_of_toNat_eq
  rw [toNat_ntohs, toNat_htons, Endian.swap_swap x.isLt]

@[simp] theorem htons_ntohs (x : BitVec 16) : htons (ntohs x) = x := ntohs_htons x

@[simp] theorem ntohl_htonl (x : BitVec 32) : ntohl (htonl x) = x := by
  apply BitVec.eq_of_toNat_eq
  rw [toNat_ntohl, toNat_htonl, Endian.swap_swap x.isLt]

@[simp] theorem htonl_ntohl (x : BitVec 32) : htonl (ntohl x) = x := ntohl_htonl x

/-! ### The packet -/

/-- `struct pkt`. -/
@[ext] structure Pkt where
  window : BitVec 5
  tr : BitVec 1
  type : BitVec 2
  seqnum : BitVec 8
  /-- In network byte order. -/
  length : BitVec 16
  /-- In network byte order. -/
  timestamp : BitVec 32
  /-- In network byte order. -/
  crc1 : BitVec 32
  payload : Block Byte maxPayloadSize
  /-- In network byte order. -/
  crc2 : BitVec 32
  deriving DecidableEq

namespace Pkt

/-- `pkt_new`: `calloc` zeroes the packet. -/
def new : Pkt where
  window := 0
  tr := 0
  type := 0
  seqnum := 0
  length := 0
  timestamp := 0
  crc1 := 0
  payload := Block.replicate maxPayloadSize 0
  crc2 := 0

variable (p : Pkt)

/-! ### Getters -/

/-- `pkt_get_type`. -/
def getType : BitVec 2 := p.type

/-- `pkt_get_tr`. -/
def getTr : BitVec 1 := p.tr

/-- `pkt_get_window`. -/
def getWindow : BitVec 5 := p.window

/-- `pkt_get_seqnum`. -/
def getSeqnum : BitVec 8 := p.seqnum

/-- `pkt_get_length`: 0 for a truncated packet, whatever its length field. -/
def getLength : BitVec 16 := if p.getTr ≠ 0 then 0 else ntohs p.length

/-- `pkt_get_timestamp`. -/
def getTimestamp : BitVec 32 := ntohl p.timestamp

/-- `pkt_get_crc1`. -/
def getCrc1 : BitVec 32 := ntohl p.crc1

/-- `pkt_get_crc2`. -/
def getCrc2 : BitVec 32 := ntohl p.crc2

/-- `pkt_get_payload`: `none` is the null pointer, otherwise the pointer to the array. -/
def getPayload : Option (Block Byte maxPayloadSize) :=
  if p.getLength = 0 then none else some p.payload

/-- The bytes a reader of `pkt_get_payload` and `pkt_get_length` gets. -/
def payloadBytes : List Byte := p.payload.cells.take p.getLength.toNat

/-! ### Setters -/

/-- `pkt_set_type`. -/
def setType (type : BitVec 32) : PktStatusCode × Pkt :=
  if type = 0 ∨ type >>> 2 ≠ 0 then (.eType, p)
  else (.ok, { p with type := type.setWidth 2 })

/-- A type that is not zero is set. -/
theorem setType_of_ne {t : BitVec 2} (h : t ≠ 0) :
    p.setType (t.setWidth 32) = (.ok, { p with type := t }) := by
  have hok : ∀ t : BitVec 2, t ≠ 0 → ¬ (t.setWidth 32 = 0 ∨ t.setWidth 32 >>> 2 ≠ 0) := by decide
  have hback : ∀ t : BitVec 2, (t.setWidth 32).setWidth 2 = t := by decide
  rw [setType, if_neg (hok t h), hback]

/-- `pkt_set_tr`. -/
def setTr (tr : BitVec 8) : PktStatusCode × Pkt :=
  if tr >>> 1 ≠ 0 then (.eTr, p) else (.ok, { p with tr := tr.setWidth 1 })

/-- `pkt_set_window`. -/
def setWindow (window : BitVec 8) : PktStatusCode × Pkt :=
  if maxWindowSize < window.toNat then (.eWindow, p)
  else (.ok, { p with window := window.setWidth 5 })

/-- `pkt_set_seqnum`. -/
def setSeqnum (seqnum : BitVec 8) : PktStatusCode × Pkt := (.ok, { p with seqnum := seqnum })

/-- `pkt_set_length`: the unused slots are zeroed. -/
def setLength (length : BitVec 16) : PktStatusCode × Pkt :=
  if h : maxPayloadSize < length.toNat then (.eLength, p)
  else (.ok, { p with
    payload := p.payload.fillFrom length.toNat 0 (Nat.le_of_not_lt h)
    length := htons length })

/-- `pkt_set_timestamp`. -/
def setTimestamp (timestamp : BitVec 32) : PktStatusCode × Pkt :=
  (.ok, { p with timestamp := htonl timestamp })

/-- `pkt_set_crc1`. -/
def setCrc1 (crc1 : BitVec 32) : PktStatusCode × Pkt := (.ok, { p with crc1 := htonl crc1 })

/-- `pkt_set_crc2`. -/
def setCrc2 (crc2 : BitVec 32) : PktStatusCode × Pkt := (.ok, { p with crc2 := htonl crc2 })

/-- `pkt_set_payload`: `data = none` is the null pointer. -/
def setPayload (data : Option (List Byte)) (length : BitVec 16) :
    Option (PktStatusCode × Pkt) :=
  let actual := if data = none then 0 else length
  let r := p.setLength actual
  if r.1 ≠ .ok then some r
  else do
    let src ← readAt (data.getD []) 0 actual.toNat
    let payload ← r.2.payload.write 0 src
    some (.ok, { r.2 with payload := payload })

variable {p}

/-! ### Packets made with the setters -/

/-- The packets obtained from `pkt_new` by setter calls, accepted or refused. -/
inductive Built : Pkt → Prop
  | new : Built new
  | setType {p : Pkt} (type : BitVec 32) : Built p → Built (p.setType type).2
  | setTr {p : Pkt} (tr : BitVec 8) : Built p → Built (p.setTr tr).2
  | setWindow {p : Pkt} (window : BitVec 8) : Built p → Built (p.setWindow window).2
  | setSeqnum {p : Pkt} (seqnum : BitVec 8) : Built p → Built (p.setSeqnum seqnum).2
  | setLength {p : Pkt} (length : BitVec 16) : Built p → Built (p.setLength length).2
  | setTimestamp {p : Pkt} (timestamp : BitVec 32) : Built p → Built (p.setTimestamp timestamp).2
  | setCrc1 {p : Pkt} (crc1 : BitVec 32) : Built p → Built (p.setCrc1 crc1).2
  | setCrc2 {p : Pkt} (crc2 : BitVec 32) : Built p → Built (p.setCrc2 crc2).2
  | setPayload {p : Pkt} {data : Option (List Byte)} {length : BitVec 16}
      {r : PktStatusCode × Pkt} : Built p → p.setPayload data length = some r → Built r.2

/-- The stored length, whatever TR is, fits the payload array. -/
def LengthOk (p : Pkt) : Prop := (ntohs p.length).toNat ≤ maxPayloadSize

theorem lengthOk_setLength (h : p.LengthOk) (length : BitVec 16) :
    (p.setLength length).2.LengthOk := by
  unfold setLength
  split_ifs with hl
  · exact h
  · simpa [LengthOk] using hl

theorem lengthOk_setPayload {data : Option (List Byte)} {length : BitVec 16}
    {r : PktStatusCode × Pkt} (h : p.LengthOk) (hr : p.setPayload data length = some r) :
    r.2.LengthOk := by
  simp only [setPayload, Option.bind_eq_bind] at hr
  generalize (if data = none then 0 else length) = actual at hr
  split_ifs at hr
  · cases hr
    exact lengthOk_setLength h _
  · obtain ⟨src, -, hr⟩ := Option.bind_eq_some_iff.1 hr
    obtain ⟨payload, -, hr⟩ := Option.bind_eq_some_iff.1 hr
    cases hr
    exact lengthOk_setLength h _

/-- A packet made with the setters has a stored length of at most 512. -/
theorem Built.lengthOk (h : p.Built) : p.LengthOk := by
  induction h with
  | new => simp [LengthOk, Pkt.new, ntohs, Endian.swap, Endian.toBytes, Endian.ofBytes]
  | setType | setTr | setWindow =>
    rename_i ih
    simp only [Pkt.setType, Pkt.setTr, Pkt.setWindow]
    split_ifs <;> exact ih
  | setSeqnum _ _ ih | setTimestamp _ _ ih | setCrc1 _ _ ih | setCrc2 _ _ ih => exact ih
  | setLength length _ ih => exact lengthOk_setLength ih length
  | setPayload _ hr ih => exact lengthOk_setPayload ih hr

theorem LengthOk.getLength_le (h : p.LengthOk) : p.getLength.toNat ≤ 512 := by
  unfold getLength
  split_ifs
  · simp
  · exact h

theorem length_payloadBytes (h : p.getLength.toNat ≤ 512) :
    p.payloadBytes.length = p.getLength.toNat := by
  simp only [payloadBytes, List.length_take, p.payload.length_cells, maxPayloadSize_eq]
  omega

end Pkt

end LosslessTransport
