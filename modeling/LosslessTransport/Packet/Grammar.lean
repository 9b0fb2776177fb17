import LosslessTransport.Packet.Codec

/-!
# The wire grammar

`Wire.status` says which status a datagram deserves, in terms of its bytes alone: the size of the
header, then the fields in the order in which they are declared, then the size of the datagram,
then the checksums.  `Pkt.decode_status` shows that `Pkt.decode` returns exactly this status,
whatever the packet it decodes into held before, and that it always has a result: no copy it makes
leaves the datagram or the payload array.

`Pkt.accepted_of_decode` describes the packet after an accepted datagram (`Pkt.Accepted`), from
which the round trips follow.
-/

namespace LosslessTransport

open CMem

/-! ### The grammar -/

namespace Wire

variable (crc32 : List Byte → BitVec 32) (d : List Byte)

/-- The integer in the `n` bytes from index `i`, most significant byte first. -/
def be (i n : ℕ) : ℕ := Endian.ofBytes ((d.drop i).take n).reverse

/-- Bits 0 to 4 of byte 0. -/
def window : BitVec 5 := (d.getD 0 0).extractLsb' 0 5

/-- Bit 5 of byte 0. -/
def tr : BitVec 1 := (d.getD 0 0).extractLsb' 5 1

/-- Bits 6 and 7 of byte 0. -/
def type : BitVec 2 := (d.getD 0 0).extractLsb' 6 2

/-- The length field: bytes 2 and 3. -/
def length : ℕ := be d 2 2

/-- What CRC1 covers: the first 8 bytes, with the TR bit cleared. -/
def crc1Input : List Byte := (d.take 8).modifyHead (· &&& 0xDF)

/-- The size a datagram with this header has to have. -/
def size : ℕ := if tr d = 1 ∨ length d = 0 then 12 else 12 + length d + 4

/-- The checksums do not match: CRC1, or CRC2 when there is a payload. -/
def BadCrc : Prop :=
  be d 8 4 ≠ (crc32 (crc1Input d)).toNat ∨
    (tr d = 0 ∧ 0 < length d ∧
      be d (12 + length d) 4 ≠ (crc32 ((d.drop 12).take (length d))).toNat)

instance : Decidable (BadCrc crc32 d) := inferInstanceAs (Decidable (_ ∨ _))

/-- The status of a datagram. -/
def status : PktStatusCode :=
  if d.length < 12 then .eNoheader
  else if type d = 0 then .eType
  else if tr d = 1 ∧ type d ≠ ptypeData then .eTr
  else if tr d = 0 ∧ 512 < length d then .eLength
  else if d.length ≠ size d then .eUnconsistent
  else if BadCrc crc32 d then .eCrc
  else .ok

/-! ### Reading the header of a packet -/

variable (q : Pkt) (rest : List Byte)

theorem tr_header : tr (q.header ++ rest) = q.tr := (Pkt.bitFields_append q.type q.tr q.window).2.1

theorem type_header : type (q.header ++ rest) = q.type :=
  (Pkt.bitFields_append q.type q.tr q.window).2.2

theorem length_header : length (q.header ++ rest) = (ntohs q.length).toNat := rfl |>.trans <| by
  rw [toNat_ntohs]
  simp [length, be, Pkt.header, Endian.swap, Endian.toBytes]

theorem crc1_header : be (q.header ++ rest) 8 4 = (ntohl q.crc1).toNat := by
  rw [toNat_ntohl]
  simp [be, Pkt.header, Endian.swap, Endian.toBytes]

theorem clear_tr :
    ∀ (ty : BitVec 2) (tr : BitVec 1) (w : BitVec 5),
      ((ty ++ tr ++ w : BitVec 8) &&& 0xDF) = (ty ++ 0#1 ++ w : BitVec 8) := by
  decide +kernel

theorem crc1Input_header :
    crc1Input (q.header ++ rest) = { q with tr := 0 }.header.take (headerSize - 4) := by
  have h := clear_tr q.type q.tr q.window
  simp only [crc1Input, Pkt.header, Endian.toBytes, List.cons_append, List.nil_append,
    List.take_succ_cons, List.take_zero, List.modifyHead_cons, headerSize_eq, h]
  rfl

end Wire

/-! ### The decoder follows the grammar -/

namespace Pkt

variable (crc32 : List Byte → BitVec 32)

theorem bit_cases (b : BitVec 1) : b = 0 ∨ b = 1 := by
  revert b
  decide

theorem getLength_of_tr {p : Pkt} (h : p.tr = 1) : p.getLength = 0 := by simp [getLength, getTr, h]

theorem getLength_of_not_tr {p : Pkt} (h : p.tr = 0) : p.getLength = ntohs p.length := by
  simp [getLength, getTr, h]

/-- What `decode` leaves in the packet when it accepts a datagram. -/
structure Accepted (d : List Byte) (q : Pkt) : Prop where
  type_ne : q.getType ≠ 0
  data_or_tr : q.getType = ptypeData ∨ q.getTr = 0
  length_le : q.getLength.toNat ≤ 512
  bytes : d = q.image
  crc1 : q.getCrc1 = q.computeCrc1 crc32
  crc2 : 0 < q.getLength.toNat → q.getCrc2 = crc32 q.payloadBytes

/-- The header checks of `decode`, on a datagram that starts with the header of `q`. -/
theorem decode_header (q pkt : Pkt) (rest : List Byte) :
    decode crc32 (some (q.header ++ rest)) (q.header ++ rest).length pkt =
      if q.type = 0 then some (.eType, q.overlay pkt)
      else if q.type ≠ ptypeData ∧ q.tr ≠ 0 then some (.eTr, q.overlay pkt)
      else if 512 < q.getLength.toNat then some (.eLength, q.overlay pkt)
      else if 12 + rest.length ≠ q.getTotalSize then some (.eUnconsistent, q.overlay pkt)
      else if q.getCrc1 ≠ q.computeCrc1 crc32 then some (.eCrc, q.overlay pkt)
      else (q.overlay pkt).decodePayload crc32 (q.header ++ rest) := by
  have hlen : (q.header ++ rest).length = 12 + rest.length := by simp
  have hread : readAt (q.header ++ rest) 0 headerSize = some q.header := by
    rw [readAt_of_le (by simp)]
    simp
  -- five bits never exceed 31, so `E_WINDOW` is not among the results
  have hwin : ¬ maxWindowSize < (q.overlay pkt).getWindow.toNat := by
    have := q.window.isLt
    simp only [maxWindowSize_eq, getWindow]
    omega
  simp only [decode, hread, hlen, Option.bind_eq_bind, Option.bind_some, copyHeader_header]
  rw [if_neg (by simp), if_neg hwin]
  rfl

/-- The payload stage on a datagram without payload. -/
theorem decodePayload_zero {q : Pkt} (rest : List Byte) (hz : q.getLength.toNat = 0) :
    decodePayload crc32 (q.header ++ rest) q = some (.ok, q) := by
  have hread : readAt (q.header ++ rest) headerSize 0 = some [] := by
    rw [readAt_of_le (by simp)]
    simp
  obtain ⟨payload, hw, hcells⟩ := Block.write_of_le q.payload 0 [] (by simp)
  have hpayload : payload = q.payload := by
    ext1
    simpa using hcells
  simp only [decodePayload, hz, hread, hw, hpayload, Option.bind_eq_bind, Option.bind_some]
  rw [if_neg (by omega)]

/-- The payload stage when the datagram is `q.header ++ body ++ tail` and `tail` holds `crc2`. -/
theorem decodePayload_pos {q : Pkt} {body tail : List Byte} (hpos : 0 < q.getLength.toNat)
    (hle : q.getLength.toNat ≤ 512) (hbody : body.length = q.getLength.toNat)
    (htail : tail.length = 4) :
    ∃ payload : Block Byte maxPayloadSize,
      payload.cells = body ++ q.payload.cells.drop body.length ∧
      decodePayload crc32 (q.header ++ (body ++ tail)) q =
        some (if ntohl (BitVec.ofNat 32 (Endian.ofBytes tail)) ≠ crc32 body then .eCrc else .ok,
          { q with payload := payload, crc2 := BitVec.ofNat 32 (Endian.ofBytes tail) }) := by
  have hread : readAt (q.header ++ (body ++ tail)) headerSize q.getLength.toNat = some body := by
    rw [readAt_of_le (by simp; omega)]
    simp [← hbody]
  have hread' : readAt (q.header ++ (body ++ tail)) (headerSize + q.getLength.toNat) 4 =
      some tail := by
    rw [readAt_of_le (by simp; omega)]
    simp [List.drop_append, ← hbody, ← htail, List.drop_eq_nil_of_le]
  obtain ⟨payload, hw, hcells⟩ := Block.write_of_le q.payload 0 body (by simp; omega)
  simp only [List.take_zero, List.nil_append, Nat.zero_add] at hcells
  have hcrc : readAt payload.cells 0 q.getLength.toNat = some body := by
    rw [readAt_of_le (by rw [payload.length_cells]; simpa using hle), hcells, ← hbody]
    simp
  refine ⟨payload, hcells, ?_⟩
  simp only [decodePayload, hread, hread', hw, Option.bind_eq_bind, Option.bind_some, if_pos hpos,
    computeCrc2, hcrc, Option.map_some, getCrc2]
  by_cases hc : ntohl (BitVec.ofNat 32 (Endian.ofBytes tail)) = crc32 body <;> simp [hc]

/-- How the size test splits the bytes after the header. -/
theorem exists_body {q : Pkt} {rest : List Byte} (h : 12 + rest.length = q.getTotalSize)
    (hpos : 0 < q.getLength.toNat) :
    ∃ body tail, rest = body ++ tail ∧ body.length = q.getLength.toNat ∧ tail.length = 4 := by
  rw [getTotalSize_of_pos hpos] at h
  refine ⟨rest.take q.getLength.toNat, rest.drop q.getLength.toNat, ?_, ?_, ?_⟩
  · rw [List.take_append_drop]
  · rw [List.length_take]; omega
  · rw [List.length_drop]; omega

/-- The size the grammar asks for is the one the decoder computes. -/
theorem size_header {q : Pkt} {rest : List Byte} :
    Wire.size (q.header ++ rest) = q.getTotalSize := by
  rw [Wire.size, Wire.tr_header, Wire.length_header, getTotalSize_eq]
  rcases bit_cases q.tr with h | h
  · rw [getLength_of_not_tr h]
    simp only [h, BitVec.reduceEq, false_or]
    split_ifs <;> omega
  · rw [getLength_of_tr h]
    simp [h]

/-- CRC1 as the grammar and as the decoder compare it. -/
theorem crc1_ne_iff (q : Pkt) (rest : List Byte) :
    Wire.be (q.header ++ rest) 8 4 ≠ (crc32 (Wire.crc1Input (q.header ++ rest))).toNat ↔
      q.getCrc1 ≠ q.computeCrc1 crc32 := by
  rw [Wire.crc1_header, Wire.crc1Input_header]
  exact not_congr BitVec.toNat_inj

/-- CRC2 as the grammar and as the decoder compare it. -/
theorem crc2_ne_iff {q : Pkt} {body tail : List Byte} (htr : q.tr = 0)
    (hbody : body.length = q.getLength.toNat) (htail : tail.length = 4) :
    Wire.be (q.header ++ (body ++ tail)) (12 + Wire.length (q.header ++ (body ++ tail))) 4 ≠
        (crc32 (((q.header ++ (body ++ tail)).drop 12).take
          (Wire.length (q.header ++ (body ++ tail))))).toNat ↔
      ntohl (BitVec.ofNat 32 (Endian.ofBytes tail)) ≠ crc32 body := by
  have hlen : Wire.length (q.header ++ (body ++ tail)) = body.length := by
    rw [Wire.length_header, hbody, getLength_of_not_tr htr]
  have hdrop : (q.header ++ (body ++ tail)).drop 12 = body ++ tail := by simp
  have htake : tail.take 4 = tail := List.take_of_length_le (by omega)
  have hcrc : Wire.be (q.header ++ (body ++ tail)) (12 + body.length) 4 =
      (ntohl (BitVec.ofNat 32 (Endian.ofBytes tail))).toNat := by
    rw [toNat_ntohl, Endian.swap, toBytes_ofNat_ofBytes _ htail (by norm_num), Wire.be,
      ← List.drop_drop, hdrop]
    simp [htake]
  rw [hlen, hcrc, hdrop, List.take_left, Ne, BitVec.toNat_inj]

/-- The grammar on a datagram that starts with the header of `q`. -/
theorem status_header (q : Pkt) (rest : List Byte) :
    Wire.status crc32 (q.header ++ rest) =
      if q.type = 0 then .eType
      else if q.type ≠ ptypeData ∧ q.tr ≠ 0 then .eTr
      else if 512 < q.getLength.toNat then .eLength
      else if 12 + rest.length ≠ q.getTotalSize then .eUnconsistent
      else if Wire.BadCrc crc32 (q.header ++ rest) then .eCrc
      else .ok := by
  have htr : Wire.tr (q.header ++ rest) = 1 ∧ q.type ≠ ptypeData ↔
      q.type ≠ ptypeData ∧ q.tr ≠ 0 := by
    rw [Wire.tr_header]
    rcases bit_cases q.tr with h | h <;> simp [h]
  have hlen : Wire.tr (q.header ++ rest) = 0 ∧ 512 < Wire.length (q.header ++ rest) ↔
      512 < q.getLength.toNat := by
    rw [Wire.tr_header, Wire.length_header]
    rcases bit_cases q.tr with h | h
    · simp [h, getLength_of_not_tr h]
    · simp [h, getLength_of_tr h]
  simp only [Wire.status, htr, hlen, size_header, Wire.type_header]
  rw [if_neg (by simp)]
  simp only [List.length_append, length_header]

/-- The outcome of the payload stage: what the grammar says, and a packet that holds the datagram,
and in the slots behind its payload what they held before. -/
def PayloadDecoded (q pkt : Pkt) (rest : List Byte) : Prop :=
  ∃ q', (q.overlay pkt).decodePayload crc32 (q.header ++ rest) =
      some (if Wire.BadCrc crc32 (q.header ++ rest) then .eCrc else .ok, q') ∧
    (¬ Wire.BadCrc crc32 (q.header ++ rest) → q'.Accepted crc32 (q.header ++ rest) ∧
      q'.payload.cells.drop q'.getLength.toNat = pkt.payload.cells.drop q'.getLength.toNat)

section payload

variable {q : Pkt} (pkt : Pkt) {rest : List Byte} (htype : q.type ≠ 0)
  (hdata : q.type = ptypeData ∨ q.tr = 0) (hcrc : q.getCrc1 = q.computeCrc1 crc32)

include htype hdata hcrc

theorem payloadDecoded_of_zero (hz : q.getLength.toNat = 0) : PayloadDecoded crc32 q pkt [] := by
  have hbad : ¬ Wire.BadCrc crc32 (q.header ++ []) := by
    rintro (h | ⟨h, hpos, -⟩)
    · exact (crc1_ne_iff crc32 q []).1 h hcrc
    · rw [Wire.tr_header] at h
      rw [Wire.length_header, ← getLength_of_not_tr h] at hpos
      omega
  have hdec := decodePayload_zero crc32 (q := q.overlay pkt) [] (by simpa using hz)
  rw [header_overlay] at hdec
  refine ⟨q.overlay pkt, by rw [hdec, if_neg hbad], fun _ => ⟨?_, rfl⟩⟩
  refine ⟨htype, hdata, ?_, ?_, hcrc, fun h => ?_⟩
  · rw [getLength_overlay]
    omega
  · simp [image, payloadBytes, hz]
  · rw [getLength_overlay] at h
    omega

theorem payloadDecoded_of_pos (hpos : 0 < q.getLength.toNat) (hle : q.getLength.toNat ≤ 512)
    {body tail : List Byte} (hbody : body.length = q.getLength.toNat) (htail : tail.length = 4) :
    PayloadDecoded crc32 q pkt (body ++ tail) := by
  have htr : q.tr = 0 := by
    rcases bit_cases q.tr with h | h
    · exact h
    · rw [getLength_of_tr h] at hpos
      exact absurd hpos (by decide)
  have hbad : Wire.BadCrc crc32 (q.header ++ (body ++ tail)) ↔
      ntohl (BitVec.ofNat 32 (Endian.ofBytes tail)) ≠ crc32 body := by
    have hcrc1 := (crc1_ne_iff crc32 q (body ++ tail)).not.2 (not_not.2 hcrc)
    rw [← crc2_ne_iff crc32 htr hbody htail, Wire.BadCrc, Wire.tr_header, Wire.length_header,
      ← getLength_of_not_tr htr]
    simp only [hcrc1, htr, hpos, true_and, false_or]
  obtain ⟨payload, hcells, hdec⟩ := decodePayload_pos crc32 (q := q.overlay pkt)
    (by simpa using hpos) (by simpa using hle) (by simpa using hbody) htail
  rw [header_overlay] at hdec
  have htake : payload.cells.take q.getLength.toNat = body := by
    rw [hcells, ← hbody]
    simp
  refine ⟨{ q.overlay pkt with
    payload := payload
    crc2 := BitVec.ofNat 32 (Endian.ofBytes tail) }, by rw [hdec]; simp only [hbad],
    fun hok => ⟨⟨htype, hdata, hle, ?_, hcrc, fun _ => ?_⟩, ?_⟩⟩
  · change _ = q.header ++ (payload.cells.take q.getLength.toNat ++
      if 0 < q.getLength.toNat then _ else _)
    rw [htake, if_pos hpos, toBytes_ofNat_ofBytes _ htail (by norm_num)]
  · change _ = crc32 (payload.cells.take q.getLength.toNat)
    rw [htake]
    exact not_not.1 (mt hbad.2 hok)
  · change payload.cells.drop q.getLength.toNat = pkt.payload.cells.drop q.getLength.toNat
    rw [hcells, ← hbody, List.drop_left]
    rfl

end payload

/-- The payload stage, once the header checks have passed. -/
theorem decodePayload_spec {q : Pkt} (pkt : Pkt) {rest : List Byte} (htype : q.type ≠ 0)
    (htr : ¬ (q.type ≠ ptypeData ∧ q.tr ≠ 0)) (hle : ¬ 512 < q.getLength.toNat)
    (hsize : 12 + rest.length = q.getTotalSize) (hcrc : q.getCrc1 = q.computeCrc1 crc32) :
    PayloadDecoded crc32 q pkt rest := by
  have hdata : q.type = ptypeData ∨ q.tr = 0 := by
    by_cases h : q.type = ptypeData
    · exact .inl h
    · exact .inr (by_contra fun h' => htr ⟨h, h'⟩)
  rcases Nat.eq_zero_or_pos q.getLength.toNat with hz | hpos
  · have hrest : rest = [] := by
      rw [getTotalSize_of_zero hz] at hsize
      exact List.length_eq_zero_iff.1 (by omega)
    exact hrest ▸ payloadDecoded_of_zero crc32 pkt htype hdata hcrc hz
  · obtain ⟨body, tail, rfl, hbody, htail⟩ := exists_body hsize hpos
    exact payloadDecoded_of_pos crc32 pkt htype hdata hcrc hpos (Nat.le_of_not_lt hle) hbody htail

/-- **The decoder follows the grammar**, and what it leaves in the packet after an accepted
datagram. -/
theorem decode_spec (q pkt : Pkt) (rest : List Byte) :
    ∃ q', decode crc32 (some (q.header ++ rest)) (q.header ++ rest).length pkt =
        some (Wire.status crc32 (q.header ++ rest), q') ∧
      (Wire.status crc32 (q.header ++ rest) = .ok →
        q'.Accepted crc32 (q.header ++ rest) ∧
        q'.payload.cells.drop q'.getLength.toNat = pkt.payload.cells.drop q'.getLength.toNat) := by
  rw [decode_header, status_header]
  by_cases h1 : q.type = 0
  · simp only [if_pos h1]
    exact ⟨_, rfl, nofun⟩
  by_cases h2 : q.type ≠ ptypeData ∧ q.tr ≠ 0
  · simp only [if_neg h1, if_pos h2]
    exact ⟨_, rfl, nofun⟩
  by_cases h3 : 512 < q.getLength.toNat
  · simp only [if_neg h1, if_neg h2, if_pos h3]
    exact ⟨_, rfl, nofun⟩
  by_cases h4 : 12 + rest.length ≠ q.getTotalSize
  · simp only [if_neg h1, if_neg h2, if_neg h3, if_pos h4]
    exact ⟨_, rfl, nofun⟩
  simp only [if_neg h1, if_neg h2, if_neg h3, if_neg h4]
  by_cases h5 : q.getCrc1 ≠ q.computeCrc1 crc32
  · have hbad : Wire.BadCrc crc32 (q.header ++ rest) := .inl ((crc1_ne_iff crc32 _ _).2 h5)
    simp only [if_pos h5, if_pos hbad]
    exact ⟨_, rfl, nofun⟩
  · obtain ⟨q', hdec, hok⟩ := decodePayload_spec crc32 pkt h1 h2 h3 (not_not.1 h4)
      (not_not.1 h5)
    refine ⟨q', by rw [if_neg h5, hdec], fun h => hok fun hbad => ?_⟩
    rw [if_pos hbad] at h
    cases h

/-- A datagram of at least 12 bytes starts with a header. -/
theorem exists_header {d : List Byte} (h : 12 ≤ d.length) :
    ∃ (q : Pkt) (rest : List Byte), d = q.header ++ rest := by
  have hlen : (d.take 12).length = 12 := by simpa using h
  obtain ⟨q, -, hq, -, -⟩ := exists_copyHeader new hlen
  exact ⟨q, d.drop 12, by rw [hq, List.take_append_drop]⟩

/-- Decoding always has a result. -/
theorem exists_decode (d : List Byte) (pkt : Pkt) :
    ∃ r, decode crc32 (some d) d.length pkt = some r := by
  by_cases h : d.length < 12
  · exact ⟨_, by rw [decode, if_pos (by simpa using h)]⟩
  · obtain ⟨q, rest, rfl⟩ := exists_header (Nat.le_of_not_lt h)
    obtain ⟨q', hdec, -⟩ := decode_spec crc32 q pkt rest
    exact ⟨_, hdec⟩

/-- **`pkt_decode` accepts exactly the wire grammar**, with the grammar's priority of errors, for
every datagram, every earlier content of the packet and every checksum function; it always has a
result, so it reads no byte past the datagram and writes none past the payload array. -/
theorem decode_status (d : List Byte) (pkt : Pkt) :
    ∃ q, decode crc32 (some d) d.length pkt = some (Wire.status crc32 d, q) := by
  by_cases h : d.length < 12
  · exact ⟨pkt, by simp [decode, Wire.status, h]⟩
  · obtain ⟨q, rest, rfl⟩ := exists_header (Nat.le_of_not_lt h)
    obtain ⟨q', hdec, -⟩ := decode_spec crc32 q pkt rest
    exact ⟨q', hdec⟩

/-- An accepted datagram is the image of the packet it was decoded into. -/
theorem accepted_of_decode {d : List Byte} {pkt q : Pkt}
    (h : decode crc32 (some d) d.length pkt = some (.ok, q)) :
    q.Accepted crc32 d ∧
      q.payload.cells.drop q.getLength.toNat = pkt.payload.cells.drop q.getLength.toNat := by
  by_cases hd : d.length < 12
  · simp [decode, hd] at h
  · obtain ⟨q₀, rest, rfl⟩ := exists_header (Nat.le_of_not_lt hd)
    obtain ⟨q', hdec, hok⟩ := decode_spec crc32 q₀ pkt rest
    rw [hdec, Option.some.injEq, Prod.mk.injEq] at h
    obtain ⟨hst, rfl⟩ := h
    exact hok hst

end Pkt

end LosslessTransport
