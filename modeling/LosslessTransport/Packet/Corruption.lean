import LosslessTransport.Lib.Crc32
import LosslessTransport.Packet.Grammar
import LosslessTransport.Util

/-!
# What the two checksums find

CRC1 covers the header without TR, CRC2 the payload.  `Wire.Corrupted` is damage to a datagram in
one of the four places: the header, the payload (within 32 consecutive bits, or two bits), or one of
the checksums themselves (any change).  Such a datagram is refused (`Wire.status_of_corrupted`).

TR is covered by neither checksum, so that a datagram can be truncated on the way; the size of the
datagram is all that protects it.  So one flipped bit is found unless it is the TR bit of a DATA
packet whose length field is 0, such as the packet that signals the end (`Wire.status_flip_iff`).
-/

namespace LosslessTransport

namespace Wire

variable (d : List Byte)

/-- The field CRC1. -/
def crc1Bytes : List Byte := (d.drop 8).take 4

/-- The payload. -/
def payloadBytes : List Byte := (d.drop 12).take (length d)

/-- The field CRC2. -/
def crc2Bytes : List Byte := (d.drop (12 + length d)).take 4

/-- The datagram with a bit flipped. -/
def flip (k i : ℕ) : List Byte := d.modify k (· ^^^ BitVec.twoPow 8 i)

/-- The second datagram is the first with damage in one place. -/
inductive Corrupted (d d' : List Byte) : Prop
  /-- In what CRC1 covers. -/
  | header (damaged : Crc32.Damaged (crc1Input d) (crc1Input d'))
      (same : crc1Bytes d' = crc1Bytes d)
  /-- In CRC1. -/
  | crc1 (changed : crc1Bytes d' ≠ crc1Bytes d) (same : crc1Input d' = crc1Input d)
  /-- In the payload. -/
  | payload (damaged : Crc32.Damaged (payloadBytes d) (payloadBytes d'))
      (head : d'.take 12 = d.take 12) (same : crc2Bytes d' = crc2Bytes d)
  /-- In CRC2. -/
  | crc2 (changed : crc2Bytes d' ≠ crc2Bytes d) (head : d'.take 12 = d.take 12)
      (same : payloadBytes d' = payloadBytes d)

variable {crc32 : List Byte → BitVec 32} {d} {d' : List Byte} {k i : ℕ}

/-! ### Accepted datagrams -/

/-- What the grammar accepts. -/
structure Ok (crc32 : List Byte → BitVec 32) (d : List Byte) : Prop where
  header : 12 ≤ d.length
  type_ne : type d ≠ 0
  data_of_tr : tr d = 1 → type d = ptypeData
  length_le : tr d = 0 → length d ≤ 512
  size : d.length = size d
  crc : ¬ BadCrc crc32 d

theorem status_eq_ok_iff : status crc32 d = .ok ↔ Ok crc32 d := by
  constructor
  · intro h
    unfold status at h
    split_ifs at h with h₁ h₂ h₃ h₄ h₅ h₆
    exact ⟨Nat.le_of_not_lt h₁, h₂, fun htr => by_contra fun hne => h₃ ⟨htr, hne⟩,
      fun htr => Nat.le_of_not_lt fun hlt => h₄ ⟨htr, hlt⟩, not_not.1 h₅, h₆⟩
  · intro h
    rw [status, if_neg (Nat.not_lt.2 h.header), if_neg h.type_ne,
      if_neg fun h' => h'.2 (h.data_of_tr h'.1),
      if_neg fun h' => Nat.not_lt.2 (h.length_le h'.1) h'.2, if_neg (not_not.2 h.size),
      if_neg h.crc]

theorem be_take {n m : ℕ} (h : i + n ≤ m) : be (d.take m) i n = be d i n := by
  rw [be, be, List.drop_take, List.take_take, Nat.min_eq_left (by omega)]

theorem length_congr (h : d'.take 12 = d.take 12) : length d' = length d := by
  rw [length, length, ← be_take (m := 12) (by decide), h, be_take (by decide)]

/-- A number is read from its bytes, and the bytes are those of the number. -/
theorem be_inj {n j : ℕ} (hlen : ((d.drop i).take n).length = ((d'.drop j).take n).length) :
    be d i n = be d' j n ↔ (d.drop i).take n = (d'.drop j).take n := by
  constructor
  · intro h
    have hrev := congrArg (Endian.toBytes ((d.drop i).take n).reverse.length) h
    have hlen' : ((d.drop i).take n).reverse.length = ((d'.drop j).take n).reverse.length := by
      rw [List.length_reverse, List.length_reverse, hlen]
    rw [be, be, Endian.toBytes_ofBytes, hlen', Endian.toBytes_ofBytes] at hrev
    exact List.reverse_injective hrev
  · intro h
    rw [be, be, h]

theorem Ok.crc1 (h : Ok crc32 d) : be d 8 4 = (crc32 (crc1Input d)).toNat :=
  not_not.1 fun hne => h.crc (.inl hne)

/-- A datagram that is longer than its header has a payload, and CRC2 is its checksum. -/
theorem Ok.crc2 (h : Ok crc32 d) (hlong : 12 < d.length) :
    tr d = 0 ∧ 0 < length d ∧ length d ≤ 512 ∧ d.length = 12 + length d + 4 ∧
      be d (12 + length d) 4 = (crc32 (payloadBytes d)).toNat := by
  have hsize := h.size
  unfold Wire.size at hsize
  split_ifs at hsize with hno
  · omega
  obtain ⟨htr, hlen⟩ := not_or.1 hno
  have htr' : tr d = 0 := (Pkt.bit_cases _).resolve_right htr
  refine ⟨htr', Nat.pos_of_ne_zero hlen, h.length_le htr', hsize, not_not.1 fun hne => ?_⟩
  exact h.crc (.inr ⟨htr', Nat.pos_of_ne_zero hlen, hne⟩)

/-! ### Damage is found -/

/-- **Damage in one place is found.** -/
theorem status_of_corrupted (h : status Crc32.crc32 d = .ok) (hd : Corrupted d d')
    (hlen : d'.length = d.length) : status Crc32.crc32 d' ≠ .ok := by
  rw [status_eq_ok_iff] at h
  rw [Ne, status_eq_ok_iff]
  intro h'
  have hcrc1 := h.crc1
  have hcrc1' := h'.crc1
  have hhead := h.header
  cases hd with
  | header damaged same =>
    refine Crc32.crc32_ne_of_damaged damaged ?_ (BitVec.eq_of_toNat_eq ?_)
    · simp only [crc1Input, List.length_modifyHead, List.length_take]
      omega
    · rw [← hcrc1, ← hcrc1', be, be, ← crc1Bytes, ← crc1Bytes, same]
  | crc1 changed same =>
    refine changed ((be_inj ?_).1 (hcrc1'.trans (same ▸ hcrc1.symm)))
    simp only [List.length_take, List.length_drop, hlen]
  | payload damaged head same =>
    have hlong : 12 < d.length := by
      by_contra hle
      refine damaged.1 ?_
      rw [payloadBytes, payloadBytes, List.drop_of_length_le (by omega),
        List.drop_of_length_le (by omega), List.take_nil, List.take_nil]
    obtain ⟨-, -, hle, -, hcrc2⟩ := h.crc2 hlong
    obtain ⟨-, -, -, -, hcrc2'⟩ := h'.crc2 (hlen ▸ hlong)
    refine Crc32.crc32_ne_of_damaged damaged ?_ (BitVec.eq_of_toNat_eq ?_)
    · rw [payloadBytes, List.length_take]
      omega
    · rw [← hcrc2, ← hcrc2', be, be, ← crc2Bytes, ← crc2Bytes, same]
  | crc2 changed head same =>
    have hlong : 12 < d.length := by
      by_contra hle
      refine changed ?_
      rw [crc2Bytes, crc2Bytes, List.drop_of_length_le (by omega),
        List.drop_of_length_le (by omega)]
    obtain ⟨-, -, -, -, hcrc2⟩ := h.crc2 hlong
    obtain ⟨-, -, -, -, hcrc2'⟩ := h'.crc2 (hlen ▸ hlong)
    refine changed ((be_inj ?_).1 (hcrc2'.trans (same ▸ hcrc2.symm)))
    simp only [List.length_take, List.length_drop, hlen, length_congr head]

/-! ### One flipped bit -/

@[simp] theorem length_flip (d : List Byte) (k i : ℕ) : (flip d k i).length = d.length :=
  List.length_modify ..

theorem take_flip (d : List Byte) (k i n : ℕ) : (flip d k i).take n = flip (d.take n) k i :=
  List.take_modify ..

theorem drop_flip {n : ℕ} (d : List Byte) (h : n ≤ k) (i : ℕ) :
    (flip d k i).drop n = flip (d.drop n) (k - n) i :=
  List.drop_modify_of_ge _ _ _ _ h

theorem drop_flip_of_lt {n : ℕ} (d : List Byte) (h : k < n) (i : ℕ) :
    (flip d k i).drop n = d.drop n :=
  List.drop_modify_of_lt _ _ _ _ h

theorem flip_of_le (h : d.length ≤ k) (i : ℕ) : flip d k i = d := List.modify_eq_self h

/-- Flipping a bit twice. -/
@[simp] theorem flip_flip (d : List Byte) (k i : ℕ) : flip (flip d k i) k i = d := by
  have hcancel : ((· ^^^ BitVec.twoPow 8 i) ∘ (· ^^^ BitVec.twoPow 8 i) : Byte → Byte) = id := by
    funext b
    simp only [Function.comp_apply, BitVec.xor_assoc, BitVec.xor_self, BitVec.xor_zero, id]
  rw [flip, flip, List.modify_modify_eq, hcancel, List.modify_id]

theorem flip_ne_self (hi : i < 8) (b : Byte) : b ^^^ BitVec.twoPow 8 i ≠ b := by
  revert i b
  decide +kernel

theorem damaged_flip (hk : k < d.length) (hi : i < 8) : Crc32.Damaged d (flip d k i) :=
  Crc32.damaged_modify hk (flip_ne_self hi)

theorem clear_flip : ∀ i < 8, i ≠ 5 → ∀ b : Byte,
    (b ^^^ BitVec.twoPow 8 i) &&& 0xDF = (b &&& 0xDF) ^^^ BitVec.twoPow 8 i := by
  decide +kernel

theorem clear_flip_tr : ∀ b : Byte, (b ^^^ BitVec.twoPow 8 5) &&& 0xDF = b &&& 0xDF := by
  decide +kernel

/-- A flipped bit of the header, other than TR, is a flipped bit of what CRC1 covers. -/
theorem crc1Input_flip (hi : i < 8) (htr : ¬ (k = 0 ∧ i = 5)) :
    crc1Input (flip d k i) = flip (crc1Input d) k i := by
  unfold crc1Input
  rw [take_flip]
  cases d.take 8 with
  | nil => simp [flip]
  | cons b bs =>
    cases k with
    | zero => exact congrArg (· :: bs) (clear_flip i hi (fun h => htr ⟨rfl, h⟩) b)
    | succ k => simp [flip]

theorem crc1Input_flip_tr (d : List Byte) : crc1Input (flip d 0 5) = crc1Input d := by
  unfold crc1Input
  rw [take_flip]
  cases d.take 8 with
  | nil => rfl
  | cons b bs => exact congrArg (· :: bs) (clear_flip_tr b)

/-- One flipped bit other than TR is damage. -/
theorem corrupted_flip (h : Ok crc32 d) (hk : k < d.length) (hi : i < 8)
    (htr : ¬ (k = 0 ∧ i = 5)) : Corrupted d (flip d k i) := by
  have hhead := h.header
  have hne : ∀ {xs : List Byte} {j}, j < xs.length → flip xs j i ≠ xs :=
    fun hj => (damaged_flip hj hi).1.symm
  by_cases h8 : k < 8
  · refine .header ?_ ?_
    · rw [crc1Input_flip hi htr]
      refine damaged_flip ?_ hi
      simp only [crc1Input, List.length_modifyHead, List.length_take]
      omega
    · rw [crc1Bytes, drop_flip_of_lt d h8, crc1Bytes]
  by_cases h12 : k < 12
  · refine .crc1 ?_ ?_
    · rw [crc1Bytes, drop_flip d (by omega), take_flip]
      refine hne ?_
      rw [List.length_take, List.length_drop]
      omega
    · rw [crc1Input, take_flip, flip_of_le (by rw [List.length_take]; omega), crc1Input]
  have htake : (flip d k i).take 12 = d.take 12 := by
    rw [take_flip, flip_of_le (by rw [List.length_take]; omega)]
  obtain ⟨-, -, -, hlen, -⟩ := h.crc2 (by omega)
  by_cases hpay : k < 12 + length d
  · refine .payload ?_ htake ?_
    · rw [payloadBytes, payloadBytes, length_congr htake, drop_flip d (by omega), take_flip]
      refine damaged_flip ?_ hi
      rw [List.length_take, List.length_drop]
      omega
    · rw [crc2Bytes, length_congr htake, drop_flip_of_lt d hpay, crc2Bytes]
  · refine .crc2 ?_ htake ?_
    · rw [crc2Bytes, length_congr htake, drop_flip d (by omega), take_flip, crc2Bytes]
      refine hne ?_
      rw [List.length_take, List.length_drop]
      omega
    · rw [payloadBytes, length_congr htake, drop_flip d (by omega), take_flip, payloadBytes]
      refine flip_of_le ?_ i
      rw [List.length_take]
      omega

theorem tr_flip_tr : ∀ b : Byte, (b ^^^ BitVec.twoPow 8 5).extractLsb' 5 1 =
    ~~~ b.extractLsb' 5 1 := by
  decide +kernel

theorem type_flip_tr : ∀ b : Byte, (b ^^^ BitVec.twoPow 8 5).extractLsb' 6 2 =
    b.extractLsb' 6 2 := by
  decide +kernel

theorem getD_flip (hd : d ≠ []) : (flip d 0 i).getD 0 0 = d.getD 0 0 ^^^ BitVec.twoPow 8 i := by
  cases d with
  | nil => exact absurd rfl hd
  | cons b bs => rfl

theorem be_flip_tr (d : List Byte) {n : ℕ} (h : 0 < i) : be (flip d 0 5) i n = be d i n := by
  rw [be, drop_flip_of_lt d h, be]

/-- **One flipped bit** of an accepted datagram is found, unless it is the TR bit of a DATA packet
with length field 0. -/
theorem status_flip_iff (h : status Crc32.crc32 d = .ok) (hk : k < d.length) (hi : i < 8) :
    status Crc32.crc32 (flip d k i) = .ok ↔
      k = 0 ∧ i = 5 ∧ type d = ptypeData ∧ length d = 0 := by
  have hok := status_eq_ok_iff.1 h
  by_cases hplace : k = 0 ∧ i = 5
  · obtain ⟨rfl, rfl⟩ := hplace
    have hd : d ≠ [] := List.ne_nil_of_length_pos hk
    have htr : tr (flip d 0 5) = ~~~ tr d := by rw [tr, getD_flip hd, tr_flip_tr, tr]
    have htype : type (flip d 0 5) = type d := by rw [type, getD_flip hd, type_flip_tr, type]
    have hlen : length (flip d 0 5) = length d := be_flip_tr d (by decide)
    rw [status_eq_ok_iff]
    constructor
    · intro h'
      have hsize := hok.size
      have hsize' := h'.size
      rw [length_flip, Wire.size, hlen, htr] at hsize'
      rw [Wire.size] at hsize
      rcases Pkt.bit_cases (tr d) with hbit | hbit
      · rw [hbit] at hsize hsize' htr
        refine ⟨rfl, rfl, htype ▸ h'.data_of_tr htr, ?_⟩
        rw [if_pos (.inl rfl)] at hsize'
        split_ifs at hsize with hz
        · exact hz.resolve_left (by decide)
        · omega
      · rw [hbit] at hsize hsize'
        refine ⟨rfl, rfl, hok.data_of_tr hbit, ?_⟩
        rw [if_pos (.inl rfl)] at hsize
        split_ifs at hsize' with hz
        · exact hz.resolve_left (by decide)
        · omega
    · rintro ⟨-, -, hdata, hz⟩
      have hsize := hok.size
      rw [Wire.size, if_pos (.inr hz)] at hsize
      refine ⟨hok.header.trans_eq (length_flip ..).symm, htype ▸ hok.type_ne,
        fun _ => htype ▸ hdata, fun _ => by omega, ?_, ?_⟩
      · rw [length_flip, Wire.size, hlen, if_pos (.inr hz), hsize]
      · rintro (hbad | ⟨-, hpos, -⟩)
        · rw [be_flip_tr d (by decide), crc1Input_flip_tr] at hbad
          exact hbad hok.crc1
        · omega
  · have hbad := status_of_corrupted h (corrupted_flip hok hk hi hplace) (length_flip ..)
    exact iff_of_false hbad fun h' => hplace ⟨h'.1, h'.2.1⟩

end Wire

/-! ### The decoder -/

namespace Pkt

variable {crc32 : List Byte → BitVec 32} {d d' : List Byte} {pkt q : Pkt} {k i : ℕ}

theorem status_of_decode (h : decode crc32 (some d) d.length pkt = some (.ok, q)) :
    Wire.status crc32 d = .ok := by
  obtain ⟨q', hdec⟩ := decode_status crc32 d pkt
  rw [h, Option.some.injEq, Prod.mk.injEq] at hdec
  exact hdec.1.symm

theorem decode_ok_iff (pkt : Pkt) : (∃ q, decode crc32 (some d) d.length pkt = some (.ok, q)) ↔
    Wire.status crc32 d = .ok := by
  refine ⟨fun ⟨q, h⟩ => status_of_decode h, fun h => ?_⟩
  obtain ⟨q, hdec⟩ := decode_status crc32 d pkt
  exact ⟨q, h ▸ hdec⟩

/-- **Damage in one place is found**: with zlib's CRC-32, `pkt_decode` refuses what is left of an
accepted datagram. -/
theorem decode_of_corrupted (hcrc : crc32 = Crc32.crc32)
    (h : decode crc32 (some d) d.length pkt = some (.ok, q)) (hd : Wire.Corrupted d d')
    (hlen : d'.length = d.length) (pkt' : Pkt) :
    ∃ status q', decode crc32 (some d') d'.length pkt' = some (status, q') ∧ status ≠ .ok := by
  subst hcrc
  obtain ⟨q', hdec⟩ := decode_status Crc32.crc32 d' pkt'
  exact ⟨_, q', hdec, Wire.status_of_corrupted (status_of_decode h) hd hlen⟩

/-- A DATA packet with the payload `hello`. -/
def hello : List Byte :=
  [0x40, 1, 0, 5, 0, 0, 0, 7, 0xBC, 0x4C, 0x0C, 0xE3, 0x68, 0x65, 0x6C, 0x6C, 0x6F, 0x36, 0x10,
    0xA6, 0x86]

/-- The payload has become `help!`. -/
def help : List Byte :=
  [0x40, 1, 0, 5, 0, 0, 0, 7, 0xBC, 0x4C, 0x0C, 0xE3, 0x68, 0x65, 0x6C, 0x70, 0x21, 0x36, 0x10,
    0xA6, 0x86]

theorem accepts_hello : ∃ q, decode Crc32.crc32 (some hello) hello.length new = some (.ok, q) :=
  (decode_ok_iff new).2 (by decide +kernel)

theorem decode_of_corrupted_hello : ∃ status q',
    decode Crc32.crc32 (some help) help.length new = some (status, q') ∧ status ≠ .ok := by
  obtain ⟨q, hq⟩ := accepts_hello
  have hhello : Wire.payloadBytes hello = [0x68, 0x65, 0x6C] ++ ([0x6C, 0x6F] ++ []) := by
    decide +kernel
  have hhelp : Wire.payloadBytes help = [0x68, 0x65, 0x6C] ++ ([0x70, 0x21] ++ []) := by
    decide +kernel
  have hdamaged : Crc32.Damaged (Wire.payloadBytes hello) (Wire.payloadBytes help) := by
    rw [hhello, hhelp]
    exact .of_bytes (by decide) rfl (by decide)
  exact decode_of_corrupted rfl hq (.payload hdamaged rfl (by decide +kernel)) rfl new

/-- **One flipped bit** of an accepted datagram is found with zlib's CRC-32, unless it is the TR bit
of a DATA packet with length field 0: neither checksum covers TR. -/
theorem decode_flip_iff (hcrc : crc32 = Crc32.crc32)
    (h : decode crc32 (some d) d.length pkt = some (.ok, q)) (hk : k < d.length) (hi : i < 8)
    (pkt' : Pkt) :
    (∃ q', decode crc32 (some (Wire.flip d k i)) (Wire.flip d k i).length pkt' =
      some (.ok, q')) ↔ k = 0 ∧ i = 5 ∧ q.getType = ptypeData ∧ (ntohs q.length).toNat = 0 := by
  subst hcrc
  have hd := (accepted_of_decode Crc32.crc32 h).1.bytes
  have htype : Wire.type d = q.getType := by rw [hd, image, Wire.type_header, getType]
  have hlen : Wire.length d = (ntohs q.length).toNat := by rw [hd, image, Wire.length_header]
  rw [decode_ok_iff, Wire.status_flip_iff (status_of_decode h) hk hi, htype, hlen]

theorem decode_flip_iff_hello : ¬ ∃ q',
    decode Crc32.crc32 (some (Wire.flip hello 12 3)) (Wire.flip hello 12 3).length new =
      some (.ok, q') := by
  obtain ⟨q, hq⟩ := accepts_hello
  intro h
  have hplace := (decode_flip_iff rfl hq (by decide) (by decide) new).1 h
  exact absurd hplace.1 (by decide)

end Pkt

end LosslessTransport
