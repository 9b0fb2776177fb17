import LosslessTransport.Lib.Crc
import Mathlib.Data.List.Basic

/-!
# CRC-32

The cyclic redundancy check of zlib's `crc32`: polynomial `0x04C11DB7`, bits taken least
significant first, register and result complemented.

`Crc32.crc32_ne_of_damaged` says what it finds in a message of at most 512 bytes: any change within
32 consecutive bits, and any two flipped bits.
-/

namespace Crc32

/-- Shift one bit out of the register. -/
def shift (c : BitVec 32) : BitVec 32 :=
  if c.getLsbD 0 then (c >>> 1) ^^^ 0xEDB88320 else c >>> 1

/-- Take one byte into the register. -/
def update (c : BitVec 32) (b : BitVec 8) : BitVec 32 :=
  shift (shift (shift (shift (shift (shift (shift (shift (c ^^^ b.setWidth 32))))))))

/-- The checksum of a buffer, started from 0. -/
def crc32 (bs : List (BitVec 8)) : BitVec 32 := ~~~ bs.foldl update 0xFFFFFFFF

/-- The check value: the checksum of the digits `123456789`. -/
example : crc32 [0x31, 0x32, 0x33, 0x34, 0x35, 0x36, 0x37, 0x38, 0x39] = 0xCBF43926 := by
  decide +kernel

/-! ### As a check of a string of bits -/

/-- The polynomial. -/
def poly : BitVec 32 := 0xEDB88320

/-- The bits of a byte, least significant first. -/
def byteBits (b : BitVec 8) : List Bool := (List.range 8).map b.getLsbD

/-- The bits of a message, in the order in which they are taken. -/
def bits (bs : List (BitVec 8)) : List Bool := bs.flatMap byteBits

/-- The messages differ, but only within 32 consecutive bits or in two bits. -/
def Damaged (xs ys : List (BitVec 8)) : Prop :=
  xs ≠ ys ∧ (Crc.Burst 32 (bits xs) (bits ys) ∨ ∃ n, Crc.TwoFlips n (bits xs) (bits ys))

variable {xs ys bs : List (BitVec 8)}

@[simp] theorem length_byteBits (b : BitVec 8) : (byteBits b).length = 8 := rfl

theorem length_bits (bs : List (BitVec 8)) : (bits bs).length = 8 * bs.length := by
  induction bs with
  | nil => rfl
  | cons b bs ih =>
    rw [bits, List.flatMap_cons, List.length_append, length_byteBits, ← bits, ih, List.length_cons]
    omega

theorem bits_append (xs ys : List (BitVec 8)) : bits (xs ++ ys) = bits xs ++ bits ys :=
  List.flatMap_append

theorem getD_byteBits (b : BitVec 8) (i : ℕ) : (byteBits b).getD i false = b.getLsbD i := by
  by_cases h : i < 8
  · simp [byteBits, List.getD_eq_getElem?_getD, h]
  · rw [BitVec.getLsbD_of_ge _ _ (by omega), List.getD_eq_getElem?_getD,
      List.getElem?_eq_none (by simpa using h)]
    rfl

theorem byteBits_injective : Function.Injective byteBits := fun b b' h =>
  BitVec.eq_of_getLsbD_eq fun i _ => by rw [← getD_byteBits, h, getD_byteBits]

theorem bits_injective : Function.Injective bits := by
  intro xs
  induction xs with
  | nil =>
    intro ys h
    have hlen := congrArg List.length h
    rw [length_bits, length_bits, List.length_nil] at hlen
    exact (List.length_eq_zero_iff.1 (by omega)).symm
  | cons x xs ih =>
    intro ys h
    cases ys with
    | nil => exact absurd (congrArg List.length h) (by simp [length_bits])
    | cons y ys =>
      obtain ⟨hx, hxs⟩ := List.append_inj h rfl
      rw [byteBits_injective hx, ih hxs]

/-- A byte is taken bit by bit. -/
theorem update_eq_run (c : BitVec 32) (b : BitVec 8) :
    update c b = Crc.run poly c (byteBits b) := by
  have hword : (Crc.word (byteBits b) : BitVec 32) = b.setWidth 32 := by
    refine BitVec.eq_of_getLsbD_eq fun i hi => ?_
    rw [Crc.getLsbD_word _ hi, getD_byteBits, BitVec.getLsbD_setWidth]
    simp [hi]
  rw [Crc.run_eq_word ((length_byteBits b).trans_le (by decide)), hword]
  rfl

theorem foldl_update (c : BitVec 32) (bs : List (BitVec 8)) :
    bs.foldl update c = Crc.run poly c (bits bs) := by
  induction bs generalizing c with
  | nil => rfl
  | cons b bs ih =>
    rw [List.foldl_cons, ih, update_eq_run, ← Crc.run_append]
    rfl

theorem crc32_inj_iff :
    crc32 xs = crc32 ys ↔
      Crc.run poly 0xFFFFFFFF (bits xs) = Crc.run poly 0xFFFFFFFF (bits ys) := by
  rw [crc32, crc32, foldl_update, foldl_update, BitVec.not_inj]

/-! ### What it finds -/

/-- Does the register come back to 1 within `n` shifts? -/
def comesBack : ℕ → BitVec 32 → Bool
  | 0, _ => false
  | n + 1, c => shift c == 1 || comesBack n (shift c)

theorem iterate_shift_ne (n : ℕ) {k : ℕ} (c : BitVec 32) (h : comesBack n c = false) (hk : k < n) :
    shift^[k + 1] c ≠ 1 := by
  induction n generalizing c k with
  | zero => exact absurd hk (Nat.not_lt_zero k)
  | succ n ih =>
    rw [comesBack, Bool.or_eq_false_iff] at h
    cases k with
    | zero => simpa using h.1
    | succ k => exact ih (shift c) h.2 (Nat.lt_of_succ_lt_succ hk)

/-- **CRC-32 finds** a change within 32 consecutive bits, and two flipped bits. -/
theorem crc32_ne_of_damaged (h : Damaged xs ys) (hlen : xs.length ≤ 512) : crc32 xs ≠ crc32 ys := by
  obtain ⟨hne, hburst | ⟨n, hflips⟩⟩ := h
  · exact mt crc32_inj_iff.1 (Crc.run_ne_of_burst (by decide) hburst (bits_injective.ne hne) _)
  · refine mt crc32_inj_iff.1 (Crc.run_ne_of_twoFlips (by decide) hflips ?_ _)
    obtain ⟨pre, x, mid, y, post, hxs, -, rfl⟩ := hflips
    have hbits := congrArg List.length hxs
    rw [length_bits] at hbits
    simp only [List.length_append, List.length_cons] at hbits
    exact iterate_shift_ne 4096 1 (by decide +kernel) (by omega)

/-- A change within four consecutive bytes. -/
theorem Damaged.of_bytes {pre a b post : List (BitVec 8)} (hne : a ≠ b) (hlen : a.length = b.length)
    (hle : a.length ≤ 4) : Damaged (pre ++ (a ++ post)) (pre ++ (b ++ post)) := by
  refine ⟨fun h => hne ?_, .inl ⟨bits pre, bits a, bits b, bits post, ?_, ?_, ?_, ?_⟩⟩
  · exact List.append_cancel_right (List.append_cancel_left h)
  · simp only [bits_append]
  · simp only [bits_append]
  · rw [length_bits, length_bits, hlen]
  · rw [length_bits]
    omega

/-- A changed byte. -/
theorem damaged_modify {f : BitVec 8 → BitVec 8} {k : ℕ} (hk : k < xs.length)
    (hf : ∀ b, f b ≠ b) : Damaged xs (xs.modify k f) := by
  have hxs : xs = xs.take k ++ ([xs[k]] ++ xs.drop (k + 1)) := by simp
  have hys : xs.modify k f = xs.take k ++ ([f xs[k]] ++ xs.drop (k + 1)) := by
    rw [List.modify_eq_take_cons_drop hk]
    rfl
  have hne : [xs[k]] ≠ [f xs[k]] := fun h => hf _ (List.singleton_inj.1 h).symm
  have hdamaged : Damaged (xs.take k ++ ([xs[k]] ++ xs.drop (k + 1)))
      (xs.take k ++ ([f xs[k]] ++ xs.drop (k + 1))) :=
    .of_bytes hne rfl (Nat.le_add_left 1 3)
  rwa [← hxs, ← hys] at hdamaged

end Crc32
