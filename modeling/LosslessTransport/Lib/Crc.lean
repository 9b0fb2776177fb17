import Mathlib.Data.BitVec
import Mathlib.Logic.Function.Iterate

/-!
# Cyclic redundancy checks

A check of `w` bits, for any `w` and any polynomial: a register takes a message one bit at a time,
and `Crc.shift` divides by `x` (least significant bit first, so the polynomial is written with its
constant term at the top).

The register is linear in its content and in the message, and when the constant term of the
polynomial is 1 no step forgets anything.  So two messages that differ in a stretch of at most `w`
bits, and nowhere else, are told apart (`Crc.run_ne_of_burst`); two that differ in two bits are, as
long as the distance between the two is no multiple of the period of the register
(`Crc.run_ne_of_twoFlips`).
-/

namespace Crc

variable {w : ℕ} (poly : BitVec w)

/-- Shift one bit out of the register. -/
def shift (c : BitVec w) : BitVec w :=
  if c.getLsbD 0 then (c >>> 1) ^^^ poly else c >>> 1

/-- A bit as the lowest of a word. -/
def low (b : Bool) : BitVec w := (BitVec.ofBool b).setWidth w

/-- Take one bit into the register. -/
def feed (c : BitVec w) (b : Bool) : BitVec w := shift poly (c ^^^ low b)

/-- Take a message into the register. -/
def run (c : BitVec w) (bs : List Bool) : BitVec w := bs.foldl (feed poly) c

/-- The first `w` bits of a message as a word, the first one lowest. -/
def word : List Bool → BitVec w
  | [] => 0
  | b :: bs => low b ^^^ (word bs <<< 1)

/-- The messages agree but for a stretch of at most `n` bits. -/
def Burst (n : ℕ) (xs ys : List Bool) : Prop :=
  ∃ pre a b post, xs = pre ++ (a ++ post) ∧ ys = pre ++ (b ++ post) ∧ a.length = b.length ∧
    a.length ≤ n

/-- The messages differ in two bits, at distance `n`. -/
def TwoFlips (n : ℕ) (xs ys : List Bool) : Prop :=
  ∃ pre x mid y post, xs = pre ++ (x :: mid ++ y :: post) ∧
    ys = pre ++ ((!x) :: mid ++ (!y) :: post) ∧ n = mid.length + 1

variable {poly} {c d : BitVec w} {bs xs ys : List Bool} {n : ℕ}

/-! ### Linearity -/

theorem shift_xor (c d : BitVec w) : shift poly (c ^^^ d) = shift poly c ^^^ shift poly d := by
  unfold shift
  simp only [BitVec.getLsbD_xor, BitVec.ushiftRight_xor_distrib]
  cases c.getLsbD 0 <;> cases d.getLsbD 0
  · simp
  · simp [BitVec.xor_assoc]
  · simp only [Bool.xor_false, if_true, Bool.false_eq_true, if_false]
    rw [BitVec.xor_assoc, BitVec.xor_assoc, BitVec.xor_comm poly]
  · simp only [Bool.xor_self, Bool.false_eq_true, if_false, if_true]
    rw [BitVec.xor_comm (d >>> 1), ← BitVec.xor_assoc, BitVec.xor_assoc (c >>> 1),
      BitVec.xor_self, BitVec.xor_zero]

theorem run_cons (b : Bool) : run poly c (b :: bs) = run poly (feed poly c b) bs := rfl

theorem run_append : run poly c (xs ++ ys) = run poly (run poly c xs) ys := List.foldl_append

theorem feed_xor (b : Bool) : feed poly (c ^^^ d) b = feed poly c b ^^^ shift poly d := by
  rw [feed, BitVec.xor_assoc, BitVec.xor_comm d, ← BitVec.xor_assoc, shift_xor]
  rfl

/-- A change of the register is shifted through the message. -/
theorem run_xor : run poly (c ^^^ d) bs = run poly c bs ^^^ (shift poly)^[bs.length] d := by
  induction bs generalizing c d with
  | nil => rfl
  | cons b bs ih => rw [run_cons, feed_xor, ih]; rfl

theorem low_not (b : Bool) : (low (!b) : BitVec w) = low b ^^^ low true := by
  cases b <;> simp [low]

/-- A flipped bit changes the register by a shifted 1. -/
theorem feed_not (b : Bool) : feed poly c (!b) = feed poly c b ^^^ shift poly (low true) := by
  rw [feed, low_not, ← BitVec.xor_assoc, shift_xor]
  rfl

/-! ### Nothing is forgotten -/

section constant

variable (hpoly : poly.msb = true)

include hpoly

/-- The bit that is shifted out is the top bit of the result. -/
theorem msb_shift (c : BitVec w) : (shift poly c).msb = c.getLsbD 0 := by
  have hw : 0 < w := by
    by_contra h
    obtain rfl : w = 0 := by omega
    simp [BitVec.msb, BitVec.getMsbD] at hpoly
  have htop : (c >>> 1).msb = false := by
    rw [BitVec.msb_eq_getLsbD_last, BitVec.getLsbD_ushiftRight]
    exact BitVec.getLsbD_of_ge _ _ (by omega)
  unfold shift
  split_ifs with h
  · rw [BitVec.msb_xor, htop, hpoly, h]
    rfl
  · rw [htop]
    simpa using h

theorem shift_injective : Function.Injective (shift poly) := by
  intro c d h
  have hlow : c.getLsbD 0 = d.getLsbD 0 := by
    rw [← msb_shift hpoly c, h, msb_shift hpoly d]
  have hhigh : c >>> 1 = d >>> 1 := by
    unfold shift at h
    rw [hlow] at h
    split_ifs at h
    · exact (BitVec.xor_left_inj _).1 h
    · exact h
  refine BitVec.eq_of_getLsbD_eq fun i hi => ?_
  cases i with
  | zero => exact hlow
  | succ i =>
    have := congrArg (fun x => x.getLsbD i) hhigh
    simpa [BitVec.getLsbD_ushiftRight, Nat.add_comm] using this

theorem run_injective (bs : List Bool) : Function.Injective (run poly · bs) := by
  induction bs with
  | nil => exact fun _ _ h => h
  | cons b bs ih =>
    intro c d h
    exact (BitVec.xor_left_inj _).1 (shift_injective hpoly (ih h))

end constant

/-! ### Short messages -/

theorem getLsbD_low (b : Bool) (i : ℕ) :
    (low b : BitVec w).getLsbD i = (decide (i = 0 ∧ 0 < w) && b) := by
  cases b with
  | false => simp [low]
  | true =>
    simp only [low, BitVec.getLsbD_setWidth, BitVec.getLsbD_ofBool, Bool.and_true]
    by_cases hi : i = 0 <;> simp [hi]

/-- The bits of the word are those of the message. -/
theorem getLsbD_word (bs : List Bool) {i : ℕ} (hi : i < w) :
    (word bs : BitVec w).getLsbD i = bs.getD i false := by
  induction bs generalizing i with
  | nil => simp [word]
  | cons b bs ih =>
    rw [word, BitVec.getLsbD_xor, getLsbD_low, BitVec.getLsbD_shiftLeft]
    cases i with
    | zero => simp [hi]
    | succ i => simp [hi, ih (Nat.lt_of_succ_lt hi)]

/-- Shifting a bit in and out again. -/
theorem shift_shiftLeft_one (h : c.msb = false) : shift poly (c <<< 1) = c := by
  have hlow : (c <<< 1).getLsbD 0 = false := by simp
  rw [shift, hlow, if_neg (by decide)]
  rw [BitVec.msb_eq_getLsbD_last] at h
  refine BitVec.eq_of_getLsbD_eq fun i hi => ?_
  rw [BitVec.getLsbD_ushiftRight, BitVec.getLsbD_shiftLeft]
  by_cases hlast : 1 + i < w
  · have hnext : 1 + i - 1 = i := Nat.add_sub_cancel_left 1 i
    simp [hlast, hnext]
  · obtain rfl : i = w - 1 := by omega
    simp [hlast, h]

/-- A message of at most `w` bits can be taken into the register all at once. -/
theorem run_eq_word (h : bs.length ≤ w) :
    run poly c bs = (shift poly)^[bs.length] (c ^^^ word bs) := by
  induction bs generalizing c with
  | nil => simp [run, word]
  | cons b bs ih =>
    rw [List.length_cons] at h
    have hmsb : (word bs : BitVec w).msb = false := by
      rw [BitVec.msb_eq_getLsbD_last, getLsbD_word _ (by omega), List.getD_eq_getElem?_getD,
        List.getElem?_eq_none (by omega)]
      rfl
    rw [run_cons, ih (by omega), List.length_cons, Function.iterate_succ_apply, word,
      ← BitVec.xor_assoc, shift_xor (c ^^^ low b), shift_shiftLeft_one hmsb]
    rfl

theorem word_inj (hx : xs.length ≤ w) (hlen : xs.length = ys.length)
    (h : (word xs : BitVec w) = word ys) : xs = ys := by
  refine List.ext_getElem hlen fun i hi hi' => ?_
  have := congrArg (fun x => x.getLsbD i) h
  simpa [getLsbD_word _ (Nat.lt_of_lt_of_le hi hx), hi, hi'] using this

/-! ### What is detected -/

variable (hpoly : poly.msb = true)

include hpoly

/-- **Bursts are detected**: messages that differ, but only within `w` bits. -/
theorem run_ne_of_burst (hburst : Burst w xs ys) (hne : xs ≠ ys) (c : BitVec w) :
    run poly c xs ≠ run poly c ys := by
  obtain ⟨pre, a, b, post, rfl, rfl, hlen, hle⟩ := hburst
  intro h
  simp only [run_append] at h
  have hab : run poly (run poly c pre) a = run poly (run poly c pre) b :=
    run_injective hpoly post h
  have ha : run poly (run poly c pre) a = _ := run_eq_word hle
  have hb : run poly (run poly c pre) b = _ := run_eq_word (hlen ▸ hle)
  rw [ha, hb, ← hlen] at hab
  have hword := (BitVec.xor_right_inj _).1 ((shift_injective hpoly).iterate _ hab)
  exact hne (by rw [word_inj hle hlen hword])

/-- A change of the register that a flipped bit undoes is that bit. -/
theorem eq_low_of_feed_not {b : Bool} (h : feed poly c b = feed poly (c ^^^ d) (!b)) :
    d = low true := by
  rw [feed_xor, feed_not, BitVec.xor_assoc] at h
  have hcancel := (BitVec.xor_right_inj _).1 ((BitVec.xor_zero (x := feed poly c b)).trans h)
  exact (shift_injective hpoly (BitVec.xor_eq_zero_iff.1 hcancel.symm)).symm

/-- **Two flipped bits are detected**, when the register does not come back in between. -/
theorem run_ne_of_twoFlips (hflips : TwoFlips n xs ys)
    (hn : (shift poly)^[n] (low true) ≠ low true) (c : BitVec w) :
    run poly c xs ≠ run poly c ys := by
  obtain ⟨pre, x, mid, y, post, rfl, rfl, rfl⟩ := hflips
  intro h
  simp only [run_append, run_cons, List.cons_append] at h
  have hy : feed poly (run poly (feed poly (run poly c pre) x) mid) y =
      feed poly (run poly (feed poly (run poly c pre) (!x)) mid) (!y) :=
    run_injective hpoly post h
  rw [feed_not x, run_xor, ← Function.iterate_succ_apply] at hy
  exact hn (eq_low_of_feed_not hpoly hy)

end Crc
