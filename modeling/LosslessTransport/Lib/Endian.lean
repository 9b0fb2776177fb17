import Mathlib.Data.List.Basic
import Mathlib.Data.Nat.Basic
import Mathlib.Tactic.Common
import Mathlib.Tactic.Ring

/-!
# Words as bytes in memory

`Endian.toBytes n x` is the `n`-byte unsigned integer `x` as a little-endian machine stores it,
and `Endian.ofBytes` reads such bytes back.  `Endian.swap n` reverses the bytes of an `n`-byte
integer: it is what `htons`, `ntohs` (`n = 2`), `htonl` and `ntohl` (`n = 4`) do on such a
machine.  The bytes of `swap n x` in order are the big-endian form of `x` (`toBytes_swap`).
-/

namespace Endian

/-- The `n` bytes of `x`, least significant first. -/
def toBytes : ℕ → ℕ → List (BitVec 8)
  | 0, _ => []
  | n + 1, x => BitVec.ofNat 8 x :: toBytes n (x / 256)

/-- The integer with the given bytes, least significant first. -/
def ofBytes : List (BitVec 8) → ℕ
  | [] => 0
  | b :: bs => b.toNat + 256 * ofBytes bs

/-- `x` with its `n` bytes in the opposite order. -/
def swap (n x : ℕ) : ℕ := ofBytes (toBytes n x).reverse

@[simp] theorem length_toBytes (n x : ℕ) : (toBytes n x).length = n := by
  induction n generalizing x with
  | zero => rfl
  | succ n ih => simp [toBytes, ih]

theorem ofBytes_lt (bs : List (BitVec 8)) : ofBytes bs < 256 ^ bs.length := by
  induction bs with
  | nil => simp [ofBytes]
  | cons b bs ih =>
    have hb := b.isLt
    simp only [ofBytes, List.length_cons, Nat.pow_succ]
    omega

theorem ofBytes_toBytes (n x : ℕ) : ofBytes (toBytes n x) = x % 256 ^ n := by
  induction n generalizing x with
  | zero => simp [toBytes, ofBytes, Nat.mod_one]
  | succ n ih =>
    have hpow : 256 ^ (n + 1) = 256 * 256 ^ n := by ring
    rw [toBytes, ofBytes, ih, BitVec.toNat_ofNat, hpow, Nat.mod_mul]

@[simp] theorem toBytes_ofBytes (bs : List (BitVec 8)) :
    toBytes bs.length (ofBytes bs) = bs := by
  induction bs with
  | nil => rfl
  | cons b bs ih =>
    have hb := b.isLt
    have hdiv : (b.toNat + 256 * ofBytes bs) / 256 = ofBytes bs := by omega
    have hmod : BitVec.ofNat 8 (b.toNat + 256 * ofBytes bs) = b := by
      apply BitVec.eq_of_toNat_eq
      rw [BitVec.toNat_ofNat]
      omega
    simp only [List.length_cons, toBytes, ofBytes, hdiv, hmod, ih]

theorem swap_lt (n x : ℕ) : swap n x < 256 ^ n := by
  simpa [swap] using ofBytes_lt (toBytes n x).reverse

/-- The bytes of the swapped integer are those of the integer in the opposite order. -/
theorem toBytes_swap (n x : ℕ) : toBytes n (swap n x) = (toBytes n x).reverse := by
  simpa [swap] using toBytes_ofBytes (toBytes n x).reverse

theorem swap_swap {n x : ℕ} (h : x < 256 ^ n) : swap n (swap n x) = x := by
  rw [swap, toBytes_swap, List.reverse_reverse, ofBytes_toBytes, Nat.mod_eq_of_lt h]

end Endian
