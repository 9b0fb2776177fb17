import Mathlib.Algebra.Ring.Int.Defs
import Mathlib.Data.Finset.Card
import Mathlib.Data.Nat.ModEq
import Mathlib.Tactic.Common
import Mathlib.Tactic.Ring

/-!
# Circular numbering

Numbers taken modulo `M`, as sequence numbers are.  `Circular.dist M b s` is how many steps forward
lead from `b` to `s` on the circle; `s` is in the window of `n` numbers that starts at `b` when
`dist M b s < n`.

A number on the circle stands for one absolute index in any window of length at most `M`:
`Circular.lift M k s` is the index at or after `k` that `s` stands for (`lift_unique`).

Compared as plain numbers, the residues of two indices are in the order of the indices when the step
from one to the other is longer than the laps it completes (`mod_lt_mod_iff`).
-/

namespace Circular

variable {M b s k i : ℕ}

/-- The number of steps forward from `b` to `s` on the circle of `M` numbers. -/
def dist (M b s : ℕ) : ℕ := (s + (M - b)) % M

/-- The first index at or after `k` that is `s` modulo `M`. -/
def lift (M k s : ℕ) : ℕ := k + dist M (k % M) s

theorem dist_lt (hM : 0 < M) : dist M b s < M := Nat.mod_lt _ hM

theorem dist_of_le (hs : s < M) (h : b ≤ s) : dist M b s = s - b := by
  have : s + (M - b) = M + (s - b) := by omega
  rw [dist, this, Nat.add_mod_left, Nat.mod_eq_of_lt (by omega)]

theorem dist_of_lt (hb : b ≤ M) (h : s < b) : dist M b s = s + M - b := by
  rw [dist, Nat.mod_eq_of_lt (by omega)]
  omega

@[simp] theorem dist_self (hb : b < M) : dist M b b = 0 := by
  rw [dist_of_le hb le_rfl, Nat.sub_self]

theorem dist_eq_zero_iff (hb : b < M) (hs : s < M) : dist M b s = 0 ↔ s = b := by
  constructor
  · intro h
    rcases Nat.lt_or_ge s b with hlt | hle
    · rw [dist_of_lt hb.le hlt] at h
      omega
    · rw [dist_of_le hs hle] at h
      omega
  · rintro rfl
    exact dist_self hb

/-- Two numbers at the same distance are the same. -/
theorem dist_inj {t : ℕ} (hb : b < M) (hs : s < M) (ht : t < M) (h : dist M b s = dist M b t) :
    s = t := by
  rcases Nat.lt_or_ge s b with h1 | h1 <;> rcases Nat.lt_or_ge t b with h2 | h2 <;>
    simp only [dist_of_lt hb.le, dist_of_le hs, dist_of_le ht, h1, h2] at h <;> omega

/-- One step forward from `b` brings every other number one step closer. -/
theorem dist_succ (hb : b < M) (hs : s < M) (h : s ≠ b) :
    dist M ((b + 1) % M) s + 1 = dist M b s := by
  rcases Nat.lt_or_ge (b + 1) M with hlt | hge
  · rw [Nat.mod_eq_of_lt hlt]
    rcases Nat.lt_or_ge s b with h1 | h1
    · rw [dist_of_lt hlt.le (by omega), dist_of_lt hb.le h1]
      omega
    · rw [dist_of_le hs (by omega : b + 1 ≤ s), dist_of_le hs h1]
      omega
  · obtain rfl : M = b + 1 := by omega
    rw [Nat.mod_self, dist_of_le hs (Nat.zero_le _), dist_of_lt hb.le (by omega)]
    omega

/-- One step forward at the start is one step back at the number. -/
theorem dist_slide (hb : b < M) (s : ℕ) :
    dist M ((b + 1) % M) s = dist M b ((s + (M - 1)) % M) := by
  rw [dist, dist, Nat.mod_add_mod]
  rcases Nat.lt_or_ge (b + 1) M with hlt | hge
  · rw [Nat.mod_eq_of_lt hlt]
    have : s + (M - 1) + (M - b) = s + (M - (b + 1)) + M := by omega
    rw [this, Nat.add_mod_right]
  · obtain rfl : M = b + 1 := by omega
    rw [Nat.mod_self]
    congr 1
    omega

/-- The distance is the difference modulo `M`. -/
theorem dist_eq_emod (hb : b ≤ M) (s : ℕ) : (dist M b s : ℤ) = ((s : ℤ) - b) % M := by
  have : ((s + (M - b) : ℕ) : ℤ) = (s : ℤ) - b + M := by
    rw [Nat.cast_add, Nat.cast_sub hb]
    ring
  rw [dist, Int.natCast_emod, this, Int.add_emod_right]

/-- The distance between two residues is the difference of the indices, while it is below `M`. -/
theorem dist_mod (hk : k ≤ i) (hi : i < k + M) : dist M (k % M) (i % M) = i - k := by
  have hM : 0 < M := by omega
  obtain ⟨n, rfl⟩ := Nat.exists_eq_add_of_le hk
  have hkm := Nat.mod_lt k hM
  have hadd : (k + n) % M = (k % M + n) % M := by rw [Nat.mod_add_mod]
  rw [hadd, Nat.add_sub_cancel_left]
  rcases Nat.lt_or_ge (k % M + n) M with h | h
  · rw [Nat.mod_eq_of_lt h, dist_of_le h (by omega)]
    omega
  · have hsub : (k % M + n) % M = k % M + n - M := by
      rw [Nat.mod_eq_sub_mod h, Nat.mod_eq_of_lt (by omega)]
    rw [hsub, dist_of_lt hkm.le (by omega)]
    omega

/-- There are `n` numbers less than `n` steps away. -/
theorem card_dist_lt {n : ℕ} (hb : b < M) (hn : n ≤ M) :
    ((Finset.range M).filter fun s => dist M b s < n).card = n := by
  have hback : ∀ i < M, dist M b ((b + i) % M) = i := by
    intro i hi
    have := dist_mod (M := M) (Nat.le_add_right b i) (by omega)
    rwa [Nat.mod_eq_of_lt hb, Nat.add_sub_cancel_left] at this
  have himage : ((Finset.range M).filter fun s => dist M b s < n) =
      (Finset.range n).image fun i => (b + i) % M := by
    ext s
    simp only [Finset.mem_filter, Finset.mem_image, Finset.mem_range]
    constructor
    · rintro ⟨hs, hlt⟩
      refine ⟨dist M b s, hlt, dist_inj hb (Nat.mod_lt _ (by omega)) hs ?_⟩
      exact hback _ (dist_lt (by omega))
    · rintro ⟨i, hi, rfl⟩
      rw [hback i (by omega)]
      exact ⟨Nat.mod_lt _ (by omega), hi⟩
  rw [himage, Finset.card_image_of_injOn, Finset.card_range]
  intro i hi j hj hij
  have hi' := Finset.mem_range.1 hi
  have hj' := Finset.mem_range.1 hj
  rw [← hback i (by omega), ← hback j (by omega)]
  exact congrArg (dist M b) hij

theorem le_lift : k ≤ lift M k s := Nat.le_add_right _ _

theorem lift_lt (hM : 0 < M) : lift M k s < k + M := Nat.add_lt_add_left (dist_lt hM) k

theorem lift_mod (hs : s < M) : lift M k s % M = s := by
  have hkm := Nat.mod_lt k (Nat.zero_lt_of_lt hs)
  have hadd : lift M k s % M = (k % M + dist M (k % M) s) % M := by
    rw [lift, Nat.mod_add_mod]
  rw [hadd]
  rcases Nat.lt_or_ge s (k % M) with h | h
  · rw [dist_of_lt hkm.le h]
    have : k % M + (s + M - k % M) = s + M := by omega
    rw [this, Nat.add_mod_right, Nat.mod_eq_of_lt hs]
  · rw [dist_of_le hs h]
    have : k % M + (s - k % M) = s := by omega
    rw [this, Nat.mod_eq_of_lt hs]

/-- An index less than `M` steps after `k` is the lift of its residue. -/
theorem lift_of_mod (hk : k ≤ i) (hi : i < k + M) : lift M k (i % M) = i := by
  rw [lift, dist_mod hk hi]
  omega

/-- Residues have one index in a window of `M`. -/
theorem lift_unique (hs : s < M) : lift M k s = i ↔ k ≤ i ∧ i < k + M ∧ i % M = s := by
  constructor
  · rintro rfl
    exact ⟨le_lift, lift_lt (Nat.zero_lt_of_lt hs), lift_mod hs⟩
  · rintro ⟨hk, hi, rfl⟩
    exact lift_of_mod hk hi

/-- Moving the window by one keeps the index of every number but the first. -/
theorem lift_succ (hs : s < M) (h : s ≠ k % M) : lift M (k + 1) s = lift M k s := by
  obtain ⟨hk, hlt, hmod⟩ := (lift_unique hs).1 (rfl : lift M k s = lift M k s)
  have hne : lift M k s ≠ k := fun heq => h (by rw [← hmod, heq])
  exact (lift_unique hs).2 ⟨by omega, by omega, hmod⟩

/-- The residues increase from `a` to `b` when more than the laps of the circle lies between. -/
theorem mod_lt_mod_iff {a b : ℕ} (h : a ≤ b) :
    a % M < b % M ↔ M * (b / M - a / M) < b - a := by
  obtain ⟨laps, hlaps⟩ := Nat.exists_eq_add_of_le (Nat.div_le_div_right (c := M) h)
  have ha := Nat.div_add_mod a M
  have hb := Nat.div_add_mod b M
  rw [hlaps, Nat.mul_add] at hb
  rw [hlaps, Nat.add_sub_cancel_left]
  omega

end Circular
