import Mathlib.Algebra.Order.Ring.Int
import Mathlib.Tactic.Common

/-!
# Times in seconds and microseconds

`Timeval` is a `struct timeval` in which the microseconds are normalized, and `timercmp`, `timeradd`
and `timersub` are the macros of `sys/time.h`.  `Timeval.micros` is the time as one number; the
lemmas say that the macros compare, add and subtract these numbers.  Seconds are integers: a
`time_t` does not overflow.
-/

/-- A normalized `struct timeval`. -/
@[ext] structure Timeval where
  sec : ℤ
  usec : ℤ
  usec_nonneg : 0 ≤ usec
  usec_lt : usec < 1000000
  deriving DecidableEq

/-- A normalized `struct timespec`. -/
structure Timespec where
  sec : ℤ
  nsec : ℤ
  nsec_nonneg : 0 ≤ nsec
  nsec_lt : nsec < 1000000000
  deriving DecidableEq

namespace Timeval

/-- The time in microseconds. -/
def micros (a : Timeval) : ℤ := a.sec * 1000000 + a.usec

/-- The time without the nanoseconds. -/
def ofTimespec (tp : Timespec) : Timeval where
  sec := tp.sec
  usec := tp.nsec / 1000
  usec_nonneg := Int.ediv_nonneg tp.nsec_nonneg (by decide)
  usec_lt := by
    have := tp.nsec_lt
    omega

variable (a b : Timeval)

/-- `timercmp (a, b, CMP)`. -/
def timercmp (cmp : ℤ → ℤ → Bool) : Bool :=
  if a.sec = b.sec then cmp a.usec b.usec else cmp a.sec b.sec

/-- `timeradd`. -/
def timeradd : Timeval :=
  if h : a.usec + b.usec ≥ 1000000 then
    { sec := a.sec + b.sec + 1
      usec := a.usec + b.usec - 1000000
      usec_nonneg := by omega
      usec_lt := by have := a.usec_lt; have := b.usec_lt; omega }
  else
    { sec := a.sec + b.sec
      usec := a.usec + b.usec
      usec_nonneg := Int.add_nonneg a.usec_nonneg b.usec_nonneg
      usec_lt := Int.lt_of_not_ge h }

/-- `timersub`. -/
def timersub : Timeval :=
  if h : a.usec - b.usec < 0 then
    { sec := a.sec - b.sec - 1
      usec := a.usec - b.usec + 1000000
      usec_nonneg := by have := a.usec_nonneg; have := b.usec_lt; omega
      usec_lt := by omega }
  else
    { sec := a.sec - b.sec
      usec := a.usec - b.usec
      usec_nonneg := Int.le_of_not_gt h
      usec_lt := by have := a.usec_lt; have := b.usec_nonneg; omega }

variable {a b}

theorem timercmp_lt_iff : timercmp a b (fun x y => x < y) ↔ a.micros < b.micros := by
  have := a.usec_nonneg
  have := a.usec_lt
  have := b.usec_nonneg
  have := b.usec_lt
  unfold timercmp micros
  split_ifs <;> simp only [decide_eq_true_eq] <;> omega

theorem timercmp_ne_iff : timercmp a b (fun x y => x ≠ y) ↔ a.micros ≠ b.micros := by
  have := a.usec_nonneg
  have := a.usec_lt
  have := b.usec_nonneg
  have := b.usec_lt
  unfold timercmp micros
  split_ifs <;> simp only [decide_eq_true_eq] <;> omega

theorem micros_timeradd (a b : Timeval) : (timeradd a b).micros = a.micros + b.micros := by
  unfold timeradd micros
  split_ifs <;> dsimp only <;> omega

theorem micros_timersub (a b : Timeval) : (timersub a b).micros = a.micros - b.micros := by
  unfold timersub micros
  split_ifs <;> dsimp only <;> omega

end Timeval
