import Mathlib.Data.List.Basic
import Mathlib.Tactic.Common

/-!
# Blocks of memory with checked accesses

A C object that is read and written with `memcpy` and `memset` is a list of cells.  An access
that leaves the object is undefined behaviour in C; here it has no result:

* `CMem.readAt src off k` : the `k` cells of `src` from index `off`, or `none` when one of them
  is past the end of `src`;
* `CMem.writeAt dst off src` : the block `dst` with `src` copied over it from index `off`, or
  `none` when one of the cells written is past the end of `dst`;
* `CMem.Block α n` : an array of exactly `n` cells, which stays one under `Block.write` and
  `Block.fillFrom`.

A function built from these that has a result therefore made no access out of bounds.
-/

namespace CMem

variable {α : Type*}

/-- The `k` cells of `src` from index `off`; `none` when one of them is past its end. -/
def readAt (src : List α) (off k : ℕ) : Option (List α) :=
  if off + k ≤ src.length then some ((src.drop off).take k) else none

/-- `dst` with `src` copied over it from index `off`; `none` when a cell written is past the end
of `dst`. -/
def writeAt (dst : List α) (off : ℕ) (src : List α) : Option (List α) :=
  if off + src.length ≤ dst.length then
    some (dst.take off ++ src ++ dst.drop (off + src.length))
  else none

theorem readAt_of_le {src : List α} {off k : ℕ} (h : off + k ≤ src.length) :
    readAt src off k = some ((src.drop off).take k) := if_pos h

theorem length_of_readAt {src dst : List α} {off k : ℕ} (h : readAt src off k = some dst) :
    dst.length = k := by
  unfold readAt at h
  split_ifs at h with hle
  cases h
  rw [List.length_take, List.length_drop]
  omega

theorem writeAt_of_le {dst src : List α} {off : ℕ} (h : off + src.length ≤ dst.length) :
    writeAt dst off src = some (dst.take off ++ src ++ dst.drop (off + src.length)) := if_pos h

theorem writeAt_zero {dst src : List α} (h : src.length ≤ dst.length) :
    writeAt dst 0 src = some (src ++ dst.drop src.length) := by
  rw [writeAt_of_le (by omega)]
  simp

/-- A copy that continues where an earlier one stopped. -/
theorem writeAt_append {pre dst src : List α} (h : src.length ≤ dst.length) :
    writeAt (pre ++ dst) pre.length src = some (pre ++ src ++ dst.drop src.length) := by
  rw [writeAt_of_le (by simp; omega)]
  simp [List.drop_append, List.drop_eq_nil_of_le]

/-- An array of `n` cells. -/
structure Block (α : Type*) (n : ℕ) where
  /-- The cells, first one first. -/
  cells : List α
  length_cells : cells.length = n
  deriving DecidableEq

namespace Block

variable {n : ℕ}

@[ext] theorem ext {a b : Block α n} (h : a.cells = b.cells) : a = b := by
  cases a; cases b; cases h; rfl

/-- The array of `n` copies of `x` (`calloc` for `x = 0`). -/
def replicate (n : ℕ) (x : α) : Block α n := ⟨List.replicate n x, List.length_replicate⟩

/-- `memcpy (b + off, src, length of src)`. -/
def write (b : Block α n) (off : ℕ) (src : List α) : Option (Block α n) :=
  if h : off + src.length ≤ n then
    some ⟨b.cells.take off ++ src ++ b.cells.drop (off + src.length), by
      simp only [List.length_append, List.length_take, List.length_drop, b.length_cells]; omega⟩
  else none

/-- `memset (b + off, x, n - off)`: the cells from index `off` to the end become `x`. -/
def fillFrom (b : Block α n) (off : ℕ) (x : α) (h : off ≤ n) : Block α n :=
  ⟨b.cells.take off ++ List.replicate (n - off) x, by
    simp only [List.length_append, List.length_take, List.length_replicate, b.length_cells]
    omega⟩

theorem cells_of_write {b b' : Block α n} {off : ℕ} {src : List α} (h : b.write off src = some b') :
    b'.cells = b.cells.take off ++ src ++ b.cells.drop (off + src.length) := by
  unfold write at h
  split_ifs at h
  cases h
  rfl

theorem write_of_le (b : Block α n) (off : ℕ) (src : List α) (h : off + src.length ≤ n) :
    ∃ b', b.write off src = some b' ∧
      b'.cells = b.cells.take off ++ src ++ b.cells.drop (off + src.length) :=
  ⟨_, dif_pos h, rfl⟩

end Block

end CMem
