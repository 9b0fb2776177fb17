import Mathlib.Data.List.Chain
import LosslessTransport.Lib.Circular
import LosslessTransport.Lib.Timeval
import LosslessTransport.Sender.Basic

/-!
# The monotonic clock

`Clock.getMonotime` is `get_monotime` of `util.c` with its static variables; `Clock.values` are the
values of the calls of a process, one for each reading of the system's clock.

`Clock.elapsed` are the times the calls stand for: microseconds since the first call, and at least
one more than the last.  They increase strictly, whatever the system's clock does, and the values
are these times in 32 bits (`Clock.values_eq`).  So the values increase as long as the times do not
wrap (`Clock.strictlyMonotonic_iff`).
-/

namespace LosslessTransport

namespace Clock

open Timeval

/-- The static variables of `get_monotime`. -/
structure Statics where
  /-- Whether this is the first call. -/
  firstCall : Bool
  /-- Unnormalized value returned by the first call. -/
  first : Timeval
  /-- Unnormalized value returned by the last call. -/
  last : Timeval

/-- One microsecond. -/
def us : Timeval := ⟨0, 1, by decide, by decide⟩

/-- Before the first call. -/
def Statics.init : Statics where
  firstCall := true
  first := ⟨0, 0, by decide, by decide⟩
  last := ⟨0, 0, by decide, by decide⟩

/-- `get_monotime`, when the system's clock says `nowTp`. -/
def getMonotime (s : Statics) (nowTp : Timespec) : BitVec 32 × Statics :=
  let now := ofTimespec nowTp
  let first := if s.firstCall then now else s.first
  let now :=
    if s.firstCall then now
    -- not strictly greater than the last time returned
    else if timercmp now s.last (fun x y => x < y) || !timercmp now s.last (fun x y => x ≠ y) then
      timeradd s.last us
    else now
  let res := timersub now first
  (BitVec.ofInt 32 (res.sec * 1000000 + res.usec), ⟨false, first, now⟩)

/-- `micro_to_timeval`, the timeout that is handed to `select`. -/
def microToTimeval (us : BitVec 32) : Timeval where
  sec := us.toNat / 1000000
  usec := us.toNat % 1000000
  usec_nonneg := by omega
  usec_lt := by omega

/-- The values of the calls to come. -/
def calls : Statics → List Timespec → List (BitVec 32)
  | _, [] => []
  | s, tp :: tps => (getMonotime s tp).1 :: calls (getMonotime s tp).2 tps

/-- The values of all calls. -/
def values (tps : List Timespec) : List (BitVec 32) := calls .init tps

/-- What `util.h` promises, and what it is for: the first value is 0, each is larger than the one
before it, and so no two packets are stamped with the same deadline. -/
structure StrictlyMonotonic (values : List (BitVec 32)) : Prop where
  zero : ∀ v ∈ values.head?, v = 0
  increasing : values.IsChain (· < ·)
  distinct : (values.map (· + Sender.timer)).Nodup

/-- The times of the calls after one at `last`, in microseconds since `first`. -/
def elapsedFrom (first : Timeval) : ℕ → List Timespec → List ℕ
  | _, [] => []
  | last, tp :: tps =>
    let now := max (last + 1) ((ofTimespec tp).micros - first.micros).toNat
    now :: elapsedFrom first now tps

/-- The times of the calls. -/
def elapsed : List Timespec → List ℕ
  | [] => []
  | tp :: tps => 0 :: elapsedFrom (ofTimespec tp) 0 tps

/-- From time `a` to time `b` the clock advances by more than the laps of 2^32 microseconds that it
completes. -/
def Leaps (a b : ℕ) : Prop := 2 ^ 32 * (b / 2 ^ 32 - a / 2 ^ 32) < b - a

variable {s : Statics} {tps : List Timespec}

/-- The timeout is the one asked for. -/
theorem micros_microToTimeval (us : BitVec 32) : (microToTimeval us).micros = us.toNat := by
  show (us.toNat : ℤ) / 1000000 * 1000000 + us.toNat % 1000000 = us.toNat
  omega

theorem micros_us : us.micros = 1 := rfl

/-- The first call. -/
theorem getMonotime_first (hcall : s.firstCall = true) (tp : Timespec) :
    getMonotime s tp = (0, ⟨false, ofTimespec tp, ofTimespec tp⟩) := by
  have hzero := micros_timersub (ofTimespec tp) (ofTimespec tp)
  rw [Int.sub_self, micros] at hzero
  simp only [getMonotime, hcall, if_true, hzero]
  rfl

/-- The time of a call after the first one, when the last time was `last`. -/
theorem micros_getMonotime (hcall : s.firstCall = false) {last : ℕ}
    (hlast : s.last.micros = s.first.micros + last) (tp : Timespec) :
    (getMonotime s tp).2.last.micros =
      s.first.micros + max (last + 1) ((ofTimespec tp).micros - s.first.micros).toNat := by
  simp only [getMonotime, hcall, Bool.false_eq_true, if_false]
  by_cases hgt : s.last.micros < (ofTimespec tp).micros
  · -- strictly greater than the last time
    have hlt : timercmp (ofTimespec tp) s.last (fun x y => x < y) = false := by
      rw [Bool.eq_false_iff, ne_eq, timercmp_lt_iff]
      omega
    have hne : timercmp (ofTimespec tp) s.last (fun x y => x ≠ y) = true :=
      timercmp_ne_iff.2 (by omega)
    rw [hlt, hne, if_neg (by decide)]
    omega
  · have hcmp : (timercmp (ofTimespec tp) s.last (fun x y => x < y) ||
        !timercmp (ofTimespec tp) s.last (fun x y => x ≠ y)) = true := by
      rw [Bool.or_eq_true, Bool.not_eq_true', Bool.eq_false_iff, ne_eq, timercmp_lt_iff,
        timercmp_ne_iff]
      omega
    rw [hcmp, if_pos rfl, micros_timeradd, micros_us]
    omega

/-- The value of a call is the time, in 32 bits. -/
theorem getMonotime_eq (hcall : s.firstCall = false) {now : ℕ} {tp : Timespec}
    (hnow : (getMonotime s tp).2.last.micros = s.first.micros + now) :
    (getMonotime s tp).1 = BitVec.ofNat 32 now ∧ (getMonotime s tp).2.firstCall = false ∧
      (getMonotime s tp).2.first = s.first := by
  have hfirst : (getMonotime s tp).2.first = s.first := by
    simp only [getMonotime, hcall, Bool.false_eq_true, if_false]
  refine ⟨?_, rfl, hfirst⟩
  have hvalue : (getMonotime s tp).1 =
      BitVec.ofInt 32 (timersub (getMonotime s tp).2.last (getMonotime s tp).2.first).micros := rfl
  rw [hvalue, micros_timersub, hfirst, hnow, add_sub_cancel_left, BitVec.ofInt_natCast]

theorem calls_eq (hcall : s.firstCall = false) {last : ℕ}
    (hlast : s.last.micros = s.first.micros + last) :
    calls s tps = (elapsedFrom s.first last tps).map (BitVec.ofNat 32) := by
  induction tps generalizing s last with
  | nil => rfl
  | cons tp tps ih =>
    have hnow := micros_getMonotime hcall hlast tp
    obtain ⟨hvalue, hcall', hfirst⟩ := getMonotime_eq hcall hnow
    rw [← hfirst] at hnow
    rw [calls, ih hcall' hnow, hvalue, hfirst]
    rfl

/-- **What `get_monotime` returns**: the times of the calls, in 32 bits. -/
theorem values_eq (tps : List Timespec) : values tps = (elapsed tps).map (BitVec.ofNat 32) := by
  cases tps with
  | nil => rfl
  | cons tp tps =>
    have hlast : (ofTimespec tp).micros = (ofTimespec tp).micros + (0 : ℕ) := (add_zero _).symm
    rw [values, calls, getMonotime_first rfl, calls_eq rfl hlast]
    rfl

theorem isChain_elapsedFrom (first : Timeval) (last : ℕ) (tps : List Timespec) :
    (last :: elapsedFrom first last tps).IsChain (· < ·) := by
  induction tps generalizing last with
  | nil => exact .singleton _
  | cons tp tps ih => exact .cons_cons (by omega) (ih _)

/-- The times increase strictly. -/
theorem isChain_elapsed (tps : List Timespec) : (elapsed tps).IsChain (· < ·) := by
  cases tps with
  | nil => exact .nil
  | cons tp tps => exact isChain_elapsedFrom _ 0 tps

/-- Values that increase strictly are distinct deadlines. -/
theorem nodup_deadlines {values : List (BitVec 32)} (h : values.IsChain (· < ·)) :
    (values.map (· + Sender.timer)).Nodup := by
  have hpairwise : values.Pairwise (· < ·) := by
    rw [← List.isChain_iff_pairwise]
    exact h
  have hnodup : values.Nodup := hpairwise.imp BitVec.ne_of_lt
  exact hnodup.map fun a b hab => (BitVec.add_left_inj Sender.timer).1 hab

/-- The values increase from one call to the next. -/
theorem ofNat_lt_iff_leaps {a b : ℕ} (h : a < b) :
    BitVec.ofNat 32 a < BitVec.ofNat 32 b ↔ Leaps a b := by
  rw [BitVec.lt_def, BitVec.toNat_ofNat, BitVec.toNat_ofNat, Circular.mod_lt_mod_iff h.le, Leaps]

theorem isChain_values_iff (tps : List Timespec) :
    (values tps).IsChain (· < ·) ↔ (elapsed tps).IsChain Leaps := by
  rw [values_eq, List.isChain_map, List.isChain_iff_getElem, List.isChain_iff_getElem]
  refine forall₂_congr fun i hi => ofNat_lt_iff_leaps ?_
  exact List.isChain_iff_getElem.1 (isChain_elapsed tps) i hi

/-- The first value is 0, so it is the values' increase that matters. -/
theorem strictlyMonotonic_values_iff (tps : List Timespec) :
    StrictlyMonotonic (values tps) ↔ (values tps).IsChain (· < ·) := by
  constructor
  · rintro ⟨-, hinc, -⟩
    exact hinc
  · intro hinc
    refine ⟨?_, hinc, nodup_deadlines hinc⟩
    rw [values_eq]
    cases tps with
    | nil => nofun
    | cons tp tps =>
      rintro v hv
      exact (Option.some.inj hv).symm

/-- With times less than 2^32 apart, there is no lap to complete. -/
theorem isChain_leaps_iff {times : List ℕ} (hinc : times.IsChain (· < ·))
    (hclose : times.IsChain fun a b => b - a < 2 ^ 32) (hhead : ∀ a ∈ times.head?, a < 2 ^ 32) :
    times.IsChain Leaps ↔ ∀ a ∈ times, a < 2 ^ 32 := by
  induction times with
  | nil => exact ⟨fun _ => nofun, fun _ => .nil⟩
  | cons a times ih =>
    have ha : a < 2 ^ 32 := hhead a rfl
    cases times with
    | nil => exact ⟨fun _ => List.forall_mem_singleton.2 ha, fun _ => .singleton a⟩
    | cons b times =>
      obtain ⟨hab, hinc⟩ := List.isChain_cons_cons.1 hinc
      obtain ⟨hgap, hclose⟩ := List.isChain_cons_cons.1 hclose
      have hleaps : Leaps a b ↔ b < 2 ^ 32 := by
        unfold Leaps
        omega
      rw [List.isChain_cons_cons, List.forall_mem_cons, and_iff_right ha, hleaps]
      constructor
      · rintro ⟨hb, hrest⟩
        exact (ih hinc hclose fun x hx => Option.some.inj hx ▸ hb).1 hrest
      · intro hall
        have hb := hall b (List.mem_cons_self ..)
        exact ⟨hb, (ih hinc hclose fun x hx => Option.some.inj hx ▸ hb).2 hall⟩

/-- With calls less than 2^32 microseconds apart, the values increase until the clock wraps. -/
theorem isChain_values_iff_lt (hclose : (elapsed tps).IsChain fun a b => b - a < 2 ^ 32) :
    (values tps).IsChain (· < ·) ↔ ∀ time ∈ elapsed tps, time < 2 ^ 32 := by
  rw [isChain_values_iff]
  refine isChain_leaps_iff (isChain_elapsed tps) hclose ?_
  cases tps with
  | nil => nofun
  | cons tp tps =>
    intro time htime
    exact Option.some.inj htime ▸ Nat.two_pow_pos 32

/-- **When `get_monotime` is strictly monotonic**: exactly when from each call to the next the clock
advances by more than the laps of 2^32 microseconds that it completes.  With calls less than 2^32
microseconds apart that is as long as the time does not reach 2^32. -/
theorem strictlyMonotonic_iff (tps : List Timespec) :
    (StrictlyMonotonic (values tps) ↔ (elapsed tps).IsChain Leaps) ∧
      (((elapsed tps).IsChain fun a b => b - a < 2 ^ 32) →
        (StrictlyMonotonic (values tps) ↔ ∀ time ∈ elapsed tps, time < 2 ^ 32)) := by
  rw [strictlyMonotonic_values_iff]
  exact ⟨isChain_values_iff tps, isChain_values_iff_lt⟩

/-- The system's clock stands still, and goes back by a second. -/
theorem strictlyMonotonic_backwards :
    values [⟨5, 0, by decide, by decide⟩, ⟨5, 0, by decide, by decide⟩,
        ⟨4, 0, by decide, by decide⟩] = [0, 1, 2] ∧
      StrictlyMonotonic (values [⟨5, 0, by decide, by decide⟩, ⟨5, 0, by decide, by decide⟩,
        ⟨4, 0, by decide, by decide⟩]) :=
  ⟨by decide, ((strictlyMonotonic_iff _).2 (by decide)).2 (by decide)⟩

/-- A call 4294.967296 seconds after the first one returns 0 again. -/
theorem monotime_wraps :
    ¬ StrictlyMonotonic (values [⟨0, 0, by decide, by decide⟩,
      ⟨4294, 967296000, by decide, by decide⟩]) := by
  rintro ⟨-, hinc, -⟩
  revert hinc
  decide

/-- The readings of the sender's iterations are these times. -/
theorem getMonotime_drop_elapsed {i : ℕ} (h : i < (elapsed tps).length) :
    ∃ v, (values tps)[i]? = some v ∧ LosslessTransport.getMonotime ((elapsed tps).drop i) =
      .ok (v, (elapsed tps).drop (i + 1)) := by
  refine ⟨BitVec.ofNat 32 (elapsed tps)[i], ?_, ?_⟩
  · rw [values_eq, List.getElem?_map, List.getElem?_eq_getElem h]
    rfl
  · rw [List.drop_eq_getElem_cons h]
    rfl

end Clock

end LosslessTransport
