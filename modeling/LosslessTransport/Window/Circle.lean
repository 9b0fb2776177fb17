import LosslessTransport.Window.Pop

/-!
# The numbers in the window

`window_has` compares a number with the two ends of the window, with a case for a window that goes
round from `max_seqnum` to 0.  For every window that window operations make of a `window_create`
with room for the sum of its arguments, `Window.has_iff_emod` reads it as membership in the circular
interval of `size` numbers from `window_start`; so `size` numbers are in the window, and sliding
moves each of them one on.
-/

namespace LosslessTransport.Window

open Circular

variable {w w' w₀ : Window} {size maxSize maxSeqnum : ℕ}

/-- No operation changes what `window_create` was called with, but for the size. -/
theorem fixed_apply {op : Op} (h : w.apply op = some w') :
    w'.maxSeqnum = w.maxSeqnum ∧ w'.capacity = w.capacity := by
  have hpop : ∀ i, (w.popNode i).2.maxSeqnum = w.maxSeqnum ∧
      (w.popNode i).2.capacity = w.capacity := by
    intro i
    unfold popNode
    split <;> exact ⟨rfl, rfl⟩
  cases op with
  | slide | store =>
    cases h
    exact ⟨rfl, rfl⟩
  | slideTo pos =>
    obtain ⟨-, h⟩ := Option.ite_none_right_eq_some.1 h
    cases h
    exact ⟨rfl, rfl⟩
  | resize newSize =>
    cases h
    unfold resize
    split_ifs <;> exact ⟨rfl, rfl⟩
  | push pkt =>
    cases h
    unfold push
    split_ifs <;> exact ⟨rfl, rfl⟩
  | updateTimestamp oldTime newTime =>
    cases h
    rcases updateTimestamp_cases w oldTime newTime with heq | ⟨p, heq⟩
    · rw [heq]
      exact ⟨rfl, rfl⟩
    · rw [heq]
      exact ⟨rfl, rfl⟩
  | popTimestamp | popMinTimestamp | popMinSeqnum =>
    cases h
    exact hpop _

theorem fixed_of_create (h : create size maxSize maxSeqnum = some w) :
    w.maxSeqnum = maxSeqnum ∧ w.capacity = maxSize := by
  obtain ⟨-, h⟩ := Option.ite_none_left_eq_some.1 h
  cases h
  exact ⟨rfl, rfl⟩

/-- What holds of every window made by window operations. -/
theorem wf_of_reachable (hcreate : create size maxSize maxSeqnum = some w₀)
    (h : (LTS.ofStep apply).Reachable w₀ w) :
    w.Wf ∧ w.maxSeqnum = maxSeqnum ∧ w.capacity = maxSize := by
  refine h.invariant (I := fun w => w.Wf ∧ w.maxSeqnum = maxSeqnum ∧ w.capacity = maxSize)
    ⟨Wf.create hcreate, fixed_of_create hcreate⟩ ?_
  rintro w op w' ⟨hwf, hmax, hcap⟩ hop
  obtain ⟨hmax', hcap'⟩ := fixed_apply hop
  exact ⟨hwf.apply hop, hmax'.trans hmax, hcap'.trans hcap⟩

/-- **The numbers in the window**: those at most `size - 1` steps on from `window_start`, going
round after `max_seqnum`.  There are `size` of them, and after `window_slide` they are the ones that
follow a number that was in the window before. -/
theorem has_iff_emod (hcreate : create size maxSize maxSeqnum = some w₀)
    (h : (LTS.ofStep apply).Reachable w₀ w) (hcap : maxSize ≤ maxSeqnum + 1)
    (hov : maxSeqnum + maxSize < 2 ^ 64) :
    (∀ s ≤ maxSeqnum, w.has s ↔ ((s : ℤ) - w.start) % (maxSeqnum + 1 : ℕ) < w.size) ∧
    ((Finset.range (maxSeqnum + 1)).filter fun s => w.has s).card = w.size ∧
    ∀ s ≤ maxSeqnum, w.slide.has s ↔ w.has ((s + maxSeqnum) % (maxSeqnum + 1)) := by
  obtain ⟨hwf, rfl, rfl⟩ := wf_of_reachable hcreate h
  have hpos : w.pos < w.maxSeqnum + 1 := Nat.lt_succ_of_le hwf.pos_le
  have hhas : ∀ s ≤ w.maxSeqnum, w.has s ↔ dist (w.maxSeqnum + 1) w.pos s < w.size :=
    fun s hs => hwf.has_iff hcap hov hs
  refine ⟨fun s hs => ?_, ?_, fun s hs => ?_⟩
  · rw [hhas s hs, start, ← dist_eq_emod hpos.le, Nat.cast_lt]
  · have hfilter : ((Finset.range (w.maxSeqnum + 1)).filter fun s => w.has s) =
        (Finset.range (w.maxSeqnum + 1)).filter fun s =>
          dist (w.maxSeqnum + 1) w.pos s < w.size :=
      Finset.filter_congr fun s hs => hhas s (Nat.le_of_lt_succ (Finset.mem_range.1 hs))
    rw [hfilter, card_dist_lt hpos (hwf.size_le.trans hcap)]
  · have hpred : (s + w.maxSeqnum) % (w.maxSeqnum + 1) ≤ w.maxSeqnum :=
      Nat.le_of_lt_succ (Nat.mod_lt _ (Nat.succ_pos _))
    have hslid : w.slide.has s ↔ dist (w.maxSeqnum + 1) w.slide.pos s < w.slide.size :=
      hwf.slide.has_iff hcap hov hs
    rw [hslid, hhas _ hpred, slide, dist_slide hpos, Nat.add_sub_cancel]

/-- The window `[3 0] 1 2`: three slides of a window of two numbers out of four. -/
theorem has_iff_emod_wrapped :
    ∃ w : Window, w.start = 3 ∧ w.size = 2 ∧ (w.has 0 ↔ ((0 : ℤ) - 3) % (4 : ℕ) < 2) ∧
      ((Finset.range 4).filter fun s => w.has s).card = 2 := by
  have hrun : LTS.run apply ⟨3, 4, 2, 0, 0, []⟩ [.slide, .slide, .slide] =
      some ⟨3, 4, 2, 3, 0, []⟩ := rfl
  have hcreate : create 2 4 3 = some ⟨3, 4, 2, 0, 0, []⟩ := rfl
  obtain ⟨hhas, hcard, -⟩ :=
    has_iff_emod hcreate (LTS.reachable_of_run hrun) (by decide) (by decide)
  exact ⟨_, rfl, rfl, hhas 0 (by decide), hcard⟩

end LosslessTransport.Window
