import Mathlib.Data.Finset.Card
import Mathlib.Data.Finset.Range
import Mathlib.Tactic.Common

/-!
# What the two ends of a selective-repeat protocol know of each other

Items are numbered in the order in which the sender makes them.  A `View` is what the receiver has
got at some moment: the items before `next`, and the ones in `early`, which lie beyond.  Views grow
with time, and the sender sees them late.

* `Outstanding n held v` : of `n` items the sender holds `held`, and the view `v` has the others.
  `Outstanding.acknowledge` is the rule for a later view, `Outstanding.make` for a new item, and
  `Outstanding.count` bounds the number of items.
* `Recent lag sent v` : the items under way, in order, lag behind one another and behind the view by
  less than `lag`.
* `Pairwise` chains of views, oldest first, end with the receiver's present one
  (`chain_grow`, `chain_snoc`, `chain_again`).
-/

namespace SelectiveRepeat

/-- What a receiver has got. -/
structure View where
  next : ℕ
  early : Finset ℕ

/-- The receiver has got item `i`. -/
def View.Got (v : View) (i : ℕ) : Prop := i < v.next ∨ i ∈ v.early

/-- A later view. -/
instance : Preorder View where
  le v v' := v.next ≤ v'.next ∧ ∀ i, v.Got i → v'.Got i
  le_refl _ := ⟨le_rfl, fun _ h => h⟩
  le_trans _ _ _ h h' := ⟨h.1.trans h'.1, fun i hi => h'.2 i (h.2 i hi)⟩

/-- Of `n` items the sender holds those in `held`; the view has the others. -/
structure Outstanding (n : ℕ) (held : List ℕ) (v : View) : Prop where
  ahead : ∀ i ∈ held, v.next ≤ i
  got : ∀ i < n, i ∉ held → v.Got i

variable {n i j lag : ℕ} {held held' sent new : List ℕ} {v v' : View}

namespace View

theorem Got.mono (h : v.Got i) (hle : v ≤ v') : v'.Got i := hle.2 i h

theorem next_le_next (h : v ≤ v') : v.next ≤ v'.next := h.1

/-- A view of items numbered below `n` has its next item at most at `n`. -/
theorem next_le (h : ∀ i, v.Got i → i < n) : v.next ≤ n := by
  by_contra hlt
  exact Nat.lt_irrefl n (h n (.inl (Nat.lt_of_not_le hlt)))

end View

namespace Outstanding

/-- A later view arrives with the number of an item it has: the items before its next one are let
go, and that one may be. -/
theorem acknowledge (h : Outstanding n held v) (hle : v ≤ v') (hj : v'.Got j)
    (hahead : ∀ i ∈ held', v'.next ≤ i)
    (hkeep : ∀ i ∈ held, v'.next ≤ i → i ≠ j → i ∈ held') : Outstanding n held' v' where
  ahead := hahead
  got i hi hnot := by
    by_cases hmem : i ∈ held
    · by_cases hij : i = j
      · exact hij ▸ hj
      · left
        by_contra hlt
        exact hnot (hkeep i hmem (Nat.le_of_not_lt hlt) hij)
    · exact (h.got i hi hmem).mono hle

/-- A new item is held. -/
theorem make (h : Outstanding n held v) (hn : v.next ≤ n) :
    Outstanding (n + 1) (n :: held) v where
  ahead := List.forall_mem_cons.2 ⟨hn, h.ahead⟩
  got i hi hnot := by
    rw [List.mem_cons, not_or] at hnot
    exact h.got i (Nat.lt_of_le_of_ne (Nat.le_of_lt_succ hi) hnot.1) hnot.2

/-- **Every item is held, early, or before the next one**, in this view and in every later one. -/
theorem count (h : Outstanding n held v) (hle : v ≤ v') :
    n ≤ v'.next + held.length + v'.early.card := by
  have hsub : Finset.range n ⊆ (Finset.range v'.next ∪ held.toFinset) ∪ v'.early := by
    intro i hi
    rw [Finset.mem_union, Finset.mem_union, List.mem_toFinset, Finset.mem_range]
    by_cases hmem : i ∈ held
    · exact .inl (.inr hmem)
    · exact ((h.got i (Finset.mem_range.1 hi) hmem).mono hle).imp_left .inl
  calc n = (Finset.range n).card := (Finset.card_range n).symm
    _ ≤ ((Finset.range v'.next ∪ held.toFinset) ∪ v'.early).card := Finset.card_le_card hsub
    _ ≤ (Finset.range v'.next ∪ held.toFinset).card + v'.early.card := Finset.card_union_le ..
    _ ≤ (v'.next + held.length) + v'.early.card := by
      refine Nat.add_le_add_right ((Finset.card_union_le ..).trans ?_) _
      rw [Finset.card_range]
      exact Nat.add_le_add_left held.toFinset_card_le _

end Outstanding

/-- The items under way, in order, each less than `lag` behind the ones before it and behind what
the view has. -/
structure Recent (lag : ℕ) (sent : List ℕ) (v : View) : Prop where
  order : sent.Pairwise fun i j => i < j + lag
  view : ∀ i ∈ sent, ∀ j, v.Got j → j < i + lag

namespace Recent

theorem sublist (h : Recent lag sent v) (hsub : new.Sublist sent) : Recent lag new v :=
  ⟨h.order.sublist hsub, fun i hi => h.view i (hsub.subset hi)⟩

/-- The first item under way arrives, or is ignored. -/
theorem receive (h : Recent lag (i :: sent) v) (hgot : ∀ j, v'.Got j → v.Got j ∨ j = i) :
    Recent lag sent v' := by
  obtain ⟨hi, horder⟩ := List.pairwise_cons.1 h.order
  refine ⟨horder, fun k hk j hj => ?_⟩
  rcases hgot j hj with hj | rfl
  · exact h.view k (List.mem_cons_of_mem i hk) j hj
  · exact hi k hk

/-- Items are sent that are less than `lag` behind the latest one. -/
theorem append (h : Recent lag sent v) (hgot : ∀ j, v.Got j → j < n)
    (hlt : ∀ i ∈ sent ++ new, i < n) (hnew : ∀ i ∈ new, n ≤ i + lag) :
    Recent lag (sent ++ new) v := by
  constructor
  · refine List.pairwise_append.2 ⟨h.order, ?_, fun i hi j hj => ?_⟩
    · refine List.pairwise_of_forall_mem_list fun i hi j hj => ?_
      exact (hlt i (List.mem_append_right _ hi)).trans_le (hnew j hj)
    · exact (hlt i (List.mem_append_left _ hi)).trans_le (hnew j hj)
  · intro i hi j hj
    rcases List.mem_append.1 hi with hi | hi
    · exact h.view i hi j hj
    · exact (hgot j hj).trans_le (hnew i hi)

end Recent

/-! ### Chains of views -/

variable {vs : List View}

/-- The last view grows. -/
theorem chain_grow (h : (vs ++ [v]).Pairwise (· ≤ ·)) (hle : v ≤ v') :
    (vs ++ [v']).Pairwise (· ≤ ·) := by
  obtain ⟨hvs, -, hlast⟩ := List.pairwise_append.1 h
  refine List.pairwise_append.2 ⟨hvs, List.pairwise_singleton .., fun a ha b hb => ?_⟩
  rw [List.mem_singleton.1 hb]
  exact (hlast a ha v (List.mem_singleton_self v)).trans hle

/-- The last view is sent. -/
theorem chain_snoc (h : (vs ++ [v]).Pairwise (· ≤ ·)) : (vs ++ [v] ++ [v]).Pairwise (· ≤ ·) := by
  refine List.pairwise_append.2 ⟨h, List.pairwise_singleton .., fun a ha b hb => ?_⟩
  rw [List.mem_singleton.1 hb]
  rcases List.mem_append.1 ha with ha | ha
  · exact (List.pairwise_append.1 h).2.2 a ha v (List.mem_singleton_self v)
  · rw [List.mem_singleton.1 ha]

/-- The first view is both that of the last acknowledgement and that of the last reply. -/
theorem chain_again (h : (v :: vs).Pairwise (· ≤ ·)) : (v :: v :: vs).Pairwise (· ≤ ·) := by
  refine List.pairwise_cons.2 ⟨fun x hx => ?_, h⟩
  rcases List.mem_cons.1 hx with rfl | hx
  · exact le_rfl
  · exact (List.pairwise_cons.1 h).1 x hx

end SelectiveRepeat
