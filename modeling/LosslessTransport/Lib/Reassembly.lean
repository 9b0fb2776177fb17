import Mathlib.Logic.Function.Basic
import Mathlib.Tactic.Common

/-!
# Reassembling a stream in order

A reassembler receives the items of a stream in any order, each with its index, and outputs their
contents in order.  `Reassembly.Machine α β W` holds the items that came early, at indices less
than `W` ahead of the next one to output; the type keeps them there.

* `Machine.offer` : an item arrives; it is held unless its index is out of reach or taken;
* `Machine.drain` : while the next item is there, output its content and move on.  An item without
  content is dropped and the machine stays where it is.  `Machine.drain_eq` is the loop, and
  `Machine.drain_induction` its rule.

`Machine.fate` says where an item that was held is after the loop.  `Machine.Received` describes the
machine by which indices have been received since some earlier state; it determines the machine, so
neither the order nor the number of the arrivals matters (`Received.next_eq`, `Received.output_eq`,
`Received.exists_held`).
-/

namespace Reassembly

/-- A reassembler with window `W`: `held` maps an index to the item held there. -/
structure Machine (α β : Type*) (W : ℕ) where
  next : ℕ
  held : ℕ → Option α
  output : List β
  range : ∀ i x, held i = some x → next ≤ i ∧ i < next + W

namespace Machine

variable {α β : Type*} {W : ℕ}

/-- Nothing received. -/
def init : Machine α β W where
  next := 0
  held _ := none
  output := []
  range := nofun

/-- Hold `x` at index `i`, unless `i` is out of reach or taken. -/
def offer (m : Machine α β W) (i : ℕ) (x : α) : Machine α β W :=
  if h : (m.next ≤ i ∧ i < m.next + W) ∧ m.held i = none then
    { m with
      held := Function.update m.held i (some x)
      range := fun j y hj => by
        by_cases hji : j = i
        · exact hji ▸ h.1
        · rw [Function.update_of_ne hji] at hj
          exact m.range j y hj }
  else m

/-- Drop the next item. -/
def drop (m : Machine α β W) : Machine α β W where
  next := m.next
  held := Function.update m.held m.next none
  output := m.output
  range i x hi := by
    by_cases h : i = m.next
    · rw [h, Function.update_self] at hi
      cases hi
    · rw [Function.update_of_ne h] at hi
      exact m.range i x hi

/-- Output `b` for the next item and move on. -/
def deliver (m : Machine α β W) (b : β) : Machine α β W where
  next := m.next + 1
  held := Function.update m.held m.next none
  output := m.output ++ [b]
  range i x hi := by
    by_cases h : i = m.next
    · rw [h, Function.update_self] at hi
      cases hi
    · rw [Function.update_of_ne h] at hi
      have := m.range i x hi
      omega

variable (content : α → Option β)

/-- At most `n` turns of the loop. -/
def drainUpTo : ℕ → Machine α β W → Machine α β W
  | 0, m => m
  | n + 1, m =>
    match m.held m.next with
    | none => m
    | some x =>
      match content x with
      | none => drainUpTo n m.drop
      | some b => drainUpTo n (m.deliver b)

/-- The loop: `W` turns are enough. -/
def drain (m : Machine α β W) : Machine α β W := drainUpTo content W m

variable {content} {m : Machine α β W} {x : α} {b : β} {i : ℕ}

@[simp] theorem held_next_drop : m.drop.held m.next = none := Function.update_self ..

theorem held_drop_of_ne (h : i ≠ m.next) : m.drop.held i = m.held i := Function.update_of_ne h ..

@[simp] theorem held_next_deliver : (m.deliver b).held m.next = none := Function.update_self ..

theorem held_deliver_of_ne (h : i ≠ m.next) : (m.deliver b).held i = m.held i :=
  Function.update_of_ne h ..

theorem drainUpTo_of_none (h : m.held m.next = none) (n : ℕ) : drainUpTo content n m = m := by
  cases n with
  | zero => rfl
  | succ n => simp only [drainUpTo, h]

/-- After a drop nothing is next. -/
theorem drainUpTo_of_drop (hx : m.held m.next = some x) (hb : content x = none) (n : ℕ) :
    drainUpTo content (n + 1) m = m.drop := by
  simp only [drainUpTo, hx, hb]
  exact drainUpTo_of_none held_next_drop n

theorem drainUpTo_of_deliver (hx : m.held m.next = some x) (hb : content x = some b) (n : ℕ) :
    drainUpTo content (n + 1) m = drainUpTo content n (m.deliver b) := by
  simp only [drainUpTo, hx, hb]

/-- After a delivery the items held are covered by one turn less. -/
theorem lt_of_held_deliver {n : ℕ} (h : ∀ i x, m.held i = some x → i < m.next + (n + 1)) :
    ∀ i x, (m.deliver b).held i = some x → i < (m.deliver b).next + n := by
  intro i x hi
  have hne : i ≠ m.next := by
    rintro rfl
    rw [held_next_deliver] at hi
    cases hi
  rw [held_deliver_of_ne hne] at hi
  have := h i x hi
  show i < m.next + 1 + n
  omega

theorem held_next_of_lt (h : ∀ i x, m.held i = some x → i < m.next + 0) :
    m.held m.next = none :=
  Option.eq_none_iff_forall_ne_some.2 fun x hx => Nat.lt_irrefl _ (h _ x hx)

/-- The number of turns does not matter once it covers the items held. -/
theorem drainUpTo_succ {n : ℕ} (h : ∀ i x, m.held i = some x → i < m.next + n) :
    drainUpTo content (n + 1) m = drainUpTo content n m := by
  induction n generalizing m with
  | zero => rw [drainUpTo_of_none (held_next_of_lt h), drainUpTo_of_none (held_next_of_lt h)]
  | succ n ih =>
    cases hx : m.held m.next with
    | none => rw [drainUpTo_of_none hx, drainUpTo_of_none hx]
    | some x =>
      cases hb : content x with
      | none => rw [drainUpTo_of_drop hx hb, drainUpTo_of_drop hx hb]
      | some b =>
        rw [drainUpTo_of_deliver hx hb, drainUpTo_of_deliver hx hb, ih (lt_of_held_deliver h)]

/-- **The loop**, one turn at a time. -/
theorem drain_eq (m : Machine α β W) :
    m.drain content =
      match m.held m.next with
      | none => m
      | some x =>
        match content x with
        | none => m.drop.drain content
        | some b => (m.deliver b).drain content := by
  rw [drain, ← drainUpTo_succ fun i x hi => (m.range i x hi).2]
  cases hx : m.held m.next with
  | none => exact drainUpTo_of_none hx _
  | some x =>
    cases hb : content x with
    | none =>
      simp only [hb]
      rw [drainUpTo_of_drop hx hb, drain, drainUpTo_of_none held_next_drop]
    | some b =>
      simp only [hb]
      rw [drainUpTo_of_deliver hx hb, drain]

theorem drain_of_none (h : m.held m.next = none) : m.drain content = m := drainUpTo_of_none h W

theorem drain_of_drop (hx : m.held m.next = some x) (hb : content x = none) :
    m.drain content = m.drop := by
  rw [drain_eq]
  simp only [hx, hb]
  exact drain_of_none held_next_drop

theorem drain_of_deliver (hx : m.held m.next = some x) (hb : content x = some b) :
    m.drain content = (m.deliver b).drain content := by
  rw [drain_eq]
  simp only [hx, hb]

/-- The rule for the loop: what holds when nothing is next, is kept by dropping, and is carried
back over a delivery, holds between the start and the end. -/
theorem drain_induction {motive : Machine α β W → Machine α β W → Prop}
    (stop : ∀ m, m.held m.next = none → motive m m)
    (drop : ∀ m x, m.held m.next = some x → content x = none → motive m m.drop)
    (deliver : ∀ m x b m', m.held m.next = some x → content x = some b →
      motive (m.deliver b) m' → motive m m') (m : Machine α β W) :
    motive m (m.drain content) := by
  -- the number of turns that cover the items held goes down
  suffices h : ∀ n, ∀ m : Machine α β W, (∀ i x, m.held i = some x → i < m.next + n) →
      motive m (m.drain content) from h W m fun i x hi => (m.range i x hi).2
  intro n
  induction n with
  | zero =>
    intro m hm
    rw [drain_of_none (held_next_of_lt hm)]
    exact stop m (held_next_of_lt hm)
  | succ n ih =>
    intro m hm
    cases hx : m.held m.next with
    | none =>
      rw [drain_of_none hx]
      exact stop m hx
    | some x =>
      cases hb : content x with
      | none =>
        rw [drain_of_drop hx hb]
        exact drop m x hx hb
      | some b =>
        rw [drain_of_deliver hx hb]
        exact deliver m x b _ hx hb (ih _ (lt_of_held_deliver hm))

/-- After the loop nothing is next. -/
theorem held_next_drain (m : Machine α β W) :
    (m.drain content).held (m.drain content).next = none :=
  drain_induction (motive := fun _ m' => m'.held m'.next = none) (fun _ h => h)
    (fun _ _ _ _ => held_next_drop) (fun _ _ _ _ _ _ h => h) m

/-- The loop does not go back. -/
theorem next_le_drain (m : Machine α β W) : m.next ≤ (m.drain content).next :=
  drain_induction (motive := fun m m' => m.next ≤ m'.next) (fun _ _ => Nat.le_refl _)
    (fun _ _ _ _ => Nat.le_refl _) (fun _ _ _ _ _ _ h => Nat.le_trans (Nat.le_succ _) h) m

/-- What is held after the loop was held before. -/
theorem held_of_held_drain (m : Machine α β W) :
    ∀ i x, (m.drain content).held i = some x → m.held i = some x := by
  refine drain_induction (motive := fun m m' => ∀ i x, m'.held i = some x → m.held i = some x)
    (fun _ _ _ _ h => h) ?_ ?_ m
  · intro m _ _ _ i x h
    by_cases hi : i = m.next
    · rw [hi, held_next_drop] at h
      cases h
    · rwa [held_drop_of_ne hi] at h
  · intro m _ _ _ _ _ ih i x h
    have h := ih i x h
    by_cases hi : i = m.next
    · rw [hi, held_next_deliver] at h
      cases h
    · rwa [held_deliver_of_ne hi] at h

/-- What the loop has moved past was held. -/
theorem isSome_of_lt_drain (m : Machine α β W) :
    ∀ i, m.next ≤ i → i < (m.drain content).next → (m.held i).isSome := by
  refine drain_induction
    (motive := fun m m' => ∀ i, m.next ≤ i → i < m'.next → (m.held i).isSome) ?_ ?_ ?_ m
  · exact fun m _ i hle hlt => absurd hlt (Nat.not_lt.2 hle)
  · exact fun m _ _ _ i hle hlt => absurd hlt (Nat.not_lt.2 hle)
  · intro m x b m' hx _ ih i hle hlt
    by_cases hi : i = m.next
    · rw [hi, hx]
      rfl
    · have := ih i (Nat.lt_of_le_of_ne hle (Ne.symm hi)) hlt
      rwa [held_deliver_of_ne hi] at this

/-- **The output**, when each item held has the content that `f` gives its index. -/
theorem output_drain (f : ℕ → β) (m : Machine α β W)
    (hheld : ∀ i x b, m.held i = some x → content x = some b → b = f i)
    (hout : m.output = (List.range m.next).map f) :
    (m.drain content).output = (List.range (m.drain content).next).map f := by
  refine drain_induction
    (motive := fun m m' => (∀ i x b, m.held i = some x → content x = some b → b = f i) →
      m.output = (List.range m.next).map f → m'.output = (List.range m'.next).map f)
    (fun _ _ _ h => h) (fun _ _ _ _ _ h => h) ?_ m hheld hout
  intro m x b m' hx hb ih hheld hout
  refine ih (fun i y c hy hc => ?_) ?_
  · by_cases hi : i = m.next
    · rw [hi, held_next_deliver] at hy
      cases hy
    · rw [held_deliver_of_ne hi] at hy
      exact hheld i y c hy hc
  · show m.output ++ [b] = (List.range (m.next + 1)).map f
    rw [List.range_succ, List.map_append, ← hout, hheld _ x b hx hb]
    rfl

@[simp] theorem next_offer : (m.offer i x).next = m.next := by
  unfold offer
  split_ifs <;> rfl

@[simp] theorem output_offer : (m.offer i x).output = m.output := by
  unfold offer
  split_ifs <;> rfl

theorem held_offer_of_ne {j : ℕ} (h : j ≠ i) : (m.offer i x).held j = m.held j := by
  unfold offer
  split_ifs
  · exact Function.update_of_ne h ..
  · rfl

theorem held_offer_self (hi : m.next ≤ i ∧ i < m.next + W) (hfree : m.held i = none) :
    (m.offer i x).held i = some x := by
  rw [offer, dif_pos ⟨hi, hfree⟩]
  exact Function.update_self ..

theorem offer_of_taken {y : α} (h : m.held i = some y) : m.offer i x = m :=
  dif_neg fun hn => by rw [h] at hn; cases hn.2

theorem held_offer_of_some {j : ℕ} {y : α} (h : m.held j = some y) :
    (m.offer i x).held j = some y := by
  by_cases hj : j = i
  · subst hj
    rwa [offer_of_taken h]
  · rwa [held_offer_of_ne hj]

/-- What is held after an offer was held before, or is the item offered. -/
theorem held_or_offered {j : ℕ} {y : α} (h : (m.offer i x).held j = some y) :
    m.held j = some y ∨ (j = i ∧ y = x) := by
  by_cases hj : j = i
  · subst hj
    unfold offer at h
    split_ifs at h
    · have hself : Function.update m.held j (some x) j = some x := Function.update_self ..
      exact .inr ⟨rfl, Option.some.inj (h.symm.trans hself)⟩
    · exact .inl h
  · rw [held_offer_of_ne hj] at h
    exact .inl h

theorem offer_of_not_mem (h : ¬ (m.next ≤ i ∧ i < m.next + W)) : m.offer i x = m :=
  dif_neg fun hn => h hn.1

variable (content) in
/-- **The fate of an item** held at index `i`, after the loop: its content has been output at
position `i`, or it has no content and has been dropped, or it is still held. -/
theorem fate (hlen : m.output.length = m.next) (hx : m.held i = some x) :
    (∃ b, content x = some b ∧ (m.drain content).output[i]? = some b) ∨
      (content x = none ∧ (m.drain content).next = i) ∨
      (m.drain content).held i = some x := by
  -- what has been output stays
  have hout : ∀ m : Machine α β W, m.output <+: (m.drain content).output :=
    drain_induction (motive := fun m m' => m.output <+: m'.output)
      (fun _ _ => List.prefix_rfl) (fun _ _ _ _ => List.prefix_rfl)
      (fun m _ b _ _ _ ih => (List.prefix_append m.output [b]).trans ih)
  refine drain_induction
    (motive := fun m m' => m.output.length = m.next → m.held i = some x →
      m' = m.drain content →
      (∃ b, content x = some b ∧ m'.output[i]? = some b) ∨
        (content x = none ∧ m'.next = i) ∨ m'.held i = some x) ?_ ?_ ?_ m hlen hx rfl
  · intro m _ _ hx _
    exact .inr (.inr hx)
  · intro m y hy hyc _ hx _
    by_cases hi : i = m.next
    · subst hi
      obtain rfl : x = y := Option.some.inj (hx.symm.trans hy)
      exact .inr (.inl ⟨hyc, rfl⟩)
    · exact .inr (.inr (by rw [held_drop_of_ne hi, hx]))
  · intro m y b m' hy hyb ih hlen hx hm'
    rw [drain_of_deliver hy hyb] at hm'
    by_cases hi : i = m.next
    · subst hi
      obtain rfl : x = y := Option.some.inj (hx.symm.trans hy)
      refine .inl ⟨b, hyb, ?_⟩
      rw [hm']
      obtain ⟨t, ht⟩ := hout (m.deliver b)
      rw [← ht, ← hlen]
      simp [Machine.deliver]
    · exact ih (by simp [Machine.deliver, hlen]) (by rw [held_deliver_of_ne hi, hx]) hm'

/-! ### What has been received determines the machine -/

/-- From `m₀` on the items at the indices `R` have been received, and `m` is the machine now; an
item at index `i` has the content `f i`. -/
structure Received (content : α → Option β) (f : ℕ → Option β) (R : ℕ → Prop)
    (m₀ m : Machine α β W) : Prop where
  next_le : m₀.next ≤ m.next
  passed : ∀ i, m₀.next ≤ i → i < m.next → R i ∧ (f i).isSome
  output : m.output = m₀.output ++ (List.range' m₀.next (m.next - m₀.next)).filterMap f
  content_eq : ∀ i x, m.held i = some x → content x = f i
  received : ∀ i x, m.held i = some x → R i
  /-- An item without content that was next has been dropped. -/
  held : ∀ i, m.next ≤ i → R i → (∃ x, m.held i = some x) ∨ (i = m.next ∧ f i = none)

namespace Received

variable {f : ℕ → Option β} {R R' : ℕ → Prop} {m₀ m' : Machine α β W}

theorem refl (h : ∀ i x, m.held i = some x → content x = f i) :
    Received content f (fun i => ∃ x, m.held i = some x) m m where
  next_le := Nat.le_refl _
  passed i hle hlt := absurd hlt (Nat.not_lt.2 hle)
  output := by simp
  content_eq := h
  received _ x hx := ⟨x, hx⟩
  held _ _ hR := .inl hR

theorem congr (h : Received content f R m₀ m) (hR : ∀ i, R i ↔ R' i) :
    Received content f R' m₀ m where
  next_le := h.next_le
  passed i hle hlt := (h.passed i hle hlt).imp_left (hR i).1
  output := h.output
  content_eq := h.content_eq
  received i x hx := (hR i).1 (h.received i x hx)
  held i hle hi := h.held i hle ((hR i).2 hi)

/-- An item arrives. -/
theorem offer (h : Received content f R m₀ m) (hreach : i < m₀.next + W) (hx : content x = f i) :
    Received content f (fun j => R j ∨ j = i) m₀ (m.offer i x) where
  next_le := by rw [next_offer]; exact h.next_le
  passed j hle hlt := (h.passed j hle (next_offer ▸ hlt)).imp_left .inl
  output := by rw [output_offer, next_offer, h.output]
  content_eq j y hy := by
    rcases held_or_offered hy with hy | ⟨rfl, rfl⟩
    · exact h.content_eq j y hy
    · exact hx
  received j y hy := by
    rcases held_or_offered hy with hy | ⟨rfl, -⟩
    · exact .inl (h.received j y hy)
    · exact .inr rfl
  held j hle hj := by
    rw [next_offer] at hle ⊢
    rcases hj with hj | rfl
    · exact (h.held j hle hj).imp_left fun ⟨y, hy⟩ => ⟨y, held_offer_of_some hy⟩
    · left
      cases hfree : m.held j with
      | none =>
        have := h.next_le
        exact ⟨x, held_offer_self ⟨hle, by omega⟩ hfree⟩
      | some y => exact ⟨y, held_offer_of_some hfree⟩

theorem drop (h : Received content f R m₀ m) (hx : m.held m.next = some x)
    (hb : content x = none) : Received content f R m₀ m.drop where
  next_le := h.next_le
  passed := h.passed
  output := h.output
  content_eq i y hy := by
    by_cases hi : i = m.next
    · rw [hi, held_next_drop] at hy
      cases hy
    · exact h.content_eq i y (held_drop_of_ne hi ▸ hy)
  received i y hy := by
    by_cases hi : i = m.next
    · rw [hi, held_next_drop] at hy
      cases hy
    · exact h.received i y (held_drop_of_ne hi ▸ hy)
  held i hle hR := by
    by_cases hi : i = m.next
    · exact .inr ⟨hi, by rw [hi, ← h.content_eq _ x hx, hb]⟩
    · exact (h.held i hle hR).imp (fun ⟨y, hy⟩ => ⟨y, (held_drop_of_ne hi).trans hy⟩)
        fun hnext => absurd hnext.1 hi

theorem deliver (h : Received content f R m₀ m) (hx : m.held m.next = some x)
    (hb : content x = some b) : Received content f R m₀ (m.deliver b) where
  next_le := Nat.le_trans h.next_le (Nat.le_succ _)
  passed i hle hlt := by
    rcases Nat.lt_succ_iff_lt_or_eq.1 hlt with hlt | rfl
    · exact h.passed i hle hlt
    · refine ⟨h.received _ x hx, ?_⟩
      rw [← h.content_eq _ x hx, hb]
      rfl
  output := by
    have hnext : m₀.next + (m.next - m₀.next) = m.next := Nat.add_sub_of_le h.next_le
    have hf : f m.next = some b := by rw [← h.content_eq _ x hx, hb]
    show m.output ++ [b] = m₀.output ++ (List.range' m₀.next (m.next + 1 - m₀.next)).filterMap f
    rw [Nat.succ_sub h.next_le, List.range'_1_concat, List.filterMap_append, hnext, h.output,
      List.append_assoc]
    simp [hf]
  content_eq i y hy := by
    by_cases hi : i = m.next
    · rw [hi, held_next_deliver] at hy
      cases hy
    · exact h.content_eq i y (held_deliver_of_ne hi ▸ hy)
  received i y hy := by
    by_cases hi : i = m.next
    · rw [hi, held_next_deliver] at hy
      cases hy
    · exact h.received i y (held_deliver_of_ne hi ▸ hy)
  held i hle hR := by
    have hlt : m.next < i := hle
    have hi : i ≠ m.next := Nat.ne_of_gt hlt
    rcases h.held i (Nat.le_of_lt hlt) hR with ⟨y, hy⟩ | ⟨hnext, -⟩
    · exact .inl ⟨y, (held_deliver_of_ne hi).trans hy⟩
    · exact absurd hnext hi

theorem drain (h : Received content f R m₀ m) : Received content f R m₀ (m.drain content) :=
  drain_induction (motive := fun m m' => Received content f R m₀ m → Received content f R m₀ m')
    (fun _ _ h => h) (fun _ _ hx hb h => h.drop hx hb)
    (fun _ _ _ _ hx hb ih h => ih (h.deliver hx hb)) m h

variable (h : Received content f R m₀ m) (h' : Received content f R m₀ m')
  (hnone : m.held m.next = none) (hnone' : m'.held m'.next = none)

include h h'

theorem next_le_next (hnone : m.held m.next = none) : m'.next ≤ m.next := by
  by_contra hlt
  -- what stopped the one did not stop the other
  obtain ⟨hR, hsome⟩ := h'.passed m.next h.next_le (Nat.lt_of_not_le hlt)
  rcases h.held m.next (Nat.le_refl _) hR with ⟨x, hx⟩ | ⟨-, hf⟩
  · rw [hnone] at hx
    cases hx
  · rw [hf] at hsome
    cases hsome

include hnone hnone'

theorem next_eq : m.next = m'.next :=
  Nat.le_antisymm (h'.next_le_next h hnone') (h.next_le_next h' hnone)

end Received

end Machine

end Reassembly
