import Mathlib.Data.List.Basic
import Mathlib.Data.List.Nodup
import Mathlib.Tactic.Common

/-!
# Searching and unlinking in a singly linked list

A search that returns a pointer to the link leading to a node is a search for a position: position
`i` is the link to the `i`-th node, and the position after the last node is the final null link.
`Links.minLink key l` is the position a single pass finds when it moves to a node whenever that
node's key is smaller than the best one so far, starting with the first link; `Links.minLink_spec`
says that it is the first of the nodes with the least key.

The rest are facts about removing the node at a position with `List.eraseIdx`.
-/

namespace Links

variable {α : Type*}

/-- The rest of the pass: `best` is the key at the position `min`, `cur` the position reached. -/
def minLinkFrom (key : α → ℕ) (best min cur : ℕ) : List α → ℕ
  | [] => min
  | x :: xs =>
    if key x < best then minLinkFrom key (key x) cur (cur + 1) xs
    else minLinkFrom key best min (cur + 1) xs

/-- The position of the first node with the least key; 0, the first link, in the empty list. -/
def minLink (key : α → ℕ) : List α → ℕ
  | [] => 0
  | x :: xs => minLinkFrom key (key x) 0 0 (x :: xs)

/-- `x` is at position `i`, has the least key, and the nodes before it have larger keys. -/
structure IsFirstMin (key : α → ℕ) (l : List α) (i : ℕ) (x : α) : Prop where
  get : l[i]? = some x
  le : ∀ y ∈ l, key x ≤ key y
  lt : ∀ j y, j < i → l[j]? = some y → key x < key y

theorem minLinkFrom_spec (key : α → ℕ) (pre xs : List α) {min : ℕ} {m : α}
    (h : IsFirstMin key pre min m) :
    ∃ x, IsFirstMin key (pre ++ xs) (minLinkFrom key (key m) min pre.length xs) x := by
  induction xs generalizing pre min m with
  | nil => exact ⟨m, by simpa [minLinkFrom] using h⟩
  | cons x xs ih =>
    have happ : pre ++ x :: xs = (pre ++ [x]) ++ xs := by simp
    have hlen : (pre ++ [x]).length = pre.length + 1 := by simp
    have hmin : min < pre.length := (List.getElem?_eq_some_iff.1 h.get).1
    rw [happ, minLinkFrom]
    split_ifs with hx
    · refine hlen ▸ ih (pre ++ [x]) ⟨by simp, fun y hy => ?_, fun j y hj hy => ?_⟩
      · rcases List.mem_append.1 hy with hy | hy
        · exact Nat.le_trans (Nat.le_of_lt hx) (h.le y hy)
        · exact Nat.le_of_eq (congrArg key (List.mem_singleton.1 hy)).symm
      · rw [List.getElem?_append_left hj] at hy
        exact Nat.lt_of_lt_of_le hx (h.le y (List.mem_of_getElem? hy))
    · refine hlen ▸ ih (pre ++ [x]) ⟨?_, fun y hy => ?_, fun j y hj hy => ?_⟩
      · rw [List.getElem?_append_left hmin, h.get]
      · rcases List.mem_append.1 hy with hy | hy
        · exact h.le y hy
        · rw [List.mem_singleton.1 hy]
          exact Nat.le_of_not_lt hx
      · rw [List.getElem?_append_left (Nat.lt_trans hj hmin)] at hy
        exact h.lt j y hj hy

/-- The pass finds the first node with the least key. -/
theorem minLink_spec (key : α → ℕ) {l : List α} (h : l ≠ []) :
    ∃ x, IsFirstMin key l (minLink key l) x := by
  cases l with
  | nil => exact absurd rfl h
  | cons x xs =>
    have hx : IsFirstMin key [x] 0 x :=
      ⟨rfl, by simp, fun j y hj => absurd hj (Nat.not_lt_zero j)⟩
    simpa [minLink, minLinkFrom] using minLinkFrom_spec key [x] xs hx

theorem getElem?_minLink_eq_none_iff (key : α → ℕ) {l : List α} :
    l[minLink key l]? = none ↔ l = [] := by
  constructor
  · intro h
    by_contra hne
    obtain ⟨x, hx⟩ := minLink_spec key hne
    rw [hx.get] at h
    cases h
  · rintro rfl
    rfl

/-- The node found has the least key. -/
theorem isFirstMin_of_getElem? {key : α → ℕ} {l : List α} {x : α} (h : l[minLink key l]? = some x) :
    IsFirstMin key l (minLink key l) x := by
  have hne : l ≠ [] := by
    rintro rfl
    cases h
  obtain ⟨y, hy⟩ := minLink_spec key hne
  obtain rfl : y = x := Option.some.inj (hy.get.symm.trans h)
  exact hy

/-- If some key meets a bound, the node found meets it. -/
theorem exists_minLink_le {key : α → ℕ} {l : List α} {k : ℕ} (h : ∃ x ∈ l, key x ≤ k) :
    ∃ x, l[minLink key l]? = some x ∧ key x ≤ k := by
  obtain ⟨y, hy, hle⟩ := h
  obtain ⟨x, hx⟩ := minLink_spec key (List.ne_nil_of_mem hy)
  exact ⟨x, hx.get, Nat.le_trans (hx.le y hy) hle⟩

/-! ### Keys that agree -/

theorem minLinkFrom_congr {key key' : α → ℕ} {l : List α} (h : ∀ x ∈ l, key x = key' x)
    (best min cur : ℕ) : minLinkFrom key best min cur l = minLinkFrom key' best min cur l := by
  induction l generalizing best min cur with
  | nil => rfl
  | cons x xs ih =>
    have ih := ih fun y hy => h y (List.mem_cons_of_mem _ hy)
    simp only [minLinkFrom, h x (List.mem_cons_self ..), ih]

theorem minLink_congr {key key' : α → ℕ} {l : List α} (h : ∀ x ∈ l, key x = key' x) :
    minLink key l = minLink key' l := by
  cases l with
  | nil => rfl
  | cons x xs =>
    rw [minLink, minLink, minLinkFrom_congr h, h x (List.mem_cons_self ..)]

theorem minLinkFrom_map {β : Type*} (key : β → ℕ) (f : α → β) (l : List α) (best min cur : ℕ) :
    minLinkFrom key best min cur (l.map f) = minLinkFrom (key ∘ f) best min cur l := by
  induction l generalizing best min cur with
  | nil => rfl
  | cons x xs ih => simp only [List.map_cons, minLinkFrom, ih, Function.comp_apply]

theorem minLink_map {β : Type*} (key : β → ℕ) (f : α → β) (l : List α) :
    minLink key (l.map f) = minLink (key ∘ f) l := by
  cases l with
  | nil => rfl
  | cons x xs => exact minLinkFrom_map key f (x :: xs) _ 0 0

theorem findIdx?_congr {p q : α → Bool} {l : List α} (h : ∀ x ∈ l, p x = q x) :
    l.findIdx? p = l.findIdx? q := by
  induction l with
  | nil => rfl
  | cons x xs ih =>
    rw [List.findIdx?_cons, List.findIdx?_cons, h x (List.mem_cons_self ..),
      ih fun y hy => h y (List.mem_cons_of_mem _ hy)]

/-! ### Removing a node -/

variable {l : List α} {i : ℕ} {x : α}

theorem filter_eraseIdx {p : α → Bool} (h : l[i]? = some x) (hx : p x = false) :
    (l.eraseIdx i).filter p = l.filter p := by
  induction l generalizing i with
  | nil => simp
  | cons y ys ih =>
    cases i with
    | zero =>
      simp only [List.getElem?_cons_zero, Option.some.injEq] at h
      subst h
      simp [hx]
    | succ i =>
      simp only [List.getElem?_cons_succ] at h
      simp only [List.eraseIdx_cons_succ, List.filter_cons, ih h]

theorem filterMap_eraseIdx {β : Type*} {f : α → Option β} (h : l[i]? = some x) (hx : f x = none) :
    (l.eraseIdx i).filterMap f = l.filterMap f := by
  induction l generalizing i with
  | nil => simp
  | cons y ys ih =>
    cases i with
    | zero =>
      simp only [List.getElem?_cons_zero, Option.some.injEq] at h
      subst h
      simp [hx]
    | succ i =>
      simp only [List.getElem?_cons_succ] at h
      simp only [List.eraseIdx_cons_succ, List.filterMap_cons, ih h]

theorem any_eraseIdx (p : α → Bool) (h : l[i]? = some x) :
    l.any p = (p x || (l.eraseIdx i).any p) := by
  induction l generalizing i with
  | nil => simp at h
  | cons y ys ih =>
    cases i with
    | zero =>
      simp only [List.getElem?_cons_zero, Option.some.injEq] at h
      subst h
      simp
    | succ i =>
      simp only [List.getElem?_cons_succ] at h
      simp only [List.eraseIdx_cons_succ, List.any_cons, ih h]
      cases p x <;> simp

/-- In a list without repetitions the node at a position is the one with its value. -/
theorem eraseIdx_eq_filter [DecidableEq α] (hnodup : l.Nodup) (h : l[i]? = some x) :
    l.eraseIdx i = l.filter (· ≠ x) := by
  obtain ⟨hi, rfl⟩ := List.getElem?_eq_some_iff.1 h
  rw [← hnodup.erase_getElem i hi, hnodup.erase_eq_filter]
  refine List.filter_congr fun y _ => ?_
  rw [Bool.eq_iff_iff, bne_iff_ne, decide_eq_true_iff]

/-- Two filters leave the same of a list exactly when they agree on its elements. -/
theorem filter_eq_filter_iff {p q : α → Bool} : l.filter p = l.filter q ↔ ∀ x ∈ l, p x = q x := by
  refine ⟨fun h x hx => ?_, List.filter_congr⟩
  have hmem : x ∈ l.filter p ↔ x ∈ l.filter q := by rw [h]
  rw [List.mem_filter, List.mem_filter, and_iff_right hx, and_iff_right hx] at hmem
  exact Bool.eq_iff_iff.2 hmem

/-- Among elements with distinct values of `f` one only has the value of `x`. -/
theorem filter_eq_singleton {β : Type*} [DecidableEq β] {f : α → β} (hnodup : (l.map f).Nodup)
    (hx : x ∈ l) : l.filter (fun y => f y = f x) = [x] := by
  induction l with
  | nil => cases hx
  | cons y l ih =>
    obtain ⟨hy, hnodup⟩ := List.nodup_cons.1 hnodup
    rcases List.mem_cons.1 hx with rfl | hx
    · have hnone : l.filter (fun y => f y = f x) = [] := by
        refine List.filter_eq_nil_iff.2 fun z hz heq => hy ?_
        exact of_decide_eq_true heq ▸ List.mem_map_of_mem hz
      rw [List.filter_cons_of_pos (by simp), hnone]
    · have hne : f y ≠ f x := fun heq => hy (heq ▸ List.mem_map_of_mem hx)
      rw [List.filter_cons_of_neg (by simpa using hne), ih hnodup hx]

theorem mem_of_mem_eraseIdx {y : α} (h : y ∈ l.eraseIdx i) : y ∈ l :=
  (List.eraseIdx_sublist l i).subset h

theorem length_eraseIdx_add_one (h : l[i]? = some x) : (l.eraseIdx i).length + 1 = l.length := by
  have hi : i < l.length := (List.getElem?_eq_some_iff.1 h).1
  rw [List.length_eraseIdx_of_lt hi]
  omega

end Links
