import Mathlib.Logic.Relation
import Mathlib.Tactic.Common

/-!
# Labelled transition systems

States, labels and steps; reachability; the invariant rule.  `LTS.restrict` keeps the steps that
meet a condition on the state and the label, so its reachable states are those of the runs in which
every step meets the condition.  `LTS.ofStep` is the system of an executable step function, and
`LTS.reachable_of_run` turns a computed run into reachability.  `LTS.exists_reachable_of_rank` is
the rule for what can be reached.

`LTS.always_iff_each` is the rule for exact conditions: if from a state with the property a step
leads to a state with the property exactly when it meets the condition, then a run stays within the
property exactly when all its steps meet the condition.
-/

/-- A labelled transition system with states `S` and labels `L`. -/
structure LTS (S : Type*) (L : Type*) where
  /-- `step s l s'` : the system can move from `s` to `s'` under the label `l`. -/
  step : S → L → S → Prop

namespace LTS

variable {S L : Type*} (A : LTS S L)

/-- `s` is reachable from `s₀`. -/
def Reachable (s₀ s : S) : Prop := Relation.ReflTransGen (fun s s' => ∃ l, A.step s l s') s₀ s

/-- The steps that meet the condition. -/
def restrict (P : S → L → Prop) : LTS S L where
  step s l s' := P s l ∧ A.step s l s'

/-- The system of a step function. -/
def ofStep (f : S → L → Option S) : LTS S L where
  step s l s' := f s l = some s'

variable {A} {s₀ s s' : S} {l : L}

namespace Reachable

theorem refl (s : S) : A.Reachable s s := Relation.ReflTransGen.refl

theorem tail (h : A.Reachable s₀ s) (hs : A.step s l s') : A.Reachable s₀ s' :=
  Relation.ReflTransGen.tail h ⟨l, hs⟩

theorem head (hs : A.step s₀ l s) (h : A.Reachable s s') : A.Reachable s₀ s' :=
  Relation.ReflTransGen.head ⟨l, hs⟩ h

/-- A system with more steps reaches more states. -/
theorem mono {B : LTS S L} (h : A.Reachable s₀ s)
    (hsub : ∀ s l s', A.step s l s' → B.step s l s') : B.Reachable s₀ s :=
  Relation.ReflTransGen.mono (fun _ _ => Exists.imp fun _ => hsub _ _ _) _ _ h

/-- **Invariants**: what holds at first and is kept by every step holds in every reachable
state. -/
theorem invariant {I : S → Prop} (h : A.Reachable s₀ s) (h₀ : I s₀)
    (hstep : ∀ s l s', I s → A.step s l s' → I s') : I s := by
  induction h with
  | refl => exact h₀
  | tail _ hs ih =>
    obtain ⟨l, hl⟩ := hs
    exact hstep _ l _ ih hl

end Reachable

/-- **Reaching a goal**: when from every state with the invariant that is not a goal a state of
smaller rank can be reached, so can a goal. -/
theorem exists_reachable_of_rank {I Goal : S → Prop} (rank : S → ℕ)
    (h : ∀ s, I s → ¬ Goal s → ∃ s', A.Reachable s s' ∧ I s' ∧ rank s' < rank s) (hs : I s) :
    ∃ s', A.Reachable s s' ∧ I s' ∧ Goal s' := by
  induction hn : rank s using Nat.strongRecOn generalizing s with
  | ind n ih =>
    by_cases hgoal : Goal s
    · exact ⟨s, .refl s, hs, hgoal⟩
    · obtain ⟨s₁, hreach, hs₁, hlt⟩ := h s hs hgoal
      obtain ⟨s', hreach', hs', hgoal'⟩ := ih (rank s₁) (hn ▸ hlt) hs₁ rfl
      exact ⟨s', hreach.trans hreach', hs', hgoal'⟩

/-- The state after a list of labels. -/
def run (f : S → L → Option S) : S → List L → Option S
  | s, [] => some s
  | s, l :: ls => (f s l).bind fun s => run f s ls

theorem reachable_of_run {f : S → L → Option S} {ls : List L} (h : run f s₀ ls = some s) :
    (ofStep f).Reachable s₀ s := by
  induction ls generalizing s₀ with
  | nil =>
    cases h
    exact .refl _
  | cons l ls ih =>
    obtain ⟨s₁, hs, h⟩ := Option.bind_eq_some_iff.1 h
    exact .head (l := l) hs (ih h)

/-- A run in which the condition is checked at every step. -/
theorem reachable_of_checked_run {f : S → L → Option S} {P : S → L → Prop}
    [∀ s l, Decidable (P s l)] {ls : List L}
    (h : run (fun s l => if P s l then f s l else none) s₀ ls = some s) :
    ((ofStep f).restrict P).Reachable s₀ s := by
  induction ls generalizing s₀ with
  | nil =>
    cases h
    exact .refl _
  | cons l ls ih =>
    obtain ⟨s₁, hs, h⟩ := Option.bind_eq_some_iff.1 h
    dsimp only at hs
    split_ifs at hs with hP
    exact .head (l := l) ⟨hP, hs⟩ (ih h)

/-! ### Exact conditions -/

/-- Every state of the run has the property.  The run ends where a label has no step. -/
def Always (f : S → L → Option S) (P : S → Prop) : S → List L → Prop
  | s, [] => P s
  | s, l :: ls => P s ∧ ∀ s', f s l = some s' → Always f P s' ls

/-- Every step of the run meets the condition. -/
def Each (f : S → L → Option S) (C : S → L → Prop) : S → List L → Prop
  | _, [] => True
  | s, l :: ls => ∀ s', f s l = some s' → C s l ∧ Each f C s' ls

theorem always_iff_each {f : S → L → Option S} {P : S → Prop} {C : S → L → Prop}
    (h : ∀ s l s', P s → f s l = some s' → (P s' ↔ C s l)) {ls : List L} (hs : P s) :
    Always f P s ls ↔ Each f C s ls := by
  induction ls generalizing s with
  | nil => exact ⟨fun _ => trivial, fun _ => hs⟩
  | cons l ls ih =>
    constructor
    · rintro ⟨-, hrest⟩ s' hstep
      have hs' : P s' := by
        have := hrest s' hstep
        cases ls with
        | nil => exact this
        | cons => exact this.1
      exact ⟨(h s l s' hs hstep).1 hs', (ih hs').1 (hrest s' hstep)⟩
    · intro heach
      refine ⟨hs, fun s' hstep => ?_⟩
      obtain ⟨hC, hrest⟩ := heach s' hstep
      exact (ih ((h s l s' hs hstep).2 hC)).2 hrest

/-- Conditions that agree in the states with an invariant agree on the runs from them. -/
theorem each_congr {f : S → L → Option S} {I : S → Prop} {C D : S → L → Prop}
    (hstep : ∀ s l s', I s → f s l = some s' → I s')
    (h : ∀ s l s', I s → f s l = some s' → (C s l ↔ D s l)) {ls : List L} (hs : I s) :
    Each f C s ls ↔ Each f D s ls := by
  induction ls generalizing s with
  | nil => exact Iff.rfl
  | cons l ls ih =>
    refine forall₂_congr fun s' hs' => ?_
    rw [h s l s' hs hs', ih (hstep s l s' hs hs')]

end LTS
