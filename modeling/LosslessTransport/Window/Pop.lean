import LosslessTransport.Lib.Lts
import LosslessTransport.Window.Spec

/-!
# Popping by timestamp

`Window.Op` is a call of a window operation, and `Window.Reached` says that a window comes from
`window_create` by such calls.  `Window.popTimestamp_exact_iff` says for which of these windows
`window_pop_timestamp` keeps to its contract: the search starts with `match` at the first link, so
when no packet carries the timestamp the first packet of the buffer is removed in its place.
-/

namespace LosslessTransport.Window

open Links

/-- A call that may change a window. -/
inductive Op where
  | slide
  | slideTo (pos : ℕ)
  | resize (newSize : ℕ)
  | push (pkt : PktPtr)
  | updateTimestamp (oldTime newTime : BitVec 32)
  | popTimestamp (timestamp : BitVec 32)
  | popMinTimestamp
  | popMinSeqnum
  /-- A packet is changed in place by its owner. -/
  | store (pkt : PktPtr)

/-- The window after the call; there is none when the assertion of `window_slide_to` fails. -/
def apply (w : Window) : Op → Option Window
  | .slide => some w.slide
  | .slideTo pos => w.slideTo pos
  | .resize newSize => some (w.resize newSize).2
  | .push pkt => some (w.push pkt).2
  | .updateTimestamp oldTime newTime => some (w.updateTimestamp oldTime newTime).2
  | .popTimestamp timestamp => some (w.popTimestamp timestamp).2
  | .popMinTimestamp => some w.popMinTimestamp.2
  | .popMinSeqnum => some w.popMinSeqnum.2
  | .store pkt => some (w.store pkt)

/-- The window comes from `window_create` by window operations. -/
def Reached (w : Window) : Prop :=
  ∃ size maxSize maxSeqnum w₀, create size maxSize maxSeqnum = some w₀ ∧
    (LTS.ofStep apply).Reachable w₀ w

variable {w w' : Window} {t : BitVec 32}

theorem Wf.create {size maxSize maxSeqnum : ℕ} (h : Window.create size maxSize maxSeqnum = some w) :
    w.Wf := by
  unfold Window.create at h
  split_ifs at h with hsize
  cases h
  exact ⟨rfl, Nat.zero_le _, Nat.le_of_not_lt hsize, Nat.zero_le _⟩

theorem Wf.apply (h : w.Wf) {op : Op} (hop : w.apply op = some w') : w'.Wf := by
  cases op with
  | slide =>
    cases hop
    exact h.slide
  | slideTo pos => exact h.slideTo hop
  | resize newSize =>
    cases hop
    exact h.resize newSize
  | push pkt =>
    cases hop
    exact h.push pkt
  | updateTimestamp oldTime newTime =>
    cases hop
    exact h.updateTimestamp oldTime newTime
  | popTimestamp | popMinTimestamp | popMinSeqnum =>
    cases hop
    exact h.popNode _
  | store pkt =>
    cases hop
    exact h.store pkt

theorem Reached.wf (h : Reached w) : w.Wf := by
  obtain ⟨size, maxSize, maxSeqnum, w₀, hcreate, hreach⟩ := h
  exact hreach.invariant (Wf.create hcreate) fun _ _ _ hwf hop => hwf.apply hop

/-- The contract of `window_pop_timestamp`: the first packet with the timestamp is returned and its
node alone is removed; without such a packet nothing is returned and nothing changes. -/
structure PopExact (w : Window) (t : BitVec 32) : Prop where
  hit : ∀ i p, w.front[i]? = some p → p.timestamp = t →
    (∀ j q, j < i → w.front[j]? = some q → q.timestamp ≠ t) →
    ∃ n, w.bufsize = n + 1 ∧
      w.popTimestamp t = (some p, { w with front := w.front.eraseIdx i, bufsize := n })
  miss : (∀ p ∈ w.front, p.timestamp ≠ t) → w.popTimestamp t = (none, w)

/-- A packet that carries the timestamp is popped as the contract says. -/
theorem Wf.popTimestamp_hit (h : w.Wf) {i : ℕ} {p : PktPtr} (hi : w.front[i]? = some p)
    (ht : p.timestamp = t) (hfirst : ∀ j q, j < i → w.front[j]? = some q → q.timestamp ≠ t) :
    ∃ n, w.bufsize = n + 1 ∧
      w.popTimestamp t = (some p, { w with front := w.front.eraseIdx i, bufsize := n }) := by
  obtain ⟨k, q, hk, hq, hbefore, hpop⟩ :=
    popTimestamp_of_mem ⟨p, List.mem_of_getElem? hi, ht⟩
  obtain rfl : k = i := by
    rcases Nat.lt_trichotomy k i with hlt | rfl | hlt
    · exact absurd hq (hfirst k q hlt hk)
    · rfl
    · exact absurd ht (hbefore i p hlt hi)
  obtain rfl : q = p := Option.some.inj (hk.symm.trans hi)
  have hlen := length_eraseIdx_add_one hi
  refine ⟨w.bufsize - 1, ?_, hpop⟩
  rw [h.bufsize_eq]
  omega

/-- **When popping by timestamp is exact**: for a window made by window operations, exactly when
some packet of the buffer carries the timestamp, or the buffer is empty. -/
theorem popTimestamp_exact_iff (h : Reached w) (t : BitVec 32) :
    PopExact w t ↔ (∃ p ∈ w.front, p.timestamp = t) ∨ w.front = [] := by
  constructor
  · intro hexact
    by_contra hno
    push Not at hno
    obtain ⟨hmiss, hne⟩ := hno
    obtain ⟨p, rest, hfront⟩ := List.exists_cons_of_ne_nil hne
    -- the pop takes the first packet, where it should take none
    have hget : w.front[0]? = some p := by
      rw [hfront]
      rfl
    have hpop := hexact.miss hmiss
    rw [popTimestamp_of_not_mem hmiss, popNode_of_some hget] at hpop
    cases congrArg Prod.fst hpop
  · intro hcond
    refine ⟨fun i p hi ht hfirst => h.wf.popTimestamp_hit hi ht hfirst, fun hmiss => ?_⟩
    rcases hcond with ⟨p, hp, ht⟩ | hnil
    · exact absurd ht (hmiss p hp)
    · exact popTimestamp_of_nil hnil

/-- A window with one packet, which has timestamp 0. -/
theorem reached_single : Reached ⟨255, 31, 1, 0, 1, [⟨0, Pkt.new⟩]⟩ := by
  refine ⟨1, 31, 255, _, rfl, (LTS.Reachable.refl _).tail (l := .push ⟨0, Pkt.new⟩) ?_⟩
  rfl

/-- A packet with this timestamp. -/
def stamped (addr : ℕ) (timestamp : BitVec 32) : PktPtr :=
  PktPtr.setTimestamp ⟨addr, Pkt.new⟩ timestamp

/-- Of three packets, the last two with timestamp 7, the one in the middle is popped. -/
theorem popTimestamp_exact_middle :
    ∃ w, Reached w ∧ w.front = [stamped 2 5, stamped 1 7, stamped 0 7] ∧ PopExact w 7 ∧
      (w.popTimestamp 7).1 = some (stamped 1 7) ∧
      (w.popTimestamp 7).2.front = [stamped 2 5, stamped 0 7] := by
  have hrun : LTS.run apply ⟨255, 3, 3, 0, 0, []⟩
      [.push (stamped 0 7), .push (stamped 1 7), .push (stamped 2 5)] =
        some ⟨255, 3, 3, 0, 3, [stamped 2 5, stamped 1 7, stamped 0 7]⟩ := rfl
  have hreached : Reached _ := ⟨3, 3, 255, _, rfl, LTS.reachable_of_run hrun⟩
  have hexact := (popTimestamp_exact_iff hreached 7).2
    (.inl ⟨_, List.mem_cons_of_mem _ (List.mem_cons_self ..), by decide⟩)
  obtain ⟨n, -, hpop⟩ := hexact.hit 1 (stamped 1 7) rfl (by decide) fun j q hj hq => by
    obtain rfl : j = 0 := by omega
    cases hq
    decide
  refine ⟨_, hreached, rfl, hexact, ?_, ?_⟩
  · rw [hpop]
  · rw [hpop]
    rfl

/-- A single packet with timestamp 0 is popped by timestamp 7. -/
theorem popTimestamp_takes_other :
    ∃ w p, Reached w ∧ (∀ q ∈ w.front, q.timestamp ≠ 7) ∧ (w.popTimestamp 7).1 = some p ∧
      p.timestamp = 0 ∧ ¬ PopExact w 7 := by
  have hmiss : ∀ q ∈ [(⟨0, Pkt.new⟩ : PktPtr)], q.timestamp ≠ 7 := by decide
  refine ⟨_, ⟨0, Pkt.new⟩, reached_single, hmiss, rfl, rfl, fun hexact => ?_⟩
  cases congrArg Prod.fst (hexact.miss hmiss)

end LosslessTransport.Window
