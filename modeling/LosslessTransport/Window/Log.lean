import LosslessTransport.Window.Circle

/-!
# The books of a window

`Window.Logged` is a window with the packets that have been pushed into it and those that pops have
returned.  Over any run of window operations nothing is lost and nothing is returned twice: what was
pushed is what was returned and what is still in the buffer (`Window.Logged.Inv`), and the list is
in the order of the pushes, the latest one first.
-/

namespace LosslessTransport.Window

open Links

/-- The packet that a call puts into the buffer. -/
def added (w : Window) : Op → Option PktPtr
  | .push pkt => if (w.push pkt).1 = 0 then some pkt else none
  | _ => none

/-- The packet that a pop returns. -/
def returned (w : Window) : Op → Option PktPtr
  | .popTimestamp timestamp => (w.popTimestamp timestamp).1
  | .popMinTimestamp => w.popMinTimestamp.1
  | .popMinSeqnum => w.popMinSeqnum.1
  | _ => none

/-- The position of the link that a pop hands to `window_pop_node`. -/
def unlinked (w : Window) : Op → Option ℕ
  | .popTimestamp timestamp =>
    some ((w.front.findIdx? fun cur => cur.timestamp = timestamp).getD 0)
  | .popMinTimestamp => some w.findMinTimestamp
  | .popMinSeqnum => some w.findMinSeqnum
  | _ => none

/-- A window and its history. -/
structure Logged where
  w : Window
  /-- The packets pushed, latest first. -/
  pushed : List PktPtr
  /-- The packets that pops have returned, latest first. -/
  popped : List PktPtr
  /-- Which push made each node of the list, first node first. -/
  serials : List ℕ

namespace Logged

/-- A window that `window_create` has made. -/
def init (w : Window) : Logged where
  w := w
  pushed := []
  popped := []
  serials := []

/-- A call, with its entries in the history. -/
def step (s : Logged) (op : Op) : Option Logged :=
  (s.w.apply op).map fun w =>
    { w := w
      pushed := (s.w.added op).toList ++ s.pushed
      popped := (s.w.returned op).toList ++ s.popped
      serials :=
        match s.w.added op, s.w.unlinked op with
        | some _, _ => s.pushed.length :: s.serials
        | none, some i => s.serials.eraseIdx i
        | none, none => s.serials }

/-- What holds after any calls. -/
structure Inv (s : Logged) : Prop where
  wf : s.w.Wf
  /-- What was pushed is what was returned and what is in the buffer. -/
  conserved : (s.pushed.map PktPtr.addr).Perm
    (s.popped.map PktPtr.addr ++ s.w.front.map PktPtr.addr)
  /-- Each node holds the packet of the push that made it. -/
  made : s.w.front.map (fun p => some p.addr) =
    s.serials.map fun k => (s.pushed.reverse[k]?).map PktPtr.addr
  /-- The list is in the order of the pushes, the latest one first. -/
  latest_first : s.serials.Pairwise fun k l => l < k
  lt : ∀ k ∈ s.serials, k < s.pushed.length

end Logged

variable {w w' w₀ : Window} {op : Op} {s s' : Logged} {size maxSize maxSeqnum : ℕ}

/-- **What a call does to the list**: nothing but to change packets in place, or it puts a packet at
the front, or it unlinks a node and returns its packet. -/
theorem apply_cases (h : w.apply op = some w') :
    (w'.front.map PktPtr.addr = w.front.map PktPtr.addr ∧ w.added op = none ∧
      w.returned op = none ∧ w.unlinked op = none) ∨
    (∃ p, w'.front = p :: w.front ∧ w.added op = some p ∧ w.returned op = none) ∨
    ∃ i, w' = (w.popNode i).2 ∧ w.added op = none ∧ w.returned op = (w.popNode i).1 ∧
      w.unlinked op = some i := by
  cases op with
  | slide =>
    cases h
    exact .inl ⟨rfl, rfl, rfl, rfl⟩
  | slideTo pos =>
    obtain ⟨-, h⟩ := Option.ite_none_right_eq_some.1 h
    cases h
    exact .inl ⟨rfl, rfl, rfl, rfl⟩
  | resize newSize =>
    cases h
    refine .inl ⟨?_, rfl, rfl, rfl⟩
    unfold resize
    split_ifs <;> rfl
  | push pkt =>
    cases h
    rcases Bool.eq_false_or_eq_true w.full with hfull | hfull
    · have hpush := push_of_full pkt hfull
      rw [hpush]
      exact .inl ⟨rfl, by rw [added, hpush]; rfl, rfl, rfl⟩
    · have hpush := push_of_not_full pkt hfull
      rw [hpush]
      exact .inr (.inl ⟨pkt, rfl, by rw [added, hpush]; rfl, rfl⟩)
  | updateTimestamp oldTime newTime =>
    cases h
    refine .inl ⟨?_, rfl, rfl, rfl⟩
    rcases updateTimestamp_cases w oldTime newTime with heq | ⟨p, heq⟩
    · rw [heq]
    · rw [heq]
      exact map_addr_store p
  | store pkt =>
    cases h
    exact .inl ⟨map_addr_store _, rfl, rfl, rfl⟩
  | popTimestamp | popMinTimestamp | popMinSeqnum =>
    cases h
    exact .inr (.inr ⟨_, rfl, rfl, rfl, rfl⟩)

theorem Logged.step_eq (h : s.step op = some s') :
    ∃ w', s.w.apply op = some w' ∧
      s' = { w := w'
             pushed := (s.w.added op).toList ++ s.pushed
             popped := (s.w.returned op).toList ++ s.popped
             serials :=
               match s.w.added op, s.w.unlinked op with
               | some _, _ => s.pushed.length :: s.serials
               | none, some i => s.serials.eraseIdx i
               | none, none => s.serials } := by
  obtain ⟨w', hw', rfl⟩ := Option.map_eq_some_iff.1 h
  exact ⟨w', hw', rfl⟩

/-- Unlinking a node returns its packet, if there is one, and takes no other out of the buffer. -/
theorem perm_popNode (w : Window) (i : ℕ) :
    (w.front.map PktPtr.addr).Perm
      ((w.popNode i).1.toList.map PktPtr.addr ++ (w.popNode i).2.front.map PktPtr.addr) ∧
    (w.popNode i).2.front = w.front.eraseIdx i := by
  cases hi : w.front[i]? with
  | none =>
    rw [popNode_of_none hi]
    exact ⟨.refl _, (List.eraseIdx_of_length_le (List.getElem?_eq_none_iff.1 hi)).symm⟩
  | some p =>
    rw [popNode_of_some hi]
    obtain ⟨hlt, rfl⟩ := List.getElem?_eq_some_iff.1 hi
    exact ⟨((List.getElem_cons_eraseIdx_perm hlt).map PktPtr.addr).symm, rfl⟩

namespace Logged

theorem Inv.init (h : w.Wf) (hnil : w.front = []) : (init w).Inv := by
  refine ⟨h, ?_, ?_, .nil, nofun⟩ <;> simp [Logged.init, hnil]

/-- A push keeps the books: the new node gets the number of its push, above all the others. -/
theorem Inv.push {p : PktPtr} (h : s.Inv) (hwf : w'.Wf) (hfront : w'.front = p :: s.w.front) :
    Inv ⟨w', p :: s.pushed, s.popped, s.pushed.length :: s.serials⟩ := by
  -- a push does not renumber the earlier ones
  have hold : ∀ k ∈ s.serials, ((p :: s.pushed).reverse[k]?) = s.pushed.reverse[k]? := by
    intro k hk
    rw [List.reverse_cons, List.getElem?_append_left (by simpa using h.lt k hk)]
  have hnew : ((p :: s.pushed).reverse[s.pushed.length]?) = some p := by simp
  refine ⟨hwf, ?_, ?_, List.pairwise_cons.2 ⟨h.lt, h.latest_first⟩, ?_⟩
  · change (p.addr :: s.pushed.map PktPtr.addr).Perm _
    rw [hfront, List.map_cons]
    exact (h.conserved.cons _).trans List.perm_middle.symm
  · change w'.front.map _ = List.map _ (s.pushed.length :: s.serials)
    rw [hfront, List.map_cons, List.map_cons, h.made]
    change _ = (((p :: s.pushed).reverse[s.pushed.length]?).map PktPtr.addr) :: _
    rw [hnew]
    refine congrArg _ (List.map_congr_left fun k hk => ?_)
    exact congrArg _ (hold k hk).symm
  · intro k hk
    rcases List.mem_cons.1 hk with rfl | hk
    · exact Nat.lt_succ_self _
    · exact Nat.lt_succ_of_lt (h.lt k hk)

/-- Unlinking a node keeps the books: its packet moves from the list to those returned. -/
theorem Inv.popNode (h : s.Inv) (i : ℕ) (hwf : (s.w.popNode i).2.Wf) :
    Inv ⟨(s.w.popNode i).2, s.pushed, (s.w.popNode i).1.toList ++ s.popped,
      s.serials.eraseIdx i⟩ := by
  obtain ⟨hperm, hfront⟩ := perm_popNode s.w i
  refine ⟨hwf, ?_, ?_, h.latest_first.eraseIdx i, fun k hk => h.lt k (mem_of_mem_eraseIdx hk)⟩
  · change (s.pushed.map PktPtr.addr).Perm
      (((s.w.popNode i).1.toList ++ s.popped).map PktPtr.addr ++ _)
    rw [List.map_append]
    refine h.conserved.trans ((hperm.append_left _).trans ?_)
    rw [← List.append_assoc]
    exact (List.perm_append_comm.append_right _)
  · change (s.w.popNode i).2.front.map _ = (s.serials.eraseIdx i).map _
    rw [hfront, ← List.eraseIdx_map, ← List.eraseIdx_map, h.made]

theorem Inv.step (h : s.Inv) (hs : s.step op = some s') : s'.Inv := by
  obtain ⟨w', hw', rfl⟩ := step_eq hs
  have hwf := h.wf.apply hw'
  obtain ⟨haddrs, hadd, hret, hunl⟩ | ⟨p, hfront, hadd, hret⟩ | ⟨i, rfl, hadd, hret, hunl⟩ :=
    apply_cases hw'
  · -- the packets are the same ones, whatever the call has written into them
    have hsome := congrArg (List.map some) haddrs
    rw [List.map_map, List.map_map] at hsome
    rw [hadd, hret, hunl]
    exact ⟨hwf, haddrs.symm ▸ h.conserved, hsome.trans h.made, h.latest_first, h.lt⟩
  · rw [hadd, hret]
    exact h.push hwf hfront
  · rw [hadd, hret, hunl]
    exact h.popNode i hwf

/-- A call that is refused changes nothing. -/
theorem step_of_refused (h : s.w.apply op = some s.w) (hadd : s.w.added op = none)
    (hret : s.w.returned op = none) (hunl : s.w.unlinked op = none) : s.step op = some s := by
  rw [Logged.step, h, Option.map_some, hadd, hret, hunl]
  rfl

theorem inv_of_reachable (hcreate : create size maxSize maxSeqnum = some w₀)
    (h : (LTS.ofStep Logged.step).Reachable (Logged.init w₀) s) :
    s.Inv ∧ s.w.maxSeqnum = maxSeqnum ∧ s.w.capacity = maxSize := by
  refine h.invariant (I := fun s => s.Inv ∧ s.w.maxSeqnum = maxSeqnum ∧ s.w.capacity = maxSize)
    ⟨Inv.init (Wf.create hcreate) ?_, fixed_of_create hcreate⟩ ?_
  · obtain ⟨-, h₀⟩ := Option.ite_none_left_eq_some.1 hcreate
    cases h₀
    rfl
  · rintro s op s' ⟨hinv, hmax, hcap⟩ hs
    obtain ⟨w', hw', rfl⟩ := step_eq hs
    obtain ⟨hmax', hcap'⟩ := fixed_apply hw'
    exact ⟨hinv.step hs, hmax'.trans hmax, hcap'.trans hcap⟩

end Logged

theorem available_pos_iff (h : w.Wf) : 0 < w.available ↔ w.full = false := by
  rw [available_eq h, full_eq_false_iff h]
  omega

/-- A resize succeeds, or the window is as it was. -/
theorem resize_of_ne_zero {n : ℕ} (h : (w.resize n).1 ≠ 0) : (w.resize n).2 = w := by
  unfold resize at h ⊢
  split_ifs at h ⊢
  · rfl
  · exact absurd rfl h

/-- **The representation invariant**, after any calls on a window that `window_create` has made:
the counters are right and in their bounds, no packet is lost or returned twice, a push succeeds
exactly when there is room, and a push or a resize that is refused changes nothing. -/
theorem keeps_books (hcreate : create size maxSize maxSeqnum = some w₀)
    (h : (LTS.ofStep Logged.step).Reachable (Logged.init w₀) s) :
    (s.w.bufsize = s.w.front.length ∧ s.w.bufsize ≤ maxSize ∧ s.w.size ≤ maxSize ∧
      s.w.pos ≤ maxSeqnum) ∧
    (s.pushed.map PktPtr.addr).Perm (s.popped.map PktPtr.addr ++ s.w.front.map PktPtr.addr) ∧
    (∀ p, (s.w.push p).1 = 0 ↔ 0 < s.w.available) ∧
    (0 < s.w.available ↔ s.w.full = false) ∧
    (∀ p, (s.w.push p).1 ≠ 0 → s.step (.push p) = some s) ∧
    ∀ n, (s.w.resize n).1 ≠ 0 → s.step (.resize n) = some s := by
  obtain ⟨hinv, rfl, rfl⟩ := Logged.inv_of_reachable hcreate h
  have hwf := hinv.wf
  refine ⟨⟨hwf.bufsize_eq, hwf.bufsize_le, hwf.size_le, hwf.pos_le⟩, hinv.conserved, fun p => ?_,
    available_pos_iff hwf, fun p hp => ?_, fun n hn => ?_⟩
  · rw [push_eq_zero_iff, available_pos_iff hwf]
  · have hfull : s.w.full = true := by
      rwa [ne_eq, push_eq_zero_iff, Bool.not_eq_false] at hp
    refine Logged.step_of_refused ?_ ?_ rfl rfl
    · rw [apply, push_of_full p hfull]
    · rw [added, if_neg hp]
  · refine Logged.step_of_refused ?_ rfl rfl rfl
    rw [apply, resize_of_ne_zero hn]

/-- A window of one packet, after two pushes: the second one is refused. -/
theorem keeps_books_full :
    ∃ s : Logged, s.pushed.length = 1 ∧ s.w.bufsize = 1 ∧
      (s.pushed.map PktPtr.addr).Perm (s.popped.map PktPtr.addr ++ s.w.front.map PktPtr.addr) ∧
      s.step (.push ⟨1, Pkt.new⟩) = some s := by
  have hcreate : create 1 1 255 = some ⟨255, 1, 1, 0, 0, []⟩ := rfl
  have hrun : LTS.run Logged.step (Logged.init ⟨255, 1, 1, 0, 0, []⟩)
      [.push ⟨0, Pkt.new⟩, .push ⟨1, Pkt.new⟩] =
        some ⟨⟨255, 1, 1, 0, 1, [⟨0, Pkt.new⟩]⟩, [⟨0, Pkt.new⟩], [], [0]⟩ := rfl
  obtain ⟨-, hperm, -, -, hpush, -⟩ := keeps_books hcreate (LTS.reachable_of_run hrun)
  exact ⟨_, rfl, rfl, hperm, hpush _ (by decide)⟩

end LosslessTransport.Window
