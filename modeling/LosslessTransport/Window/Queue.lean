import LosslessTransport.Window.Log

/-!
# The buffer as a queue

By timestamps for the retransmissions, and by sequence numbers for the ACKs, the buffer is a
priority queue.  `Window.MinQueue` says so of a peek and the pop that belongs to it: they agree on a
packet with the least key, the latest one pushed of these, and popping until NULL returns every
packet once, in the order of the keys.

`Window.updateTimestamp_peeked` is what `retransmit_packets` relies on: it peeks a packet, and has
`window_update_timestamp` look for its timestamp from the front.  Both searches stop at the first
node that fits, so they find the same one, whichever packets share their timestamps.
-/

namespace LosslessTransport.Window

open Links

/-- Popping until NULL: the packets returned, and the window that is left.  There is no result when
`fuel` calls are not enough. -/
def popAll (pop : Window → Option PktPtr × Window) : ℕ → Window → Option (List PktPtr × Window)
  | 0, _ => none
  | fuel + 1, w =>
    match pop w with
    | (none, w) => some ([], w)
    | (some p, w) => (popAll pop fuel w).map fun r => (p :: r.1, r.2)

/-- The packet of node `i` has the least key, and was pushed after the others that have it. -/
structure IsNext (key : PktPtr → ℕ) (s : Logged) (i : ℕ) (p : PktPtr) : Prop where
  get : s.w.front[i]? = some p
  le : ∀ q ∈ s.w.front, key p ≤ key q
  latest : ∀ j q k l, j ≠ i → s.w.front[j]? = some q → key q = key p →
    s.serials[i]? = some k → s.serials[j]? = some l → l < k

/-- The peek and the pop of a priority queue. -/
structure MinQueue (key : PktPtr → ℕ) (peek : Window → Option PktPtr)
    (pop : Window → Option PktPtr × Window) (s : Logged) : Prop where
  peek_eq_none_iff : peek s.w = none ↔ s.w.front = []
  pop_of_nil : s.w.front = [] → pop s.w = (none, s.w)
  /-- The pop takes the packet that the peek returns. -/
  pop_of_peek : ∀ p, peek s.w = some p → ∃ i n, IsNext key s i p ∧ s.w.bufsize = n + 1 ∧
    pop s.w = (some p, { s.w with front := s.w.front.eraseIdx i, bufsize := n })
  /-- Popping until NULL comes to an end, with the packets in order. -/
  popAll_sorted : ∀ fuel, s.w.front.length < fuel → ∃ ps,
    popAll pop fuel s.w = some (ps, { s.w with front := [], bufsize := 0 }) ∧
      ps.Perm s.w.front ∧ ps.Pairwise fun p q => key p ≤ key q

variable {w w₀ : Window} {s : Logged} {key : PktPtr → ℕ} {peek : Window → Option PktPtr}
  {pop : Window → Option PktPtr × Window} {p : PktPtr} {i size maxSize maxSeqnum : ℕ}

/-- The node that the pass finds is unlinked. -/
theorem Wf.popNode_of_isFirstMin (h : w.Wf) (hmin : IsFirstMin key w.front i p) :
    ∃ n, w.bufsize = n + 1 ∧
      w.popNode i = (some p, { w with front := w.front.eraseIdx i, bufsize := n }) := by
  have hlen := length_eraseIdx_add_one hmin.get
  refine ⟨w.bufsize - 1, ?_, popNode_of_some hmin.get⟩
  rw [h.bufsize_eq]
  omega

/-- **Popping until NULL** returns the packets in the order of their keys. -/
theorem Wf.popAll_sorted (h : w.Wf) (hpop : ∀ w, pop w = w.popNode (minLink key w.front))
    {fuel : ℕ} (hfuel : w.front.length < fuel) :
    ∃ ps, popAll pop fuel w = some (ps, { w with front := [], bufsize := 0 }) ∧
      ps.Perm w.front ∧ ps.Pairwise fun p q => key p ≤ key q := by
  induction fuel generalizing w with
  | zero => exact absurd hfuel (Nat.not_lt_zero _)
  | succ fuel ih =>
    by_cases hnil : w.front = []
    · -- the pop returns NULL, and that is the end of the loop
      have hsame : w = { w with front := [], bufsize := 0 } := by
        have hsize : w.bufsize = 0 := by
          rw [h.bufsize_eq, hnil]
          rfl
        rw [← hnil, ← hsize]
      have hnone : pop w = (none, w) := by
        rw [hpop, popNode_of_none ((getElem?_minLink_eq_none_iff key).2 hnil)]
      refine ⟨[], ?_, hnil ▸ .refl _, .nil⟩
      rw [popAll, hnone, ← hsame]
    · -- the first packet has the least key of all, so also of those popped after it
      obtain ⟨p, hmin⟩ := minLink_spec key hnil
      obtain ⟨n, -, hp⟩ := h.popNode_of_isFirstMin hmin
      have hwf := h.popNode (minLink key w.front)
      rw [hp] at hwf
      have hlen := length_eraseIdx_add_one hmin.get
      obtain ⟨ps, hps, hperm, hsorted⟩ := ih hwf (by dsimp only; omega)
      refine ⟨p :: ps, ?_, ?_, List.pairwise_cons.2 ⟨fun q hq => ?_, hsorted⟩⟩
      · rw [popAll, hpop, hp]
        dsimp only
        rw [hps]
        rfl
      · obtain ⟨hlt, hget⟩ := List.getElem?_eq_some_iff.1 hmin.get
        have hcons := List.getElem_cons_eraseIdx_perm hlt
        rw [hget] at hcons
        exact (hperm.cons p).trans hcons
      · exact hmin.le q (mem_of_mem_eraseIdx (hperm.mem_iff.1 hq))

/-- Of two nodes, the one nearer to the front was pushed later. -/
theorem Logged.Inv.serial_lt (h : s.Inv) {j k l : ℕ} (hij : i < j) (hi : s.serials[i]? = some k)
    (hj : s.serials[j]? = some l) : l < k := by
  obtain ⟨hi', rfl⟩ := List.getElem?_eq_some_iff.1 hi
  obtain ⟨hj', rfl⟩ := List.getElem?_eq_some_iff.1 hj
  exact List.pairwise_iff_getElem.1 h.latest_first i j hi' hj' hij

theorem Logged.Inv.isNext (h : s.Inv) (hmin : IsFirstMin key s.w.front i p) :
    IsNext key s i p := by
  refine ⟨hmin.get, hmin.le, fun j q k l hne hq hkey hi hj => ?_⟩
  rcases Nat.lt_or_gt_of_ne hne with hlt | hlt
  · have := hmin.lt j q hlt hq
    omega
  · exact h.serial_lt hlt hi hj

theorem Logged.Inv.minQueue (h : s.Inv)
    (hpeek : ∀ w : Window, peek w = w.front[minLink key w.front]?)
    (hpop : ∀ w, pop w = w.popNode (minLink key w.front)) : MinQueue key peek pop s where
  peek_eq_none_iff := hpeek s.w ▸ getElem?_minLink_eq_none_iff key
  pop_of_nil hnil := by
    rw [hpop, popNode_of_none ((getElem?_minLink_eq_none_iff key).2 hnil)]
  pop_of_peek p hp := by
    rw [hpeek] at hp
    have hmin := isFirstMin_of_getElem? hp
    obtain ⟨n, hn, hpopped⟩ := h.wf.popNode_of_isFirstMin hmin
    exact ⟨_, n, h.isNext hmin, hn, (hpop s.w).trans hpopped⟩
  popAll_sorted fuel hfuel := h.wf.popAll_sorted hpop hfuel

/-- **The buffer is a priority queue**, by timestamps and by sequence numbers, after any calls on a
window that `window_create` has made. -/
theorem min_queues (hcreate : create size maxSize maxSeqnum = some w₀)
    (h : (LTS.ofStep Logged.step).Reachable (Logged.init w₀) s) :
    MinQueue (fun p => p.timestamp.toNat) peekMinTimestamp popMinTimestamp s ∧
      MinQueue PktPtr.seqnum peekMinSeqnum popMinSeqnum s := by
  obtain ⟨hinv, -⟩ := Logged.inv_of_reachable hcreate h
  exact ⟨hinv.minQueue (fun _ => rfl) fun _ => rfl, hinv.minQueue (fun _ => rfl) fun _ => rfl⟩

/-- These are all the buffers there are: any list of packets can be pushed. -/
theorem exists_reachable_front (front : List PktPtr) (hlen : front.length ≤ maxSize) :
    ∃ s, (LTS.ofStep Logged.step).Reachable
        (Logged.init ⟨maxSeqnum, maxSize, maxSize, 0, 0, []⟩) s ∧
      s.w = ⟨maxSeqnum, maxSize, maxSize, 0, front.length, front⟩ := by
  induction front with
  | nil => exact ⟨_, .refl _, rfl⟩
  | cons p front ih =>
    rw [List.length_cons] at hlen
    obtain ⟨s, hreach, hs⟩ := ih (by omega)
    have hfull : s.w.full = false := by
      rw [hs]
      simp only [full, Bool.or_eq_false_iff, decide_eq_false_iff_not]
      omega
    have happly := congrArg (fun r => some r.2) (push_of_not_full p hfull)
    refine ⟨_, hreach.tail (l := .push p) (Option.map_eq_some_iff.2 ⟨_, happly, rfl⟩), ?_⟩
    change ({ s.w with front := p :: s.w.front, bufsize := s.w.bufsize + 1 } : Window) = _
    rw [hs]
    rfl

/-- Two packets with the same keys: the second one pushed is the next one. -/
theorem min_queues_tie :
    ∃ s : Logged, s.w.front.map PktPtr.addr = [1, 0] ∧
      s.w.peekMinSeqnum = some ⟨1, Pkt.new⟩ ∧ MinQueue PktPtr.seqnum peekMinSeqnum popMinSeqnum s :=
    by
  have hcreate : create 2 2 255 = some ⟨255, 2, 2, 0, 0, []⟩ := rfl
  have hrun : LTS.run Logged.step (Logged.init ⟨255, 2, 2, 0, 0, []⟩)
      [.push ⟨0, Pkt.new⟩, .push ⟨1, Pkt.new⟩] =
        some ⟨⟨255, 2, 2, 0, 2, [⟨1, Pkt.new⟩, ⟨0, Pkt.new⟩]⟩, [⟨1, Pkt.new⟩, ⟨0, Pkt.new⟩], [],
          [1, 0]⟩ := rfl
  exact ⟨_, rfl, rfl, (min_queues hcreate (LTS.reachable_of_run hrun)).2⟩

/-! ### Rescheduling -/

/-- The nodes of a list, which point to packets in memory. -/
def nodesAt (memory : ℕ → Pkt) (addrs : List ℕ) : List PktPtr := addrs.map fun a => ⟨a, memory a⟩

theorem mem_nodesAt {memory : ℕ → Pkt} {addrs : List ℕ} (h : p ∈ nodesAt memory addrs) :
    p = ⟨p.addr, memory p.addr⟩ := by
  obtain ⟨a, -, rfl⟩ := List.mem_map.1 h
  rfl

/-- Changing a packet in place changes memory at its address. -/
theorem map_store_nodesAt (memory : ℕ → Pkt) (addrs : List ℕ) (p : PktPtr) :
    (nodesAt memory addrs).map (fun cur => if cur.addr = p.addr then p else cur) =
      nodesAt (Function.update memory p.addr p.pkt) addrs := by
  rw [nodesAt, nodesAt, List.map_map]
  refine List.map_congr_left fun a _ => ?_
  by_cases ha : a = p.addr
  · subst ha
    simp
  · simp [ha]

/-- **Rescheduling the packet that was peeked**, for any list of nodes and any packets in memory:
the update succeeds, and what changes is the timestamp of that packet. -/
theorem updateTimestamp_peeked {memory : ℕ → Pkt} {addrs : List ℕ}
    (hfront : w.front = nodesAt memory addrs) (hne : w.front ≠ []) (newTime : BitVec 32) :
    ∃ a ∈ addrs, w.peekMinTimestamp = some ⟨a, memory a⟩ ∧
      w.updateTimestamp (memory a).getTimestamp newTime = (0, { w with
        front := nodesAt
          (Function.update memory a { memory a with timestamp := htonl newTime }) addrs }) ∧
      ({ memory a with timestamp := htonl newTime } : Pkt).getTimestamp = newTime := by
  obtain ⟨p, hpeek⟩ : ∃ p, w.peekMinTimestamp = some p :=
    Option.ne_none_iff_exists'.1 fun hnone => hne (peekMinTimestamp_eq_none_iff.1 hnone)
  have hmem := mem_of_peekMinTimestamp hpeek
  rw [hfront] at hmem
  have hp := mem_nodesAt hmem
  obtain ⟨a, ha, hpa⟩ := List.mem_map.1 hmem
  subst hpa
  refine ⟨a, ha, hpeek, (updateTimestamp_of_peek hpeek newTime).trans ?_, ntohl_htonl newTime⟩
  rw [store, hfront, map_store_nodesAt]
  rfl

/-- Of two packets with timestamp 0 the first one of the list is rescheduled. -/
theorem updateTimestamp_peeked_tie :
    ∃ w w' : Window, w.front.map PktPtr.timestamp = [0, 0] ∧
      w.updateTimestamp 0 7 = (0, w') ∧ w'.front.map PktPtr.timestamp = [7, 0] := by
  have hfront : (⟨255, 2, 2, 0, 2, [⟨1, Pkt.new⟩, ⟨0, Pkt.new⟩]⟩ : Window).front =
      nodesAt (fun _ => Pkt.new) [1, 0] := rfl
  obtain ⟨a, -, hpeek, hupdate, -⟩ := updateTimestamp_peeked hfront (List.cons_ne_nil _ _) 7
  obtain rfl : 1 = a := congrArg PktPtr.addr (Option.some.inj hpeek)
  exact ⟨_, _, rfl, hupdate, by decide⟩

end LosslessTransport.Window
