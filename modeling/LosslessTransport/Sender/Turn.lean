import LosslessTransport.Sender.Progress
import LosslessTransport.Sender.Schedule
import LosslessTransport.Sender.Stamps

/-!
# A turn of the sender

`Sender.exists_turn`: a sender that hears no reply comes back from its iteration, at any `loop_now`
that lies ahead and for readings as far apart as one likes.  `Turn` says what the iteration has
made of the buffer: every packet in it has been sent just now, or its timer has not expired, and the
packet whose timer expired last has been sent last of those that are not new.
-/

namespace LosslessTransport

namespace Sender

/-- What an iteration that hears no reply makes of the buffer, when it takes `t` for `loop_now` and
the readings for its datagrams are `g` apart. -/
structure Turn (crc32 : List Byte → BitVec 32) (t g : ℕ) (st st' : State) (sent : List Sent) :
    Prop where
  made : ∀ d ∈ sent, d.bytes = (d.pkt.pkt.sealed crc32).image ∧ d.pkt ∈ st'.w.front
  length_le : sent.length ≤ 32
  stamped : ∀ d ∈ sent, t + g + timer.toNat ≤ d.pkt.timestamp.toNat ∧
    d.pkt.timestamp.toNat ≤ t + 32 * g + timer.toNat
  apart : sent.Pairwise fun d e => d.pkt.timestamp.toNat + g ≤ e.pkt.timestamp.toNat
  sent_or_kept : ∀ p ∈ st'.w.front, (∃ d ∈ sent, d.pkt = p) ∨
    (p ∈ st.w.front ∧ t < p.timestamp.toNat)
  /-- The packet whose timer expired last. -/
  last : ∀ p ∈ st.w.front, p.timestamp.toNat = t → ∃ early d new, sent = early ++ d :: new ∧
    d.pkt.addr = p.addr ∧ (∀ x ∈ early, x.pkt.addr ∈ addrs st.w ∧ x.pkt.addr ≠ p.addr) ∧
    (∀ x ∈ new, x.pkt.addr = st.allocs) ∧ new.length ≤ 1
  size : st'.w.size = st.w.size
  nonempty : st'.sentEof = false → st'.w.front ≠ []

variable {crc32 : List Byte → BitVec 32} {input : List Chunk} {st st' : State} {w w' : Window}
  {sent : List Sent} {n c s t g : ℕ} {p : PktPtr} {readings : List ℕ} {loopNow : BitVec 32}

/-! ### The readings -/

/-- Before it goes on the sender may read the clock once, to wait for a timer. -/
theorem exists_await (hw : st.w.Standard) (hrun : st.running = true) (hsize : st.w.size ≠ 0)
    (ready : Option (List Byte)) (now : ℕ) :
    ∃ first, (first = [] ∨ first = [now]) ∧
      ∀ readings, await ready (first ++ readings) st = .ok readings := by
  have hwait : (!st.sentEof && st.w.bufferSize = 0 && st.w.getSize = 0) = false := by
    simp [Window.getSize, hsize]
  by_cases htimer : ((st.w.full && !st.w.empty) || st.sentEof) = true
  · refine ⟨[now], .inr rfl, fun readings => ?_⟩
    obtain ⟨p, hp⟩ := exists_peekMinTimestamp hw hrun htimer
    rw [await, hwait, getTimeout, if_pos htimer, hp]
    rfl
  · refine ⟨[], .inl rfl, fun readings => ?_⟩
    rw [await, hwait, getTimeout, if_neg htimer]
    rfl

theorem advance_range' (hc : c ≤ s) (hg : 1 ≤ g) (hfits : s + n * g ≤ 2 ^ 32) :
    ∃ c', advance c (List.range' s n g) = some c' ∧ c' ≤ s + n * g := by
  induction n generalizing c s with
  | zero => exact ⟨c, rfl, by omega⟩
  | succ n ih =>
    rw [Nat.succ_mul] at hfits ⊢
    obtain ⟨c', hadv, hle⟩ := ih (c := s + 1) (s := s + g) (by omega) (by omega)
    refine ⟨c', ?_, by omega⟩
    rw [List.range'_succ, advance, if_pos ⟨hc, by omega⟩]
    exact hadv

/-- The readings of a turn: perhaps one for the timeout, `loop_now`, and those for the datagrams. -/
theorem advance_turn {first : List ℕ} (hfirst : first = [] ∨ first = [t - 1]) (hc : c < t)
    (hg : 1 ≤ g) (hfits : t + g + n * g ≤ 2 ^ 32) :
    ∃ c', advance c (first ++ t :: List.range' (t + g) n g) = some c' ∧ c' ≤ t + g + n * g := by
  obtain ⟨c', hadv, hle⟩ := advance_range' (c := t + 1) (s := t + g) (by omega) hg hfits
  refine ⟨c', ?_, hle⟩
  rcases hfirst with rfl | rfl
  · rw [List.nil_append, advance, if_pos ⟨hc.le, by omega⟩]
    exact hadv
  · rw [List.singleton_append, advance, if_pos ⟨by omega, by omega⟩, advance,
      if_pos ⟨by omega, by omega⟩]
    exact hadv

theorem pairwise_range' (s n g : ℕ) : (List.range' s n g).Pairwise fun a b => a + g ≤ b := by
  induction n generalizing s with
  | zero => exact .nil
  | succ n ih =>
    rw [List.range'_succ]
    refine List.pairwise_cons.2 ⟨fun b hb => ?_, ih (s + g)⟩
    obtain ⟨i, -, rfl⟩ := List.mem_range'.1 hb
    exact Nat.le_add_right ..

/-! ### The retransmissions -/

theorem resent_mem (sent : List Sent) (p : PktPtr) :
    resent sent p = p ∨ ∃ d ∈ sent, d.pkt = resent sent p := by
  unfold resent
  cases hfind : sent.find? fun d => d.pkt.addr = p.addr with
  | none => exact .inl rfl
  | some d => exact .inr ⟨d, List.mem_of_find?_eq_some hfind, rfl⟩

/-- Of the packets whose timers have expired, the one with the latest deadline is sent last. -/
theorem retransmitExpired_last (h : Buffered input n w)
    (hinj : ∀ p ∈ w.front, ∀ q ∈ w.front, p.timestamp = q.timestamp → p = q)
    (hlate : ∀ now ∈ readings, ¬ BitVec.ofNat 32 now + timer ≤ loopNow)
    {r : Window × List Sent × List ℕ} (hr : retransmitExpired crc32 loopNow readings w = .ok r)
    (hp : p ∈ w.front) (ht : p.timestamp = loopNow) :
    ∃ early d, r.2.1 = early ++ [d] ∧ d.pkt.addr = p.addr ∧
      ∀ x ∈ early, x.pkt.addr ∈ addrs w ∧ x.pkt.addr ≠ p.addr := by
  have hexp : p ∈ expired w loopNow := mem_expired.2 ⟨hp, ht ▸ BitVec.le_refl _⟩
  obtain ⟨used, -, hsent⟩ := Resent.of_ok h hlate hr
  have hnodup : (r.2.1.map fun d => d.pkt.addr).Nodup :=
    hsent.once.nodup_iff.2 (h.nodup_expired loopNow)
  have hsorted := retransmitExpired_sorted h hlate hr (fun i => if i = p.addr then 1 else 0) ?_
  swap
  · -- no deadline is after that of `p`
    intro x hx y hy hle
    by_cases hxp : x.addr = p.addr
    · obtain rfl := h.inj (mem_expired.1 hx).1 hp hxp
      have hyle := (mem_expired.1 hy).2
      rw [← ht, BitVec.le_def] at hyle
      rw [hinj y (mem_expired.1 hy).1 x hp (BitVec.eq_of_toNat_eq (by omega))]
    · rw [if_neg hxp]
      exact Nat.zero_le _
  have hmem : p.addr ∈ r.2.1.map fun d => d.pkt.addr :=
    hsent.once.mem_iff.2 (List.mem_map_of_mem hexp)
  obtain ⟨d, hd, hdp⟩ := List.mem_map.1 hmem
  obtain ⟨early, rest, hsplit⟩ := List.append_of_mem hd
  rw [hsplit, List.map_append, List.map_cons, List.nodup_append, List.nodup_cons] at hnodup
  obtain ⟨-, ⟨hnot, -⟩, hne⟩ := hnodup
  have hrest : rest = [] := by
    rw [List.eq_nil_iff_forall_not_mem]
    intro e he
    rw [hsplit, List.pairwise_append, List.pairwise_cons] at hsorted
    have hle := hsorted.2.1.1 e he
    rw [if_pos hdp] at hle
    have hep : e.pkt.addr = p.addr := by
      by_contra hep
      rw [if_neg hep] at hle
      exact Nat.not_succ_le_zero 0 hle
    exact hnot (List.mem_map.2 ⟨e, he, hep.trans hdp.symm⟩)
  subst hrest
  refine ⟨early, d, hsplit, hdp, fun x hx => ⟨?_, ?_⟩⟩
  · obtain ⟨-, -, q, hq, hxq⟩ := hsent.made x (hsplit ▸ List.mem_append_left _ hx)
    rw [hxq, PktPtr.addr_setTimestamp]
    exact List.mem_map_of_mem hq
  · rw [← hdp]
    exact hne _ (List.mem_map_of_mem hx) _ (List.mem_cons_self ..)

/-- What the retransmissions of a turn make of the buffer. -/
theorem exists_retransmissions (crc32 : List Byte → BitVec 32) (h : Buffered input n w)
    (hinj : ∀ p ∈ w.front, ∀ q ∈ w.front, p.timestamp = q.timestamp → p = q) {turns m : ℕ}
    (hturns : (expired w (BitVec.ofNat 32 t)).length = turns)
    (hfits : t + g + (turns + m) * g + timer.toNat < 2 ^ 32) :
    ∃ w' sent, retransmitExpired crc32 (BitVec.ofNat 32 t) (List.range' (t + g) (turns + m) g) w =
        .ok (w', sent, List.range' (t + g + g * turns) m g) ∧
      Resent crc32 (BitVec.ofNat 32 t) (List.range' (t + g) turns g) w w' sent ∧
      ∀ p ∈ w.front, p.timestamp.toNat = t → ∃ early d, sent = early ++ [d] ∧
        d.pkt.addr = p.addr ∧ ∀ x ∈ early, x.pkt.addr ∈ addrs w ∧ x.pkt.addr ≠ p.addr := by
  have hlate : ∀ now ∈ List.range' (t + g) (turns + m) g,
      ¬ BitVec.ofNat 32 now + timer ≤ BitVec.ofNat 32 t := by
    intro now hnow
    obtain ⟨i, hi, rfl⟩ := List.mem_range'.1 hnow
    have hig : g * i ≤ (turns + m) * g := by
      rw [Nat.mul_comm]
      exact Nat.mul_le_mul_right g hi.le
    have htimer : timer.toNat = 4500000 := rfl
    rw [not_le_iff_wrapped, Nat.mod_eq_of_lt (by omega), Nat.mod_eq_of_lt (by omega)]
    omega
  obtain ⟨⟨w', sent, rest⟩, hr⟩ := exists_retransmitExpired crc32 h
    (by rw [hturns, List.length_range']; exact Nat.le_add_right ..) hlate
  obtain ⟨used, hused, hsent⟩ := Resent.of_ok h hlate hr
  rw [← List.range'_append] at hused
  obtain ⟨rfl, rfl⟩ := List.append_inj hused (by
    rw [List.length_range', hsent.length_eq, hturns])
  refine ⟨w', sent, hr, hsent, fun p hp hpt => ?_⟩
  exact retransmitExpired_last h hinj hlate hr hp
    (BitVec.eq_of_toNat_eq (by rw [hpt, BitVec.toNat_ofNat, Nat.mod_eq_of_lt (by omega)]))

/-! ### The turn -/

/-- An iteration that makes no new packet. -/
theorem mainLoop_eq_of_no_room {readings₀ readings₁ : List ℕ} {now : ℕ}
    {ready : Option (List Byte)} {w₁ w₂ : Window} (hwait : await ready readings st = .ok readings₀)
    (hreceive : receive crc32 st.w ready readings₀ = .ok (some (w₁, now :: readings₁)))
    (hretr : retransmitExpired crc32 (BitVec.ofNat 32 now) readings₁ w₁ = .ok (w₂, sent, []))
    (hroom : w₂.full = true ∨ st.sentEof = true) :
    mainLoop crc32 ready readings st = .ok ({ st with w := w₂ }, sent, []) := by
  have hretr' : retransmitPackets crc32 w₁ (now :: readings₁) = .ok (w₂, sent, []) := hretr
  have hcond : ¬ (¬ w₂.full = true ∧ ¬ st.sentEof = true) := fun h => hroom.elim h.1 h.2
  simp only [mainLoop, hwait, hreceive, hretr', bind, Except.bind, if_neg hcond]
  rfl

/-- The timestamps of the datagrams, from the readings. -/
theorem toNat_timestamps (h : sent.map (fun d => d.pkt.timestamp) =
      (List.range' (t + g) n g).map fun now => BitVec.ofNat 32 now + timer)
    (hfits : t + g + n * g + timer.toNat < 2 ^ 32) :
    sent.map (fun d => d.pkt.timestamp.toNat) =
      (List.range' (t + g) n g).map fun now => now + timer.toNat := by
  have hmap := congrArg (List.map BitVec.toNat) h
  rw [List.map_map, List.map_map] at hmap
  refine hmap.trans (List.map_congr_left fun now hnow => ?_)
  obtain ⟨i, hi, rfl⟩ := List.mem_range'.1 hnow
  have hig : g * i ≤ n * g := by
    rw [Nat.mul_comm]
    exact Nat.mul_le_mul_right g hi.le
  rw [Function.comp_apply, BitVec.toNat_add, BitVec.toNat_ofNat, Nat.mod_add_mod,
    Nat.mod_eq_of_lt (by omega)]

/-- **A turn** sends what `retransmit_packets` sends, and perhaps a new packet. -/
theorem Turn.of_resent {w₂ : Window} {turns : ℕ} {new : List Sent}
    (hsent : Resent crc32 (BitVec.ofNat 32 t) (List.range' (t + g) turns g) st.w w₂ sent)
    (hlast : ∀ p ∈ st.w.front, p.timestamp.toNat = t → ∃ early d, sent = early ++ [d] ∧
      d.pkt.addr = p.addr ∧ ∀ x ∈ early, x.pkt.addr ∈ addrs st.w ∧ x.pkt.addr ≠ p.addr)
    (hnew : ∀ d ∈ new, d.bytes = (d.pkt.pkt.sealed crc32).image ∧ d.pkt.addr = st.allocs)
    (hstamps : new.map (fun d => d.pkt.timestamp) =
      (List.range' (t + g + g * turns) new.length g).map fun now => BitVec.ofNat 32 now + timer)
    (hfront : st'.w.front = new.map Sent.pkt ++ w₂.front) (hsize : st'.w.size = st.w.size)
    (hone : new.length ≤ 1) (hlen : turns + new.length ≤ 32)
    (hfits : t + 33 * g + timer.toNat < 2 ^ 32)
    (hnonempty : st'.sentEof = false → st'.w.front ≠ []) :
    Turn crc32 t g st st' (sent ++ new) := by
  have hlength : sent.length = turns := by
    have h := congrArg List.length hsent.stamped
    rwa [List.length_map, List.length_map, List.length_range'] at h
  have hng : (turns + new.length) * g ≤ 32 * g := Nat.mul_le_mul_right g hlen
  have hnat : (sent ++ new).map (fun d => d.pkt.timestamp.toNat) =
      (List.range' (t + g) (turns + new.length) g).map fun now => now + timer.toNat := by
    refine toNat_timestamps ?_ (by omega)
    rw [List.map_append, hsent.stamped, hstamps, ← List.map_append, List.range'_append]
  refine ⟨fun d hd => ?_, ?_, fun d hd => ?_, ?_, fun p hp => ?_, fun p hp ht => ?_, hsize,
    hnonempty⟩
  · rw [hfront]
    rcases List.mem_append.1 hd with hd | hd
    · obtain ⟨hbytes, hmem, -⟩ := hsent.made d hd
      exact ⟨hbytes, List.mem_append_right _ hmem⟩
    · exact ⟨(hnew d hd).1, List.mem_append_left _ (List.mem_map_of_mem hd)⟩
  · rw [List.length_append, hlength]
    exact hlen
  · have hmem := List.mem_map_of_mem (f := fun d : Sent => d.pkt.timestamp.toNat) hd
    rw [hnat] at hmem
    obtain ⟨now, hnow, hd⟩ := List.mem_map.1 hmem
    obtain ⟨i, hi, rfl⟩ := List.mem_range'.1 hnow
    have hig : g * (i + 1) ≤ g * 32 := Nat.mul_le_mul_left g (by omega)
    rw [Nat.mul_succ] at hig
    omega
  · have hpairwise := (pairwise_range' (t + g) (turns + new.length) g).map
      (S := fun a b => a + g ≤ b) (fun now => now + timer.toNat) fun a b h => by omega
    rw [← hnat] at hpairwise
    exact List.pairwise_map.1 hpairwise
  · rw [hfront] at hp
    rcases List.mem_append.1 hp with hp | hp
    · obtain ⟨d, hd, rfl⟩ := List.mem_map.1 hp
      exact .inl ⟨d, List.mem_append_right _ hd, rfl⟩
    · have hlate := hsent.late p hp
      rw [hsent.kept] at hp
      obtain ⟨x, hx, rfl⟩ := List.mem_map.1 hp
      rcases resent_mem sent x with heq | ⟨d, hd, heq⟩
      · rw [heq] at hlate ⊢
        rw [BitVec.le_def, BitVec.toNat_ofNat, Nat.mod_eq_of_lt (by omega)] at hlate
        exact .inr ⟨hx, Nat.lt_of_not_le hlate⟩
      · exact .inl ⟨d, List.mem_append_left _ hd, heq⟩
  · obtain ⟨early, d, rfl, hd, hearly⟩ := hlast p hp ht
    exact ⟨early, d, new, by rw [List.append_assoc]; rfl, hd, hearly, fun x hx => (hnew x hx).2,
      hone⟩

theorem Turn.add_le_of_lt (h : Turn crc32 t g st st' sent) {d e : Sent} (hd : d ∈ sent)
    (he : e ∈ sent) (hlt : d.pkt.timestamp.toNat < e.pkt.timestamp.toNat) :
    d.pkt.timestamp.toNat + g ≤ e.pkt.timestamp.toNat := by
  obtain ⟨i, hi, rfl⟩ := List.mem_iff_getElem.1 hd
  obtain ⟨j, hj, rfl⟩ := List.mem_iff_getElem.1 he
  have hapart := List.pairwise_iff_getElem.1 h.apart
  rcases Nat.lt_trichotomy i j with hij | rfl | hji
  · exact hapart i j hi hj hij
  · exact absurd hlt (Nat.lt_irrefl _)
  · have := hapart j i hj hi hji
    omega

/-- **The sender takes its turn**, when it is left alone. -/
theorem exists_turn (crc32 : List Byte → BitVec 32) (hinv : Inv input st)
    (hrun : st.running = true) (hsize : st.w.size ≠ 0)
    (hinj : ∀ p ∈ st.w.front, ∀ q ∈ st.w.front, p.timestamp = q.timestamp → p = q) (hc : c < t)
    (hg : 1 ≤ g) (hfits : t + 33 * g + timer.toNat < 2 ^ 32) :
    ∃ readings c' st' sent, advance c readings = some c' ∧ c' ≤ t + 33 * g ∧
      mainLoop crc32 none readings st = .ok (st', sent, []) ∧ Turn crc32 t g st st' sent := by
  obtain ⟨first, hfirst, hwait⟩ := exists_await hinv.standard hrun hsize none (t - 1)
  obtain ⟨turns, hturns⟩ : ∃ turns, (expired st.w (BitVec.ofNat 32 t)).length = turns := ⟨_, rfl⟩
  have hle : turns ≤ 31 := by
    have hbufsize := hinv.standard.bufsize_le
    rw [hinv.standard.capacity_eq, hinv.standard.bufsize_eq] at hbufsize
    exact hturns ▸ (List.length_filter_le ..).trans hbufsize
  by_cases hroom : st.w.full = false ∧ st.sentEof = false
  · have hng : (turns + 1) * g ≤ 32 * g := Nat.mul_le_mul_right g (by omega)
    obtain ⟨w₂, sent, hretr, hsent, hlast⟩ := exists_retransmissions crc32 hinv.toBuffered
      hinj hturns (m := 1) (g := g) (by omega)
    obtain ⟨c', hadv, hc'⟩ := advance_turn (n := turns + 1) hfirst hc hg (by omega)
    have hfull : w₂.full = false := by
      rw [hsent.kept]
      exact hroom.1
    obtain ⟨p, -, hpt, hloop⟩ := mainLoop_eq (hwait _) rfl hretr hfull hroom.2
    refine ⟨_, c', _, _, hadv, by omega, hloop, .of_resent hsent hlast ?_ ?_ rfl ?_ le_rfl
      (by rw [List.length_singleton]; omega) hfits fun _ => List.cons_ne_nil _ _⟩
    · intro d hd
      obtain rfl := List.mem_singleton.1 hd
      exact ⟨rfl, rfl⟩
    · exact congrArg (fun t => [t]) hpt
    · show w₂.size = _
      rw [hsent.kept]
  · have hng : turns * g ≤ 31 * g := Nat.mul_le_mul_right g hle
    obtain ⟨w₂, sent, hretr, hsent, hlast⟩ := exists_retransmissions crc32 hinv.toBuffered
      hinj hturns (m := 0) (g := g) (by rw [Nat.add_zero]; omega)
    obtain ⟨c', hadv, hc'⟩ := advance_turn (n := turns) hfirst hc hg (by omega)
    have hfront : w₂.front.length = st.w.front.length := by
      rw [hsent.kept]
      exact List.length_map ..
    have hnoroom : w₂.full = true ∨ st.sentEof = true := by
      have hsame : w₂.full = st.w.full := by
        rw [hsent.kept]
        rfl
      rw [hsame]
      simpa [Decidable.or_iff_not_imp_left] using hroom
    refine ⟨_, c', _, _, hadv, by omega, mainLoop_eq_of_no_room (hwait _) rfl hretr hnoroom, ?_⟩
    rw [← List.append_nil sent]
    refine .of_resent hsent hlast nofun rfl rfl ?_ (Nat.zero_le _) ?_ hfits fun heof hnil => ?_
    · show w₂.size = _
      rw [hsent.kept]
    · exact hle.trans (by decide)
    · -- a window that is full is not empty
      have hfull : ¬ st.w.full = false := fun hfull => hroom ⟨hfull, heof⟩
      rw [Window.full_eq_false_iff hinv.standard.toWf, ← hfront,
        show w₂.front = [] from hnil] at hfull
      exact hfull (Nat.pos_of_ne_zero hsize)

/-- **An iteration in which no timer has expired**, after what the sender makes of a reply: it takes
a few readings at once, and makes a new packet if there is room. -/
theorem exists_turn_of_late (crc32 : List Byte → BitVec 32) (hw : st.w.Standard)
    (hrun : st.running = true) (hsize : st.w.size ≠ 0) {ready : Option (List Byte)} {w₁ : Window}
    (hreceive : ∀ readings, receive crc32 st.w ready readings = .ok (some (w₁, readings)))
    (hlate : ∀ p ∈ w₁.front, c + 1 < p.timestamp.toNat)
    (hfits : c + 2 + timer.toNat < 2 ^ 32) :
    ∃ readings c' st' sent, advance c readings = some c' ∧ c' ≤ c + 3 ∧
      (∀ now ∈ readings, now < c + 3) ∧
      mainLoop crc32 ready readings st = .ok (st', sent, []) ∧
      (∀ p ∈ st'.w.front, p ∈ w₁.front ∨ c + timer.toNat ≤ p.timestamp.toNat) ∧
      ((w₁.full = false ∧ st.sentEof = false ∧ st'.allocs = st.allocs + 1) ∨
        ((w₁.full = true ∨ st.sentEof = true) ∧ st'.allocs = st.allocs)) := by
  have htimer : timer.toNat = 4500000 := rfl
  obtain ⟨first, hfirst, hwait⟩ := exists_await hw hrun hsize ready c
  have hretr : ∀ readings, retransmitExpired crc32 (BitVec.ofNat 32 (c + 1)) readings w₁ =
      .ok (w₁, [], readings) := by
    refine retransmitExpired_of_late crc32 fun p hp hle => ?_
    rw [BitVec.le_def, BitVec.toNat_ofNat, Nat.mod_eq_of_lt (by omega)] at hle
    exact Nat.not_lt.2 hle (hlate p hp)
  have hbefore : ∀ n ≤ 1, ∀ now ∈ first ++ (c + 1) :: List.range' (c + 1 + 1) n 1, now < c + 3 := by
    intro n hn now hnow
    rw [List.mem_append, List.mem_cons, List.mem_range'_1] at hnow
    rcases hfirst with rfl | rfl
    · rcases hnow with hnow | hnow | hnow
      · cases hnow
      · omega
      · omega
    · rw [List.mem_singleton] at hnow
      omega
  by_cases hroom : w₁.full = false ∧ st.sentEof = false
  · obtain ⟨c', hadv, hc'⟩ :=
      advance_turn (n := 1) (t := c + 1) hfirst (Nat.lt_succ_self c) le_rfl (by omega)
    obtain ⟨p, -, hpt, hloop⟩ :=
      mainLoop_eq (hwait _) (hreceive _) (hretr [c + 1 + 1]) hroom.1 hroom.2
    refine ⟨_, c', _, _, hadv, by omega, hbefore 1 le_rfl, hloop, fun q hq => ?_,
      .inl ⟨hroom.1, hroom.2, rfl⟩⟩
    rcases List.mem_cons.1 hq with rfl | hq
    · right
      show c + _ ≤ p.getTimestamp.toNat
      rw [hpt, BitVec.toNat_add, BitVec.toNat_ofNat, Nat.mod_add_mod, Nat.mod_eq_of_lt (by omega)]
      omega
    · exact .inl hq
  · have hnoroom : w₁.full = true ∨ st.sentEof = true := by
      simpa [Decidable.or_iff_not_imp_left] using hroom
    obtain ⟨c', hadv, hc'⟩ :=
      advance_turn (n := 0) (t := c + 1) hfirst (Nat.lt_succ_self c) le_rfl (by omega)
    exact ⟨_, c', _, _, hadv, by omega, hbefore 0 (Nat.zero_le 1),
      mainLoop_eq_of_no_room (hwait _) (hreceive _) (hretr []) hnoroom, fun _ hq => .inl hq,
      .inr ⟨hnoroom, rfl⟩⟩

end Sender

end LosslessTransport
