import LosslessTransport.Sender.Robust

/-!
# When the retransmissions end

`retransmit_packets` has no counter.  It takes the packet with the smallest timestamp as long as
that is not after `loop_now`, and gives it the timestamp of a later reading.  If the new timestamps,
which are 32 bits wide, come after `loop_now`, every packet whose timer has expired is sent once
(`Sender.retransmitExpired_resent`, by induction on the readings: each turn takes one packet out of
`Sender.expired`).  A timestamp that wraps comes before `loop_now`, and then the packet is sent
again.
-/

namespace LosslessTransport

namespace Sender

/-- The packets whose timers have expired. -/
def expired (w : Window) (loopNow : BitVec 32) : List PktPtr :=
  w.front.filter fun p => p.timestamp ≤ loopNow

/-- What a packet is after these have been sent. -/
def resent (sent : List Sent) (p : PktPtr) : PktPtr :=
  ((sent.find? fun d => d.pkt.addr = p.addr).map Sent.pkt).getD p

/-- The packets whose timers had expired have been sent, once each, with the timestamps of these
readings, and are otherwise as before, as are the others; no timer is left that has expired. -/
structure Resent (crc32 : List Byte → BitVec 32) (loopNow : BitVec 32) (readings : List ℕ)
    (w w' : Window) (sent : List Sent) : Prop where
  once : (sent.map fun d => d.pkt.addr).Perm ((expired w loopNow).map PktPtr.addr)
  stamped : sent.map (fun d => d.pkt.timestamp) =
    readings.map fun now => BitVec.ofNat 32 now + timer
  made : ∀ d ∈ sent, d.bytes = (d.pkt.pkt.sealed crc32).image ∧ d.pkt ∈ w'.front ∧
    ∃ p ∈ w.front, d.pkt = p.setTimestamp d.pkt.timestamp
  kept : w' = { w with front := w.front.map (resent sent) }
  late : ∀ p ∈ w'.front, ¬ p.timestamp ≤ loopNow

/-- One call of `retransmit_packets` with this clock: it returns after as many readings as there are
packets whose timers have expired, and has sent these. -/
def Retransmits (crc32 : List Byte → BitVec 32) (w : Window) (clock : ℕ → ℕ) : Prop :=
  let loopNow := BitVec.ofNat 32 (clock 0)
  let turns := (expired w loopNow).length
  ∃ w' sent, retransmitPackets crc32 w ((List.range (turns + 1)).map clock) = .ok (w', sent, []) ∧
    Resent crc32 loopNow ((List.range turns).map fun k => clock (k + 1)) w w' sent

variable {crc32 : List Byte → BitVec 32} {input : List Chunk} {n : ℕ} {w w' : Window}
  {loopNow : BitVec 32} {readings : List ℕ} {p q : PktPtr} {st : State}

theorem mem_expired : p ∈ expired w loopNow ↔ p ∈ w.front ∧ p.timestamp ≤ loopNow := by
  rw [expired, List.mem_filter, decide_eq_true_iff]

theorem expired_eq_nil_iff :
    expired w loopNow = [] ↔ ∀ p ∈ w.front, ¬ p.timestamp ≤ loopNow := by
  simp [expired]

theorem setTimestamp_setTimestamp (p : PktPtr) (t t' : BitVec 32) :
    (p.setTimestamp t).setTimestamp t' = p.setTimestamp t' := rfl

theorem resent_nil (p : PktPtr) : resent [] p = p := rfl

theorem resent_cons_self {d : Sent} (sent : List Sent) (h : d.pkt.addr = p.addr) :
    resent (d :: sent) p = d.pkt := by
  simp [resent, h]

theorem resent_cons_of_ne {d : Sent} (sent : List Sent) (h : d.pkt.addr ≠ p.addr) :
    resent (d :: sent) p = resent sent p := by
  simp [resent, h]

/-- A packet that was not sent stays. -/
theorem resent_of_not_mem {sent : List Sent} (h : p.addr ∉ sent.map fun d => d.pkt.addr) :
    resent sent p = p := by
  have hnone : (sent.find? fun d => d.pkt.addr = p.addr) = none := by
    rw [List.find?_eq_none]
    intro d hd heq
    exact h (List.mem_map.2 ⟨d, hd, of_decide_eq_true heq⟩)
  rw [resent, hnone]
  rfl

/-- Once `p` has been given a later timestamp, it is no longer among the packets whose timers have
expired. -/
theorem expired_store (h : Buffered input n w) (hp : p ∈ expired w loopNow)
    (haddr : q.addr = p.addr) (hlate : ¬ q.timestamp ≤ loopNow) :
    expired (w.store q) loopNow = (expired w loopNow).erase p := by
  have hmem := (mem_expired.1 hp).1
  have hkeep : ∀ x ∈ w.front, x ≠ p → x.addr ≠ q.addr := by
    intro x hx hne heq
    exact hne (h.inj hx hmem (heq.trans haddr))
  rw [expired, expired, (h.nodup.filter _).erase_eq_filter, Window.store, List.filter_map,
    List.filter_filter]
  have hfilter : w.front.filter ((fun x : PktPtr => decide (x.timestamp ≤ loopNow)) ∘
      fun cur => if cur.addr = q.addr then q else cur) =
      w.front.filter fun x => (x != p) && decide (x.timestamp ≤ loopNow) := by
    refine List.filter_congr fun x hx => ?_
    by_cases hxp : x = p
    · simp [hxp, haddr, hlate]
    · simp [hxp, hkeep x hx hxp]
  rw [hfilter]
  refine (List.map_congr_left fun x hx => ?_).trans (List.map_id _)
  obtain ⟨hx, hcond⟩ := List.mem_filter.1 hx
  have hxp : x ≠ p := by
    rintro rfl
    simp at hcond
  exact if_neg (hkeep x hx hxp)

theorem length_expired_store (h : Buffered input n w) (hp : p ∈ expired w loopNow)
    (haddr : q.addr = p.addr) (hlate : ¬ q.timestamp ≤ loopNow) :
    (expired (w.store q) loopNow).length + 1 = (expired w loopNow).length := by
  rw [expired_store h hp haddr hlate, List.length_erase_of_mem hp]
  exact Nat.sub_add_cancel (List.length_pos_of_mem hp)

/-- The packet that one turn sends is not sent again. -/
theorem Resent.not_mem {sent : List Sent} (hlate : ¬ q.timestamp ≤ loopNow)
    (hsent : Resent crc32 loopNow readings (w.store q) w' sent) :
    q.addr ∉ sent.map fun d => d.pkt.addr := by
  intro hmem
  obtain ⟨x, hx, hxq⟩ := List.mem_map.1 (hsent.once.mem_iff.1 hmem)
  obtain ⟨hx, hxle⟩ := mem_expired.1 hx
  rcases Window.mem_store hx with rfl | ⟨-, hne⟩
  · exact hlate hxle
  · exact hne hxq

/-- **One turn**: packet `p` is sent as `q`, and the turns that follow send the others. -/
theorem Resent.turn (h : Buffered input n w) (hp : p ∈ expired w loopNow) {now : ℕ}
    (hq : q = p.setTimestamp (BitVec.ofNat 32 now + timer)) (hlate : ¬ q.timestamp ≤ loopNow)
    {sent : List Sent} (hsent : Resent crc32 loopNow readings (w.store q) w' sent) :
    Resent crc32 loopNow (now :: readings) w w' (⟨q, (q.pkt.sealed crc32).image⟩ :: sent) := by
  have hmem : p ∈ w.front := (mem_expired.1 hp).1
  have haddr : q.addr = p.addr := hq ▸ PktPtr.addr_setTimestamp p _
  have hqt : q.timestamp = BitVec.ofNat 32 now + timer := hq ▸ PktPtr.timestamp_setTimestamp p _
  have honce := hsent.not_mem hlate
  refine ⟨?_, ?_, ?_, ?_, hsent.late⟩
  · have hperm : ((expired w loopNow).map PktPtr.addr).Perm
        (q.addr :: (expired (w.store q) loopNow).map PktPtr.addr) := by
      rw [expired_store h hp haddr hlate, haddr]
      exact (List.perm_cons_erase hp).map PktPtr.addr
    rw [List.map_cons]
    exact (hsent.once.cons q.addr).trans hperm.symm
  · rw [List.map_cons, List.map_cons, hsent.stamped, hqt]
  · intro d hd
    rcases List.mem_cons.1 hd with rfl | hd
    · refine ⟨rfl, ?_, p, hmem, hqt.symm ▸ hq⟩
      rw [hsent.kept]
      exact List.mem_map.2 ⟨q, Window.mem_store_self hmem haddr, resent_of_not_mem honce⟩
    · obtain ⟨hbytes, hd', x, hx, hdx⟩ := hsent.made d hd
      refine ⟨hbytes, hd', ?_⟩
      rcases Window.mem_store hx with rfl | ⟨hx, -⟩
      · rw [hq, setTimestamp_setTimestamp] at hdx
        exact ⟨p, hmem, hdx⟩
      · exact ⟨x, hx, hdx⟩
  · rw [hsent.kept, Window.store, List.map_map]
    congr 1
    refine List.map_congr_left fun x _ => ?_
    rw [Function.comp_apply]
    split_ifs with hx
    · rw [resent_of_not_mem honce, resent_cons_self sent hx.symm]
    · exact (resent_cons_of_ne sent (Ne.symm hx)).symm

/-- Nothing is sent when no timer has expired. -/
theorem Resent.nil (hlate : ∀ p ∈ w.front, ¬ p.timestamp ≤ loopNow) :
    Resent crc32 loopNow [] w w [] := by
  refine ⟨?_, rfl, nofun, ?_, hlate⟩
  · rw [expired_eq_nil_iff.2 hlate]
    exact .refl _
  · rw [List.map_congr_left fun p _ => resent_nil p, List.map_id']

/-- **The loop of `retransmit_packets`**, when it comes back and none of its timestamps wraps. -/
theorem Resent.of_ok (h : Buffered input n w)
    (hlate : ∀ now ∈ readings, ¬ BitVec.ofNat 32 now + timer ≤ loopNow)
    {r : Window × List Sent × List ℕ} (hr : retransmitExpired crc32 loopNow readings w = .ok r) :
    ∃ used, readings = used ++ r.2.2 ∧ Resent crc32 loopNow used w r.1 r.2.1 := by
  refine retransmitExpired_induction
    (motive := fun readings w r => Buffered input n w →
      (∀ now ∈ readings, ¬ BitVec.ofNat 32 now + timer ≤ loopNow) →
      ∃ used, readings = used ++ r.2.2 ∧ Resent crc32 loopNow used w r.1 r.2.1)
    ?_ ?_ h.sendable hr h hlate
  · intro readings w hnone _ _
    exact ⟨[], rfl, .nil hnone⟩
  · intro now readings w p q r hp hle hq ih h hlate
    have hqlate : ¬ q.timestamp ≤ loopNow := by
      rw [hq, PktPtr.timestamp_setTimestamp]
      exact hlate now (List.mem_cons_self ..)
    have hstore := h.store hp (BitVec.ofNat 32 now + timer)
    rw [← hq] at hstore
    obtain ⟨used, hused, hsent⟩ :=
      ih hstore fun now hnow => hlate now (List.mem_cons_of_mem _ hnow)
    exact ⟨now :: used, congrArg (now :: ·) hused, hsent.turn h (mem_expired.2 ⟨hp, hle⟩) hq hqlate⟩

/-- It takes one reading for each packet whose timer has expired. -/
theorem Resent.length_eq {sent : List Sent} (hsent : Resent crc32 loopNow readings w w' sent) :
    readings.length = (expired w loopNow).length := by
  have honce := hsent.once.length_eq
  have hstamped := congrArg List.length hsent.stamped
  rw [List.length_map, List.length_map] at honce hstamped
  omega

variable (crc32) in
/-- It comes back when there is a reading for each packet whose timer has expired. -/
theorem exists_retransmitExpired (h : Buffered input n w)
    (hlen : (expired w loopNow).length ≤ readings.length)
    (hlate : ∀ now ∈ readings, ¬ BitVec.ofNat 32 now + timer ≤ loopNow) :
    ∃ r, retransmitExpired crc32 loopNow readings w = .ok r := by
  induction readings generalizing w with
  | nil =>
    have hnil : expired w loopNow = [] := List.length_eq_zero_iff.1 (Nat.le_zero.1 hlen)
    exact ⟨_, retransmitExpired_of_late crc32 (expired_eq_nil_iff.1 hnil) _⟩
  | cons now readings ih =>
    obtain hnone | ⟨p, hpeek, hle⟩ := Window.late_or_peekMinTimestamp_le w loopNow
    · exact ⟨_, retransmitExpired_of_late crc32 hnone _⟩
    have hmem : p ∈ w.front := Window.mem_of_peekMinTimestamp hpeek
    have hp : p ∈ expired w loopNow := mem_expired.2 ⟨hmem, hle⟩
    have hqlate : ¬ (p.setTimestamp (BitVec.ofNat 32 now + timer)).timestamp ≤ loopNow := by
      rw [PktPtr.timestamp_setTimestamp]
      exact hlate now (List.mem_cons_self ..)
    have hturn := length_expired_store h hp (PktPtr.addr_setTimestamp p _) hqlate
    rw [List.length_cons] at hlen
    obtain ⟨r, hr⟩ := ih (h.store hmem (BitVec.ofNat 32 now + timer)) (by omega)
      fun now hnow => hlate now (List.mem_cons_of_mem _ hnow)
    rw [retransmitExpired_cons h.sendable hpeek hle, hr]
    exact ⟨_, rfl⟩

/-- With exactly these readings nothing is left of them. -/
theorem retransmitExpired_resent (h : Buffered input n w)
    (hlen : (expired w loopNow).length = readings.length)
    (hlate : ∀ now ∈ readings, ¬ BitVec.ofNat 32 now + timer ≤ loopNow) :
    ∃ w' sent, retransmitExpired crc32 loopNow readings w = .ok (w', sent, []) ∧
      Resent crc32 loopNow readings w w' sent := by
  obtain ⟨⟨w', sent, rest⟩, hr⟩ := exists_retransmitExpired crc32 h hlen.le hlate
  obtain ⟨used, hused, hsent⟩ := Resent.of_ok h hlate hr
  change readings = used ++ rest at hused
  have hrest : rest = [] := by
    have hlength := congrArg List.length hused
    rw [List.length_append, hsent.length_eq] at hlength
    exact List.length_eq_zero_iff.1 (by omega)
  subst hrest
  rw [List.append_nil] at hused
  exact ⟨w', sent, hr, hused ▸ hsent⟩

variable (crc32) in
/-- A call of `retransmit_packets` reads the clock and enters the loop. -/
theorem retransmitPackets_range (w : Window) (clock : ℕ → ℕ) (turns : ℕ) :
    retransmitPackets crc32 w ((List.range (turns + 1)).map clock) =
      retransmitExpired crc32 (BitVec.ofNat 32 (clock 0))
        ((List.range turns).map fun k => clock (k + 1)) w := by
  rw [List.range_succ_eq_map, List.map_cons, List.map_map]
  rfl

/-- The 32-bit timestamp of reading `now` comes after `loop_now`. -/
theorem not_le_iff_wrapped (loopNow now : ℕ) :
    ¬ BitVec.ofNat 32 now + timer ≤ BitVec.ofNat 32 loopNow ↔
      loopNow % 2 ^ 32 < (now + timer.toNat) % 2 ^ 32 := by
  rw [BitVec.not_le, BitVec.lt_def, BitVec.toNat_add, BitVec.toNat_ofNat, BitVec.toNat_ofNat,
    Nat.mod_add_mod]

/-- **When the retransmissions end**: a call of `retransmit_packets`, wherever the sender calls it,
sends each packet whose timer has expired once and returns, exactly when none of the new timestamps
wraps to one that is not after `loop_now`. -/
theorem retransmits_iff (h : (lts crc32).Reachable (init input) st)
    {ready : Option (List Byte)} {readings rest : List ℕ}
    (hreceive : receive crc32 st.w ready readings = .ok (some (w, rest))) (clock : ℕ → ℕ) :
    Retransmits crc32 w clock ↔
      ∀ k < (expired w (BitVec.ofNat 32 (clock 0))).length,
        clock 0 % 2 ^ 32 < (clock (k + 1) + timer.toNat) % 2 ^ 32 := by
  have hinv := inv_of_reachable h
  have hbuf := (response_of_receive_some hinv.standard hreceive).buffered hinv.toBuffered
  constructor
  · rintro ⟨w', sent, -, hsent⟩ k hk
    rw [← not_le_iff_wrapped]
    -- the datagram of turn `k` carries this timestamp, and its packet is in the buffer
    have hmem : BitVec.ofNat 32 (clock (k + 1)) + timer ∈ sent.map fun d => d.pkt.timestamp := by
      rw [hsent.stamped, List.map_map]
      exact List.mem_map.2 ⟨k, List.mem_range.2 hk, rfl⟩
    obtain ⟨d, hd, hdt⟩ := List.mem_map.1 hmem
    rw [← hdt]
    exact hsent.late d.pkt (hsent.made d hd).2.1
  · intro hwrap
    set turns := (expired w (BitVec.ofNat 32 (clock 0))).length
    have hlen : turns = ((List.range turns).map fun k => clock (k + 1)).length := by
      rw [List.length_map, List.length_range]
    have hlate : ∀ now ∈ (List.range turns).map fun k => clock (k + 1),
        ¬ BitVec.ofNat 32 now + timer ≤ BitVec.ofNat 32 (clock 0) := by
      intro now hnow
      obtain ⟨k, hk, rfl⟩ := List.mem_map.1 hnow
      exact (not_le_iff_wrapped _ _).2 (hwrap k (List.mem_range.1 hk))
    obtain ⟨w', sent, hloop, hsent⟩ := retransmitExpired_resent hbuf hlen hlate
    exact ⟨w', sent, (retransmitPackets_range crc32 w clock _).trans hloop, hsent⟩

/-- The NACK for the empty packet makes its timer expire: it is sent again, once. -/
theorem retransmits_sentEmpty :
    ∃ w, receive Crc32.crc32 sentEmpty.w (some nackEmpty) [3] = .ok (some (w, [])) ∧
      (expired w (BitVec.ofNat 32 4)).length = 1 ∧
      Retransmits Crc32.crc32 w fun k => 4 + k := by
  have hrun : (receive Crc32.crc32 sentEmpty.w (some nackEmpty) [3]).toOption.map (fun o =>
      o.map fun r => (r.2, (expired r.1 (BitVec.ofNat 32 4)).length)) = some (some ([], 1)) := by
    decide +kernel
  obtain ⟨o, ho, hmap⟩ := Option.map_eq_some_iff.1 hrun
  obtain ⟨⟨w, rest⟩, rfl, hpair⟩ := Option.map_eq_some_iff.1 hmap
  obtain ⟨rfl, hlen⟩ := Prod.mk.inj hpair
  have hreceive := ok_of_toOption ho
  refine ⟨w, hreceive, hlen, (retransmits_iff reachable_sentEmpty hreceive _).2 fun k hk => ?_⟩
  obtain rfl : k = 0 := Nat.lt_one_iff.1 (hlen ▸ hk)
  decide

/-- With the largest `loop_now` the loop does not come to an end. -/
theorem retransmitExpired_ne_ok (h : Buffered input n w) (hne : w.front ≠ [])
    (r : Window × List Sent × List ℕ) :
    retransmitExpired crc32 (BitVec.ofNat 32 (2 ^ 32 - 1)) readings w ≠ .ok r := by
  intro hr
  have hlate : ∀ p ∈ r.1.front, ¬ p.timestamp ≤ BitVec.ofNat 32 (2 ^ 32 - 1) :=
    retransmitExpired_induction (motive := fun _ _ r =>
      ∀ p ∈ r.1.front, ¬ p.timestamp ≤ BitVec.ofNat 32 (2 ^ 32 - 1))
      (fun _ _ hlate => hlate) (fun _ _ _ _ _ _ _ _ _ ih => ih) h.sendable hr
  obtain ⟨p, hp⟩ : ∃ p, p ∈ r.1.front := by
    refine List.exists_mem_of_ne_nil _ fun hnil => hne ?_
    have haddrs := (retransmitExpired_spec h hr).2.1
    rwa [addrs, addrs, hnil, List.map_nil, eq_comm, List.map_eq_nil_iff] at haddrs
  have := p.timestamp.isLt
  refine hlate p hp ?_
  rw [BitVec.le_def, BitVec.toNat_ofNat]
  omega

theorem front_sentEmpty_ne_nil : sentEmpty.w.front ≠ [] := by
  decide +kernel

/-- In the last microsecond before the clock wraps the empty packet is sent for ever. -/
theorem retransmits_forever :
    ∃ st, ∃ clock : ℕ → ℕ, (lts Crc32.crc32).Reachable (init []) st ∧ StrictMono clock ∧
      (∀ turns r, retransmitPackets Crc32.crc32 st.w ((List.range turns).map clock) ≠ .ok r) ∧
      ¬ Retransmits Crc32.crc32 st.w clock := by
  have hbuf := (inv_of_reachable reachable_sentEmpty).toBuffered
  have hforever : ∀ turns r, retransmitPackets Crc32.crc32 sentEmpty.w
      ((List.range turns).map fun k => 2 ^ 32 - 1 + k) ≠ .ok r := by
    intro turns r hr
    cases turns with
    | zero => cases hr
    | succ turns =>
      rw [retransmitPackets_range] at hr
      exact retransmitExpired_ne_ok hbuf front_sentEmpty_ne_nil r hr
  refine ⟨sentEmpty, fun k => 2 ^ 32 - 1 + k, reachable_sentEmpty, ?_, hforever, ?_⟩
  · intro i j hij
    exact Nat.add_lt_add_left hij _
  · rintro ⟨w', sent, hok, -⟩
    exact hforever _ _ hok

end Sender

end LosslessTransport
