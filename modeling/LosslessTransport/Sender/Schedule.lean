import LosslessTransport.Sender.Deadlines
import LosslessTransport.Sender.Expiry

/-!
# When a packet is sent again

As long as the clock, with `TIMER` added, fits 32 bits, the deadlines are compared as they are meant
to.  Then an iteration of the sender sends a packet of the buffer again exactly when it was last
sent `TIMER` ago or longer, or a NACK has just named it, the one that was sent earliest first; and
after the iteration every packet of the buffer was last sent less than `TIMER` before `loop_now`
(`Timed.sent_on_schedule`).  A DATA packet ends the iteration before all that.
-/

namespace LosslessTransport

namespace Sender

variable {crc32 : List Byte → BitVec 32} {input : List Chunk} {n c c' i loopNow : ℕ}
  {w w' : Window} {stamps : ℕ → Stamp} {readings used : List ℕ} {sent : List Sent} {p q : PktPtr}
  {st st' : State}

/-! ### The order -/

/-- **The earliest deadline comes first**, for any `key` that grows with the deadlines of the
packets whose timers have expired. -/
theorem retransmitExpired_sorted (h : Buffered input n w) {loopNow : BitVec 32}
    (hlate : ∀ now ∈ readings, ¬ BitVec.ofNat 32 now + timer ≤ loopNow)
    {r : Window × List Sent × List ℕ} (hr : retransmitExpired crc32 loopNow readings w = .ok r)
    (key : ℕ → ℕ) (hkey : ∀ p ∈ expired w loopNow, ∀ q ∈ expired w loopNow,
      p.timestamp.toNat ≤ q.timestamp.toNat → key p.addr ≤ key q.addr) :
    r.2.1.Pairwise fun d e => key d.pkt.addr ≤ key e.pkt.addr := by
  induction readings generalizing w r with
  | nil =>
    obtain hnone | ⟨p, hpeek, hle⟩ := Window.late_or_peekMinTimestamp_le w loopNow
    · rw [retransmitExpired_of_late crc32 hnone] at hr
      cases hr
      exact .nil
    · rw [retransmitExpired_nil crc32 hpeek hle] at hr
      cases hr
  | cons now readings ih =>
    obtain hnone | ⟨p, hpeek, hle⟩ := Window.late_or_peekMinTimestamp_le w loopNow
    · rw [retransmitExpired_of_late crc32 hnone] at hr
      cases hr
      exact .nil
    have hmem : p ∈ w.front := Window.mem_of_peekMinTimestamp hpeek
    have hp : p ∈ expired w loopNow := mem_expired.2 ⟨hmem, hle⟩
    have hmin := (Window.isFirstMin_of_peekMinTimestamp hpeek).le
    rw [retransmitExpired_cons h.sendable hpeek hle] at hr
    obtain ⟨r', hr', rfl⟩ := map_eq_ok.1 hr
    have hlate' : ∀ now ∈ readings, ¬ BitVec.ofNat 32 now + timer ≤ loopNow :=
      fun now hnow => hlate now (List.mem_cons_of_mem _ hnow)
    have hstore := h.store hmem (BitVec.ofNat 32 now + timer)
    have hqlate : ¬ (p.setTimestamp (BitVec.ofNat 32 now + timer)).timestamp ≤ loopNow := by
      rw [PktPtr.timestamp_setTimestamp]
      exact hlate now (List.mem_cons_self ..)
    -- the packets that are left are those whose timers had expired
    have hrest : ∀ x ∈ expired (w.store (p.setTimestamp (BitVec.ofNat 32 now + timer))) loopNow,
        x ∈ expired w loopNow := by
      rw [expired_store h hp (PktPtr.addr_setTimestamp p _) hqlate]
      exact fun x hx => List.mem_of_mem_erase hx
    obtain ⟨_, -, hsent⟩ := Resent.of_ok hstore hlate' hr'
    refine List.pairwise_cons.2 ⟨fun d hd => ?_,
      ih hstore hlate' hr' fun x hx y hy => hkey x (hrest x hx) y (hrest y hy)⟩
    obtain ⟨x, hx, hxd⟩ := List.mem_map.1 (hsent.once.mem_iff.1 (List.mem_map_of_mem hd))
    have hx := hrest x hx
    show key (p.setTimestamp _).addr ≤ key d.pkt.addr
    rw [← hxd, PktPtr.addr_setTimestamp]
    exact hkey p hp x hx (hmin x (mem_expired.1 hx).1)

/-! ### One iteration -/

/-- What `retransmit_packets` makes of the stamp of packet `i`. -/
structure Served (loopNow : ℕ) (stamps stamps' : ℕ → Stamp) (sent : List Sent) (i : ℕ) : Prop where
  moment_lt : (stamps i).moment < loopNow
  resent_iff : i ∈ sent.map (fun d => d.pkt.addr) ↔ (stamps i).deadline ≤ loopNow
  stamped : i ∈ sent.map (fun d => d.pkt.addr) →
    ∃ now, loopNow < now ∧ stamps' i = ⟨now, now + timer.toNat⟩
  kept : i ∉ sent.map (fun d => d.pkt.addr) → stamps' i = stamps i

theorem stampSent_of_not_mem (h : i ∉ sent.map fun d => d.pkt.addr) :
    stampSent sent used stamps i = stamps i := by
  induction sent generalizing used stamps with
  | nil => rw [stampSent_nil]
  | cons d sent ih =>
    rw [List.map_cons, List.mem_cons, not_or] at h
    cases used with
    | nil => rfl
    | cons now used => rw [stampSent, ih h.2, Function.update_of_ne h.1]

theorem exists_stampSent (hlen : used.length = sent.length)
    (h : i ∈ sent.map fun d => d.pkt.addr) :
    ∃ now ∈ used, stampSent sent used stamps i = ⟨now, now + timer.toNat⟩ := by
  induction sent generalizing used stamps with
  | nil => cases h
  | cons d sent ih =>
    cases used with
    | nil => cases hlen
    | cons now used =>
      rw [stampSent]
      by_cases hi : i ∈ sent.map fun d => d.pkt.addr
      · obtain ⟨now', hnow', heq⟩ := ih (Nat.succ.inj hlen) hi
        exact ⟨now', List.mem_cons_of_mem now hnow', heq⟩
      · obtain rfl := (List.mem_cons.1 h).resolve_right hi
        exact ⟨now, List.mem_cons_self .., by rw [stampSent_of_not_mem hi, Function.update_self]⟩

theorem mem_of_elapse (h : elapse c readings = some c') :
    ∀ now ∈ readings, c ≤ now ∧ now < c' := by
  induction readings generalizing c with
  | nil => exact nofun
  | cons now readings ih =>
    obtain ⟨hle, h⟩ := elapse_cons h
    intro x hx
    rcases List.mem_cons.1 hx with rfl | hx
    · exact ⟨hle, le_of_elapse h⟩
    · have := ih h x hx
      omega

/-- No timestamp that is given wraps. -/
theorem late_of_elapse (h : elapse (loopNow + 1) readings = some c')
    (hfits : c' + timer.toNat ≤ 2 ^ 32) :
    ∀ now ∈ readings, ¬ BitVec.ofNat 32 now + timer ≤ BitVec.ofNat 32 loopNow := by
  intro now hnow
  have hmem := mem_of_elapse h now hnow
  rw [not_le_iff_wrapped, Nat.mod_eq_of_lt (by omega), Nat.mod_eq_of_lt (by omega)]
  omega

theorem Buffered.nodup_expired (h : Buffered input n w) (t : BitVec 32) :
    ((expired w t).map PktPtr.addr).Nodup := by
  have hnodup : (addrs w).Nodup := h.sorted.imp fun hlt => Nat.ne_of_gt hlt
  exact hnodup.sublist (List.filter_sublist.map _)

/-- **The retransmissions**, when no timestamp wraps. -/
theorem retransmitExpired_served (hbuf : Buffered input n w) (h : AllOnTime c stamps w)
    (hc : c ≤ loopNow) (helapse : elapse (loopNow + 1) readings = some c')
    (hfits : c' + timer.toNat ≤ 2 ^ 32) {r : Window × List Sent × List ℕ}
    (hr : retransmitExpired crc32 (BitVec.ofNat 32 loopNow) readings w = .ok r)
    (hused : readings = used ++ r.2.2) (hlen : used.length = r.2.1.length) :
    (r.2.1.map fun d => d.pkt.addr).Nodup ∧
      (r.2.1.Pairwise fun d e => (stamps d.pkt.addr).deadline ≤ (stamps e.pkt.addr).deadline) ∧
      ∀ i ∈ addrs w, Served loopNow stamps (stampSent r.2.1 used stamps) r.2.1 i := by
  have hlate := late_of_elapse helapse hfits
  have hloop := le_of_elapse helapse
  have hts : ∀ p ∈ w.front, p.timestamp.toNat = (stamps p.addr).deadline := by
    intro p hp
    have := (h p hp).deadline_le
    have := (h p hp).moment_lt
    rw [(h p hp).toNat_timestamp, Nat.mod_eq_of_lt (by omega)]
  obtain ⟨_, -, hsent⟩ := Resent.of_ok hbuf hlate hr
  refine ⟨hsent.once.nodup_iff.2 (hbuf.nodup_expired _),
    retransmitExpired_sorted hbuf hlate hr (fun i => (stamps i).deadline) fun p hp q hq hle => ?_,
    fun i hi => ?_⟩
  · rwa [hts p (mem_expired.1 hp).1, hts q (mem_expired.1 hq).1] at hle
  obtain ⟨p, hp, rfl⟩ := List.mem_map.1 hi
  have hmoment := (h p hp).moment_lt
  refine ⟨by omega, ?_, fun hmem => ?_, stampSent_of_not_mem⟩
  · have hle : p.timestamp ≤ BitVec.ofNat 32 loopNow ↔ (stamps p.addr).deadline ≤ loopNow := by
      rw [BitVec.le_def, hts p hp, BitVec.toNat_ofNat, Nat.mod_eq_of_lt (by omega)]
    rw [hsent.once.mem_iff, ← hle, List.mem_map]
    constructor
    · rintro ⟨x, hx, hxp⟩
      obtain ⟨hx, hxle⟩ := mem_expired.1 hx
      exact hbuf.inj hx hp hxp ▸ hxle
    · exact fun hple => ⟨p, mem_expired.2 ⟨hp, hple⟩, rfl⟩
  · obtain ⟨now, hnow, heq⟩ := exists_stampSent hlen hmem
    have := mem_of_elapse helapse now (hused ▸ List.mem_append_left _ hnow)
    exact ⟨now, by omega, heq⟩

/-- A new packet leaves the others served. -/
theorem Served.added {stamps' : ℕ → Stamp} {new : Sent} {stamp : Stamp}
    (h : Served loopNow stamps stamps' sent i) (hne : i ≠ new.pkt.addr) :
    Served loopNow stamps (Function.update stamps' new.pkt.addr stamp) (sent ++ [new]) i := by
  have hmem : i ∈ (sent ++ [new]).map (fun d => d.pkt.addr) ↔
      i ∈ sent.map fun d => d.pkt.addr := by
    rw [List.map_append, List.mem_append, List.map_singleton, List.mem_singleton]
    exact or_iff_left hne
  refine ⟨h.moment_lt, hmem.trans h.resent_iff, fun hi => ?_, fun hi => ?_⟩
  · rw [Function.update_of_ne hne]
    exact h.stamped (hmem.1 hi)
  · rw [Function.update_of_ne hne]
    exact h.kept fun hi' => hi (hmem.2 hi')

/-- No DATA packet is received. -/
def NotData (crc32 : List Byte → BitVec 32) (ready : Option (List Byte)) : Prop :=
  ∀ d p, ready = some d → received crc32 d = some p → p.getType ≠ ptypeData

theorem NotData.receive_ne_none {ready : Option (List Byte)} (h : NotData crc32 ready)
    (hw : w.Standard) (readings : List ℕ) : receive crc32 w ready readings ≠ .ok none := by
  intro hreceive
  cases ready with
  | none => cases hreceive
  | some d =>
    obtain ⟨-, hr⟩ | ⟨p, hp, htype, -⟩ | ⟨_, -, -, hr⟩ | ⟨_, -, -, -, _, _, -, hr⟩ :=
      handleResponse_cases hw hreceive
    · cases hr
    · exact h d p rfl hp htype
    · cases hr
    · cases hr

/-- A reply leaves in the buffer only packets that were there. -/
theorem Response.addrs_subset {ready : Option (List Byte)} {readings' : List ℕ}
    (h : Response crc32 w ready readings w' readings') : addrs w' ⊆ addrs w := by
  cases h with
  | ignored | nacked => exact List.Subset.refl _
  | acked => exact List.map_subset _ (sublist_acked ..).subset
  | restamped =>
    show addrs (w.store _) ⊆ addrs w
    rw [addrs_store]
    exact List.Subset.refl _

/-- Of two packets that are sent again the one with the earlier deadline is sent first. -/
def InTurn (st : State) (stamps : ℕ → Stamp) (d e : Sent) : Prop :=
  e.pkt.addr < st.allocs → d.pkt.addr ∈ addrs st.w ∧ e.pkt.addr ∈ addrs st.w ∧
    (stamps d.pkt.addr).deadline ≤ (stamps e.pkt.addr).deadline

/-- **An iteration**, unless it ends with a DATA packet: the packets of the buffer that are not new
are served, in turn, and a new one has been sent. -/
theorem mainLoop_served (hinv : Inv input st) {ready : Option (List Byte)} {readings₀ : List ℕ}
    (h : AllOnTime c stamps st.w) (helapse : elapse c readings = some c')
    (hfits : c' + timer.toNat ≤ 2 ^ 32) (hwait : await ready readings st = .ok readings₀)
    (hloop : mainLoop crc32 ready readings st = .ok (st', sent, []))
    (hdata : receive crc32 st.w ready readings₀ ≠ .ok none) :
    ∃ loopNow used, loopNow :: used <:+ readings₀ ∧ used.length = sent.length ∧
      (sent.map fun d => d.pkt.addr).Nodup ∧
      sent.Pairwise (InTurn st (stampNacked (nacked crc32 st.w ready) readings₀ stamps)) ∧
      ∀ p ∈ st'.w.front,
      (p.addr ∈ addrs st.w ∧ Served loopNow (stampNacked (nacked crc32 st.w ready) readings₀ stamps)
        (stampSent sent (readings₀.drop (readings₀.length - sent.length))
          (stampNacked (nacked crc32 st.w ready) readings₀ stamps)) sent p.addr) ∨
      (p.addr = st.allocs ∧ ∃ now, loopNow < now ∧
        stampSent sent (readings₀.drop (readings₀.length - sent.length))
          (stampNacked (nacked crc32 st.w ready) readings₀ stamps) p.addr =
            ⟨now, now + timer.toNat⟩) := by
  obtain ⟨c₀, hc₀, helapse₀⟩ := elapse_await helapse hwait
  obtain ⟨hreceive, -⟩ | ⟨w₁, loopNow, readings₁, w₂, sent₂, readings₂, hreceive, hretr, hnew⟩ :=
    mainLoop_cases_of_await hwait hloop
  · exact absurd hreceive hdata
  obtain ⟨hnone, -⟩ | ⟨w₁', readings', c₁, heq, hsuffix, -, helapse₁, h₁⟩ :=
    receive_onTime hinv.standard (h.mono hc₀) helapse₀ hreceive
  · cases hnone
  cases heq
  have hresp := response_of_receive_some hinv.standard hreceive
  have hbuf₁ := hresp.buffered hinv.toBuffered
  obtain ⟨hle, helapse₁⟩ := elapse_cons helapse₁
  obtain ⟨used, c₂, hused, hlen, -, helapse₂, -⟩ :=
    retransmitExpired_onTime hbuf₁ (h₁.mono (Nat.le_succ_of_le hle)) helapse₁ hretr
  obtain ⟨hnodup, hsorted, hserved⟩ :=
    retransmitExpired_served hbuf₁ h₁ hle helapse₁ hfits hretr hused hlen
  obtain ⟨-, haddrs₂, -, -, hsent₂⟩ := retransmitExpired_spec hbuf₁ hretr
  change readings₁ = used ++ readings₂ at hused
  subst hused
  have hturn : sent₂.Pairwise
      (InTurn st (stampNacked (nacked crc32 st.w ready) readings₀ stamps)) :=
    hsorted.imp_of_mem fun {d e} hd he hle _ =>
      ⟨hresp.addrs_subset (hsent₂ d hd).2, hresp.addrs_subset (hsent₂ e he).2, hle⟩
  have hold : ∀ p ∈ w₂.front, p.addr ∈ addrs w₁ := fun p hp => haddrs₂ ▸ List.mem_map_of_mem hp
  refine ⟨loopNow, used ++ readings₂, hsuffix, ?_⟩
  have hdrop := List.suffix_iff_eq_drop.1 ((List.suffix_cons _ _).trans hsuffix)
  obtain ⟨hfull, -, new, hsend, rfl⟩ | ⟨-, rfl, rfl, rfl⟩ := hnew
  · obtain ⟨now, p, rfl, -, -, rfl, rfl⟩ := sendNew_spec hfull hsend
    have hnow := (elapse_cons helapse₂).1
    have hlast := mem_of_elapse helapse₁ now (List.mem_append_right _ (List.mem_singleton_self _))
    refine ⟨by rw [List.length_append, List.length_append, hlen]; rfl, ?_⟩
    rw [List.length_append, List.length_singleton] at hdrop
    rw [List.length_append, List.length_singleton, ← hlen, ← hdrop, stampSent_append hlen]
    have hfresh : ∀ i ∈ addrs w₁, i ≠ st.allocs := fun i hi heq => by
      obtain ⟨q, hq, rfl⟩ := List.mem_map.1 hi
      exact Nat.lt_irrefl _ (heq ▸ hbuf₁.addr_lt q hq)
    refine ⟨?_, ?_, fun q hq => ?_⟩
    · rw [List.map_append, List.nodup_append]
      refine ⟨hnodup, List.nodup_singleton _, ?_⟩
      rintro i hi j hj rfl
      obtain ⟨d, hd, rfl⟩ := List.mem_map.1 hi
      exact hfresh _ (hsent₂ d hd).2 (List.mem_singleton.1 hj)
    · -- the new packet is the last one
      refine List.pairwise_append.2 ⟨hturn, List.pairwise_singleton _ _, ?_⟩
      rintro d - e he hlt
      rw [List.mem_singleton.1 he] at hlt
      exact absurd hlt (Nat.lt_irrefl _)
    · rcases List.mem_cons.1 hq with rfl | hq
      · exact .inr ⟨rfl, now, by omega, Function.update_self ..⟩
      · have hmem := hold q hq
        exact .inl ⟨hresp.addrs_subset hmem, (hserved _ hmem).added (hfresh _ hmem)⟩
  · rw [List.append_nil] at hdrop
    refine ⟨by rw [List.append_nil]; exact hlen, ?_⟩
    rw [← hlen, ← hdrop]
    exact ⟨hnodup, hturn, fun q hq => .inl ⟨hresp.addrs_subset (hold q hq), hserved _ (hold q hq)⟩⟩

theorem stampNacked_of_ne {named : Option PktPtr} (h : ∀ q ∈ named, q.addr ≠ i) :
    stampNacked named readings stamps i = stamps i := by
  unfold stampNacked
  split
  · rename_i q _ _
    exact Function.update_of_ne (h q rfl).symm ..
  · rfl

/-- The deadline of a packet that a NACK names is the reading of `handle_nack`. -/
theorem deadline_stampNacked {now : ℕ} (hq : q.addr = i) (hnow : now ∈ readings) :
    (stampNacked (some q) readings stamps i).deadline =
      (stampNacked (some q) readings stamps i).moment := by
  cases readings with
  | nil => cases hnow
  | cons first readings => rw [stampNacked, hq, Function.update_self]

namespace Timed

/-- The packet was last sent `TIMER` ago or longer, or a NACK has named it. -/
def Due (s : Timed) (named : Option PktPtr) (loopNow i : ℕ) : Prop :=
  (s.stamps i).moment + timer.toNat ≤ loopNow ∨ ∃ q ∈ named, q.addr = i

/-- What an iteration from `s` to `s'` that sends `sent` makes of the packets that are in the buffer
afterwards. -/
structure Scheduled (s s' : Timed) (named : Option PktPtr) (loopNow : ℕ) (sent : List Sent) :
    Prop where
  once : (sent.map fun d => d.pkt.addr).Nodup
  /-- Of two packets that are sent again because they were last sent `TIMER` ago, the one that was
  sent earlier comes first. -/
  inTurn : sent.Pairwise fun d e => e.pkt.addr < s.sender.allocs →
    (∀ q ∈ named, q.addr ≠ d.pkt.addr ∧ q.addr ≠ e.pkt.addr) →
    (s.stamps d.pkt.addr).moment ≤ (s.stamps e.pkt.addr).moment
  /-- Packets that are not new are sent again when they are due. -/
  resent_iff : ∀ p ∈ s'.sender.w.front, p.addr < s.sender.allocs →
    (p.addr ∈ sent.map (fun d => d.pkt.addr) ↔ Due s named loopNow p.addr)
  kept : ∀ p ∈ s'.sender.w.front, p.addr < s.sender.allocs →
    p.addr ∉ sent.map (fun d => d.pkt.addr) → s'.stamps p.addr = s.stamps p.addr
  /-- Each was last sent less than `TIMER` ago. -/
  fresh : ∀ p ∈ s'.sender.w.front, loopNow < (s'.stamps p.addr).moment + timer.toNat

/-- The packets of the buffer have the deadlines that they were sent with. -/
def Full (s : Timed) : Prop :=
  ∀ p ∈ s.sender.w.front, s.deadline p = (s.stamps p.addr).moment + timer.toNat

variable {s s' : Timed} {l : Option (List Byte) × List ℕ}

theorem Full.deadline_eq (h : Full s) (hi : i ∈ addrs s.sender.w) :
    (s.stamps i).deadline = (s.stamps i).moment + timer.toNat := by
  obtain ⟨p, hp, rfl⟩ := List.mem_map.1 hi
  exact h p hp

/-- What the loop has served has the deadline that it was last sent with. -/
theorem Full.of_served (h : Full s) (hp : p.addr ∈ addrs s.sender.w)
    {named : Option PktPtr} {stamps' : ℕ → Stamp} (hnow : loopNow ∈ readings)
    (hserved : Served loopNow (stampNacked named readings s.stamps) stamps' sent p.addr) :
    (p.addr ∈ sent.map (fun d => d.pkt.addr) ↔ Due s named loopNow p.addr) ∧
      (p.addr ∉ sent.map (fun d => d.pkt.addr) → stamps' p.addr = s.stamps p.addr) ∧
      loopNow < (stamps' p.addr).moment + timer.toNat ∧
      (stamps' p.addr).deadline = (stamps' p.addr).moment + timer.toNat := by
  have hfull := h.deadline_eq hp
  have hmoment := hserved.moment_lt
  have hresent := hserved.resent_iff
  by_cases hnamed : ∃ q ∈ named, q.addr = p.addr
  · obtain ⟨q, rfl, hq⟩ := hnamed
    rw [deadline_stampNacked hq hnow] at hresent
    have hmem := hresent.2 hmoment.le
    obtain ⟨now, hlt, hstamp⟩ := hserved.stamped hmem
    rw [hstamp]
    exact ⟨iff_of_true hmem (.inr ⟨q, rfl, hq⟩), fun hnot => absurd hmem hnot, by
      show loopNow < now + _
      omega, rfl⟩
  · have hsame : stampNacked named readings s.stamps p.addr = s.stamps p.addr :=
      stampNacked_of_ne fun q hq heq => hnamed ⟨q, hq, heq⟩
    rw [hsame, hfull] at hresent
    have hkept := hserved.kept
    rw [hsame] at hkept
    refine ⟨hresent.trans (or_iff_left hnamed).symm, hkept, ?_⟩
    by_cases hmem : p.addr ∈ sent.map fun d => d.pkt.addr
    · obtain ⟨now, hlt, hstamp⟩ := hserved.stamped hmem
      rw [hstamp]
      exact ⟨by show loopNow < now + _; omega, rfl⟩
    · rw [hkept hmem, hfull]
      have := hresent.not.1 hmem
      exact ⟨by omega, rfl⟩

/-- **An iteration**, unless it ends with a DATA packet. -/
theorem Inv.scheduled (hinv : Inv input s) (hfull : Full s) (hstep : (lts crc32).step s l s')
    (hfits : s'.clock + timer.toNat ≤ 2 ^ 32)
    (hloop : mainLoop crc32 l.1 l.2 s.sender = .ok (s'.sender, sent, []))
    (hdata : NotData crc32 l.1) :
    Full s' ∧ ∃ loopNow used, loopNow :: used <:+ l.2 ∧ used.length = sent.length ∧
      Scheduled s s' (nacked crc32 s.sender.w l.1) loopNow sent := by
  obtain ⟨readings, sent', hwait, hloop', helapse, hstamps⟩ := hstep
  obtain rfl : sent' = sent := by
    rw [hloop] at hloop'
    cases hloop'
    rfl
  obtain ⟨loopNow, used, hsuffix, hlen, hnodup, hturn, hserved⟩ :=
    mainLoop_served hinv.sender hinv.onTime helapse hfits hwait hloop
      (hdata.receive_ne_none hinv.sender.standard readings)
  have hnow : loopNow ∈ readings := hsuffix.subset (List.mem_cons_self ..)
  rw [← hstamps] at hserved
  have hold : ∀ p ∈ s'.sender.w.front, p.addr < s.sender.allocs → _ := fun p hp hlt =>
    (hserved p hp).resolve_right fun hnew => Nat.ne_of_lt hlt hnew.1
  have hfresh : ∀ p ∈ s'.sender.w.front, loopNow < (s'.stamps p.addr).moment + timer.toNat ∧
      s'.deadline p = (s'.stamps p.addr).moment + timer.toNat := by
    intro p hp
    obtain ⟨hmem, hp⟩ | ⟨-, now, hlt, hstamp⟩ := hserved p hp
    · exact (hfull.of_served hmem hnow hp).2.2
    · rw [deadline, hstamp]
      exact ⟨by show loopNow < now + _; omega, rfl⟩
  refine ⟨fun p hp => (hfresh p hp).2, loopNow, used, ?_, hlen, hnodup,
    hturn.imp fun {d e} h hlt hnamed => ?_, fun p hp hlt => ?_, fun p hp hlt => ?_,
    fun p hp => (hfresh p hp).1⟩
  · rcases await_cases hwait with heq | ⟨now, heq⟩
    · exact heq ▸ hsuffix
    · exact heq ▸ hsuffix.trans (List.suffix_cons now _)
  · obtain ⟨hd, he, hle⟩ := h hlt
    rw [stampNacked_of_ne fun q hq => (hnamed q hq).1,
      stampNacked_of_ne fun q hq => (hnamed q hq).2, hfull.deadline_eq hd,
      hfull.deadline_eq he] at hle
    omega
  · obtain ⟨hmem, hp⟩ := hold p hp hlt
    exact (hfull.of_served hmem hnow hp).1
  · obtain ⟨hmem, hp⟩ := hold p hp hlt
    exact (hfull.of_served hmem hnow hp).2.1

/-- A DATA packet ends the iteration. -/
theorem Full.of_data (h : Full s) (hstep : (lts crc32).step s l s')
    {d : List Byte} {p : Pkt} (hd : l.1 = some d) (hp : received crc32 d = some p)
    (htype : p.getType = ptypeData) : Full s' := by
  obtain ⟨readings, sent, hwait, hloop, -, hstamps⟩ := hstep
  have hnone : receive crc32 s.sender.w l.1 readings = .ok none := by
    rw [hd]
    exact handleResponse_of_data hp htype
  obtain ⟨-, hsame, rfl, -⟩ | ⟨_, _, _, _, _, _, hreceive, -⟩ := mainLoop_cases_of_await hwait hloop
  · have hnamed : nacked crc32 s.sender.w l.1 = none := by
      rw [hd, nacked_of_received hp, if_pos (.inl htype)]
    rw [stampSent_nil, hnamed] at hstamps
    intro q hq
    rw [hsame] at hq
    rw [deadline, hstamps]
    exact h q hq
  · rw [hnone] at hreceive
    cases hreceive

/-- The deadlines are full in every run in which they do not wrap. -/
theorem full_of_reachable (h : (lts crc32).Reachable (init input) s)
    (hfits : s.clock + timer.toNat ≤ 2 ^ 32) : Full s := by
  refine (h.invariant (I := fun s => Inv input s ∧ (s.clock + timer.toNat ≤ 2 ^ 32 → Full s))
    ⟨.init input, fun _ => nofun⟩ ?_).2 hfits
  rintro s l s' ⟨hinv, hfull⟩ hstep
  refine ⟨hinv.step hstep, fun hfits => ?_⟩
  obtain ⟨-, sent, -, hloop, helapse, -⟩ := id hstep
  have hle := le_of_elapse helapse
  by_cases hdata : NotData crc32 l.1
  · exact (hinv.scheduled (hfull (by omega)) hstep hfits hloop hdata).1
  · unfold NotData at hdata
    push Not at hdata
    obtain ⟨d, p, hd, hp, htype⟩ := hdata
    exact (hfull (by omega)).of_data hstep hd hp htype

/-- **When a packet is sent again**: in every run whose clock fits, an iteration (unless it ends
with a DATA packet) sends the packets that were last sent `TIMER` ago or longer, and one that a NACK
has just named, once each, and no other that was there before; so each packet of the buffer was last
sent less than `TIMER` before `loop_now`, the reading before those of the datagrams. -/
theorem sent_on_schedule (h : (lts crc32).Reachable (init input) s)
    (hstep : (lts crc32).step s l s') (hfits : s'.clock + timer.toNat ≤ 2 ^ 32)
    (hloop : mainLoop crc32 l.1 l.2 s.sender = .ok (s'.sender, sent, []))
    (hdata : NotData crc32 l.1) :
    ∃ loopNow used, loopNow :: used <:+ l.2 ∧ used.length = sent.length ∧
      Scheduled s s' (nacked crc32 s.sender.w l.1) loopNow sent := by
  obtain ⟨-, -, -, -, helapse, -⟩ := id hstep
  have hle := le_of_elapse helapse
  exact ((inv_of_reachable h).scheduled (full_of_reachable h (by omega)) hstep hfits hloop hdata).2

/-- The NACK names the empty packet, and it is sent again. -/
theorem sent_on_schedule_resentEmpty :
    ∃ s s' loopNow used sent, s.sender = sentEmpty ∧ s'.sender = resentEmpty ∧
      mainLoop Crc32.crc32 (some nackEmpty) [2, 3, 4, 5] s.sender = .ok (s'.sender, sent, []) ∧
      sent.length = 1 ∧ loopNow :: used <:+ [2, 3, 4, 5] ∧ used.length = sent.length ∧
      Scheduled s s' (nacked Crc32.crc32 s.sender.w (some nackEmpty)) loopNow sent := by
  obtain ⟨s, h, hs, hclock⟩ := reachable_sentEmpty
  have hrest := rest_resentEmpty
  have hlength : (mainLoop Crc32.crc32 (some nackEmpty) [2, 3, 4, 5] sentEmpty).toOption.map
      (fun r => r.2.1.length) = some 1 := by
    decide +kernel
  rw [← hs] at hrest hlength
  have helapse : elapse s.clock [2, 3, 4, 5] = some 6 := by rw [hclock]; rfl
  obtain ⟨s', hstep, hs', hclock'⟩ := exists_step (s := s) hrest helapse
  obtain ⟨sent, hloop⟩ := mainLoop_after hrest
  rw [← hs'] at hloop
  rw [hloop] at hlength
  have hdata : NotData Crc32.crc32 (some nackEmpty) := by
    intro d p hd hp
    cases hd
    have hnack : (received Crc32.crc32 nackEmpty).map Pkt.getType = some ptypeNack := by
      decide +kernel
    rw [hp] at hnack
    exact (Option.some.inj hnack).trans_ne (by decide)
  have hfits : s'.clock + timer.toNat ≤ 2 ^ 32 := hclock' ▸ (by decide)
  obtain ⟨loopNow, used, hsuffix, hlen, hscheduled⟩ := sent_on_schedule h hstep hfits hloop hdata
  rw [hs, ← resentEmpty] at hs'
  exact ⟨s, s', loopNow, used, sent, hs, hs', hloop, Option.some.inj hlength, hsuffix, hlen,
    hscheduled⟩

end Timed

end Sender

end LosslessTransport
