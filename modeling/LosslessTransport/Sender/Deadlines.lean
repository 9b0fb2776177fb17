import LosslessTransport.Clock
import LosslessTransport.Sender.Robust

/-!
# The deadlines of the sender's packets

`Sender.Timed` is the sender with a clock that never wraps, and with the history of its stamps: when
each packet was last stamped, and with which deadline.  In every run (`Timed.lts`, in which the
readings of the clock increase strictly, without a bound) a packet carries its deadline in 32 bits,
and the deadline is at most `TIMER` after the moment of the stamp (`Timed.Inv`).

`get_timeout` compares these 32 bits with those of the clock; `Timed.timeout_exact_iff` says when
this gives the time that is left.  It does until the clock wraps (`Timed.overdue_or_ahead`).
-/

namespace LosslessTransport

namespace Sender

/-- The moment a packet was stamped at, and the deadline it was given, in microseconds. -/
structure Stamp where
  moment : ℕ
  deadline : ℕ

/-- The sender with its clock. -/
structure Timed where
  sender : State
  /-- Past every reading so far. -/
  clock : ℕ
  /-- The last stamp of each packet, by its address. -/
  stamps : ℕ → Stamp

/-- The clock once these readings are taken, if they increase strictly from `clock` on: it is past
every reading. -/
def elapse : ℕ → List ℕ → Option ℕ
  | clock, [] => some clock
  | clock, now :: readings => if clock ≤ now then elapse (now + 1) readings else none

/-- The packet of the window that a reply names, if it is a NACK for one. -/
def nacked (crc32 : List Byte → BitVec 32) (w : Window) (ready : Option (List Byte)) :
    Option PktPtr :=
  (ready.bind (received crc32)).bind fun nack =>
    if nack.getType = ptypeData ∨ nack.getType = ptypeAck then none
    else if w.has nack.getSeqnum.toNat then w.findSeqnum nack.getSeqnum.toNat
    else none

/-- A packet named in a NACK gets the reading of `handle_nack` for a deadline. -/
def stampNacked (nacked : Option PktPtr) (readings : List ℕ) (stamps : ℕ → Stamp) : ℕ → Stamp :=
  match nacked, readings with
  | some p, now :: _ => Function.update stamps p.addr ⟨now, now⟩
  | _, _ => stamps

/-- A packet that is sent gets a deadline `TIMER` after its reading. -/
def stampSent : List Sent → List ℕ → (ℕ → Stamp) → ℕ → Stamp
  | d :: sent, now :: readings, stamps =>
    stampSent sent readings (Function.update stamps d.pkt.addr ⟨now, now + timer.toNat⟩)
  | _, _, stamps => stamps

namespace Timed

/-- At first no packet has been stamped. -/
def init (input : List Chunk) : Timed where
  sender := Sender.init input
  clock := 0
  stamps _ := ⟨0, 0⟩

/-- The sender's iterations with a clock that increases strictly.  An iteration takes all the
readings of its label: that of `handle_nack` is the first one after the timeout, and the last ones
are those of the datagrams it sends. -/
def lts (crc32 : List Byte → BitVec 32) : LTS Timed (Option (List Byte) × List ℕ) where
  step s l s' := ∃ readings sent, await l.1 l.2 s.sender = .ok readings ∧
    mainLoop crc32 l.1 l.2 s.sender = .ok (s'.sender, sent, []) ∧
    elapse s.clock l.2 = some s'.clock ∧
    s'.stamps = stampSent sent (readings.drop (readings.length - sent.length))
      (stampNacked (nacked crc32 s.sender.w l.1) readings s.stamps)

end Timed

/-- The packet carries, in 32 bits, the deadline of its stamp, which was made before the clock
reached `c`. -/
structure OnTime (c : ℕ) (stamp : Stamp) (p : PktPtr) : Prop where
  moment_lt : stamp.moment < c
  deadline_le : stamp.deadline ≤ stamp.moment + timer.toNat
  timestamp_eq : p.timestamp = BitVec.ofNat 32 stamp.deadline

/-- So do all the packets of the buffer. -/
def AllOnTime (c : ℕ) (stamps : ℕ → Stamp) (w : Window) : Prop :=
  ∀ p ∈ w.front, OnTime c (stamps p.addr) p

variable {crc32 : List Byte → BitVec 32} {input : List Chunk} {n c c' now : ℕ} {w w' : Window}
  {stamps : ℕ → Stamp} {readings readings' : List ℕ} {p q : PktPtr} {st st' : State}

theorem elapse_cons (h : elapse c (now :: readings) = some c') :
    c ≤ now ∧ elapse (now + 1) readings = some c' := by
  rw [elapse] at h
  split_ifs at h with hle
  exact ⟨hle, h⟩

theorem le_of_elapse (h : elapse c readings = some c') : c ≤ c' := by
  induction readings generalizing c with
  | nil => exact (Option.some.inj h).le
  | cons now readings ih =>
    obtain ⟨hle, h⟩ := elapse_cons h
    have := ih h
    omega

/-- The readings of a strictly monotonic clock are readings of this kind. -/
theorem exists_elapse (hinc : readings.IsChain (· < ·)) (hc : ∀ now ∈ readings.head?, c ≤ now) :
    ∃ c', elapse c readings = some c' := by
  induction readings generalizing c with
  | nil => exact ⟨c, rfl⟩
  | cons now readings ih =>
    rw [elapse, if_pos (hc now rfl)]
    cases readings with
    | nil => exact ⟨now + 1, rfl⟩
    | cons next readings =>
      obtain ⟨hlt, hinc⟩ := List.isChain_cons_cons.1 hinc
      exact ih hinc fun x hx => Option.some.inj hx ▸ hlt

theorem exists_elapse_elapsed (tps : List Timespec) :
    ∃ c, elapse 0 (Clock.elapsed tps) = some c :=
  exists_elapse (Clock.isChain_elapsed tps) fun _ _ => Nat.zero_le _

theorem OnTime.mono {stamp : Stamp} (h : OnTime c stamp p) (hc : c ≤ c') : OnTime c' stamp p :=
  { h with moment_lt := h.moment_lt.trans_le hc }

theorem OnTime.toNat_timestamp {stamp : Stamp} (h : OnTime c stamp p) :
    p.timestamp.toNat = stamp.deadline % 2 ^ 32 := by
  rw [h.timestamp_eq, BitVec.toNat_ofNat]

theorem AllOnTime.mono (h : AllOnTime c stamps w) (hc : c ≤ c') : AllOnTime c' stamps w :=
  fun p hp => (h p hp).mono hc

/-- **Stamping a packet**: it is on time when its timestamp is the new deadline, and the others
stay so. -/
theorem AllOnTime.store (h : AllOnTime c stamps w) (hc : c ≤ now) {deadline : ℕ}
    (hle : deadline ≤ now + timer.toNat) (hq : q.timestamp = BitVec.ofNat 32 deadline) :
    AllOnTime (now + 1) (Function.update stamps q.addr ⟨now, deadline⟩) (w.store q) := by
  intro x hx
  rcases Window.mem_store hx with rfl | ⟨hx, hne⟩
  · rw [Function.update_self]
    exact ⟨Nat.lt_succ_self now, hle, hq⟩
  · rw [Function.update_of_ne hne]
    exact (h x hx).mono (by omega)

theorem AllOnTime.subset (h : AllOnTime c stamps w) (hsub : w'.front ⊆ w.front) :
    AllOnTime c stamps w' :=
  fun p hp => h p (hsub hp)

/-! ### Replies -/

theorem nacked_of_received {d : List Byte} {resp : Pkt} (hrec : received crc32 d = some resp) :
    nacked crc32 w (some d) =
      if resp.getType = ptypeData ∨ resp.getType = ptypeAck then none
      else if w.has resp.getSeqnum.toNat then w.findSeqnum resp.getSeqnum.toNat else none := by
  simp only [nacked, Option.bind_some, hrec]

/-- `get_timeout` may read the clock. -/
theorem elapse_await {ready : Option (List Byte)} {readings₀ : List ℕ}
    (helapse : elapse c readings = some c') (hwait : await ready readings st = .ok readings₀) :
    ∃ c₀, c ≤ c₀ ∧ elapse c₀ readings₀ = some c' := by
  rcases await_cases hwait with rfl | ⟨now, rfl⟩
  · exact ⟨c, le_rfl, helapse⟩
  · obtain ⟨hle, helapse⟩ := elapse_cons helapse
    exact ⟨now + 1, by omega, helapse⟩

/-- After the reply the packets are on time, with the stamp of the one it names. -/
theorem receive_onTime {ready : Option (List Byte)} {r : Option (Window × List ℕ)}
    (hw : w.Standard) (h : AllOnTime c stamps w) (helapse : elapse c readings = some c')
    (hreceive : receive crc32 w ready readings = .ok r) :
    (r = none ∧ stampNacked (nacked crc32 w ready) readings stamps = stamps) ∨
      ∃ w₁ readings₁ c₁, r = some (w₁, readings₁) ∧ readings₁ <:+ readings ∧ c ≤ c₁ ∧
        elapse c₁ readings₁ = some c' ∧
        AllOnTime c₁ (stampNacked (nacked crc32 w ready) readings stamps) w₁ := by
  cases ready with
  | none =>
    cases hreceive
    exact .inr ⟨w, readings, c, rfl, List.suffix_rfl, le_rfl, helapse, h⟩
  | some d =>
    obtain ⟨hrec, rfl⟩ | ⟨p, hrec, htype, rfl⟩ | ⟨ack, hrec, htype, rfl⟩ |
      ⟨nack, hrec, hdata, hack, w', readings', hnack, rfl⟩ := handleResponse_cases hw hreceive
    · have hnone : nacked crc32 w (some d) = none := by
        simp only [nacked, Option.bind_some, hrec, Option.bind_none]
      rw [hnone]
      exact .inr ⟨w, readings, c, rfl, List.suffix_rfl, le_rfl, helapse, h⟩
    · rw [nacked_of_received hrec, if_pos (.inl htype)]
      exact .inl ⟨rfl, rfl⟩
    · rw [nacked_of_received hrec, if_pos (.inr htype)]
      have hsub := (sublist_acked w ack).subset
      exact .inr ⟨_, readings, c, rfl, List.suffix_rfl, le_rfl, helapse, h.subset hsub⟩
    · rw [nacked_of_received hrec, if_neg (not_or.2 ⟨hdata, hack⟩)]
      obtain ⟨hnamed, rfl, rfl⟩ | ⟨p, now, hnamed, rfl, rfl⟩ := handleNack_named rfl hnack
      · rw [hnamed]
        exact .inr ⟨_, readings', c, rfl, List.suffix_rfl, le_rfl, helapse, h⟩
      · rw [hnamed]
        obtain ⟨hle, helapse⟩ := elapse_cons helapse
        refine .inr ⟨_, readings', now + 1, rfl, List.suffix_cons _ _, by omega, helapse, ?_⟩
        exact h.store hle (Nat.le_add_right _ _) (PktPtr.timestamp_setTimestamp p _)

/-! ### Datagrams that are sent -/

theorem stampSent_nil (readings : List ℕ) (stamps : ℕ → Stamp) :
    stampSent [] readings stamps = stamps := by
  cases readings <;> rfl

/-- The retransmissions keep the packets on time, and take one reading for each datagram. -/
theorem retransmitExpired_onTime (hbuf : Buffered input n w) {loopNow : BitVec 32}
    (h : AllOnTime c stamps w) (helapse : elapse c readings = some c')
    {r : Window × List Sent × List ℕ}
    (hr : retransmitExpired crc32 loopNow readings w = .ok r) :
    ∃ used c₁, readings = used ++ r.2.2 ∧ used.length = r.2.1.length ∧ c ≤ c₁ ∧
      elapse c₁ r.2.2 = some c' ∧ AllOnTime c₁ (stampSent r.2.1 used stamps) r.1 := by
  refine retransmitExpired_induction
    (motive := fun readings w r => ∀ c stamps, AllOnTime c stamps w →
      elapse c readings = some c' →
      ∃ used c₁, readings = used ++ r.2.2 ∧ used.length = r.2.1.length ∧ c ≤ c₁ ∧
        elapse c₁ r.2.2 = some c' ∧ AllOnTime c₁ (stampSent r.2.1 used stamps) r.1)
    ?_ ?_ hbuf.sendable hr c stamps h helapse
  · intro readings w _ c stamps h helapse
    exact ⟨[], c, rfl, rfl, le_rfl, helapse, h⟩
  · intro now readings w p q r hp _ hq ih c stamps h helapse
    obtain ⟨hle, helapse⟩ := elapse_cons helapse
    have hqt : q.timestamp = BitVec.ofNat 32 (now + timer.toNat) := by
      rw [hq, PktPtr.timestamp_setTimestamp, BitVec.ofNat_add, BitVec.ofNat_toNat]
      rfl
    obtain ⟨used, c₁, rfl, hlen, hc, helapse, hall⟩ := ih _ _ (h.store hle le_rfl hqt) helapse
    exact ⟨now :: used, c₁, rfl, congrArg (· + 1) hlen, by omega, helapse, hall⟩

theorem stampSent_append {sent sent' : List Sent} {used used' : List ℕ}
    (hlen : used.length = sent.length) :
    stampSent (sent ++ sent') (used ++ used') stamps =
      stampSent sent' used' (stampSent sent used stamps) := by
  induction sent generalizing used stamps with
  | nil =>
    rw [List.length_eq_zero_iff.1 hlen]
    rfl
  | cons d sent ih =>
    cases used with
    | nil => cases hlen
    | cons now used => exact ih (Nat.succ.inj hlen)

/-- A new packet is on time, too. -/
theorem AllOnTime.added (h : AllOnTime c stamps w) (hnext : ∀ p ∈ w.front, p.addr < n)
    (hc : c ≤ now) (haddr : q.addr = n) (hq : q.timestamp = BitVec.ofNat 32 now + timer)
    (hfront : w'.front = q :: w.front) :
    AllOnTime (now + 1) (Function.update stamps n ⟨now, now + timer.toNat⟩) w' := by
  intro p hp
  rw [hfront] at hp
  rcases List.mem_cons.1 hp with rfl | hp
  · rw [haddr, Function.update_self]
    refine ⟨Nat.lt_succ_self now, le_rfl, ?_⟩
    rw [hq, BitVec.ofNat_add, BitVec.ofNat_toNat]
    rfl
  · rw [Function.update_of_ne (hnext p hp).ne]
    exact (h p hp).mono (by omega)

/-- **An iteration keeps the packets on time.** -/
theorem mainLoop_onTime (hinv : Inv input st) {ready : Option (List Byte)} {sent : List Sent}
    {readings₀ : List ℕ} (h : AllOnTime c stamps st.w) (helapse : elapse c readings = some c')
    (hwait : await ready readings st = .ok readings₀)
    (hloop : mainLoop crc32 ready readings st = .ok (st', sent, [])) :
    AllOnTime c' (stampSent sent (readings₀.drop (readings₀.length - sent.length))
      (stampNacked (nacked crc32 st.w ready) readings₀ stamps)) st'.w := by
  obtain ⟨c₀, hc₀, helapse₀⟩ := elapse_await helapse hwait
  have hcc' := le_of_elapse helapse₀
  obtain ⟨hreceive, rfl, rfl, rfl⟩ | ⟨w₁, loopNow, readings₁, w₂, sent₂, readings₂, hreceive,
    hretr, hnew⟩ := mainLoop_cases_of_await hwait hloop
  · obtain ⟨-, hstamps⟩ | ⟨_, _, _, hsome, -⟩ :=
      receive_onTime hinv.standard (h.mono hc₀) helapse₀ hreceive
    · rw [hstamps, stampSent_nil]
      exact h.mono (hc₀.trans hcc')
    · cases hsome
  obtain ⟨hnone, -⟩ | ⟨w₁', readings', c₁, heq, hsuffix, -, helapse₁, h₁⟩ :=
    receive_onTime hinv.standard (h.mono hc₀) helapse₀ hreceive
  · cases hnone
  cases heq
  have hresp := response_of_receive_some hinv.standard hreceive
  have hbuf₁ := hresp.buffered hinv.toBuffered
  obtain ⟨hle, helapse₁⟩ := elapse_cons helapse₁
  obtain ⟨used, c₂, rfl, hlen, -, helapse₂, h₂⟩ :=
    retransmitExpired_onTime hbuf₁ (h₁.mono (Nat.le_succ_of_le hle)) helapse₁ hretr
  replace hsuffix : used ++ readings₂ <:+ readings₀ := (List.suffix_cons _ _).trans hsuffix
  have hdrop := List.suffix_iff_eq_drop.1 hsuffix
  obtain ⟨hfull, -, new, hsend, rfl⟩ | ⟨-, rfl, rfl, rfl⟩ := hnew
  · obtain ⟨now, p, rfl, -, hp, rfl, rfl⟩ := sendNew_spec hfull hsend
    obtain ⟨hle, helapse₂⟩ := elapse_cons helapse₂
    cases helapse₂
    have hbuf₂ := (retransmitExpired_spec hbuf₁ hretr).1
    rw [List.length_append, List.length_singleton] at hdrop
    rw [List.length_append, List.length_singleton, ← hlen, ← hdrop, stampSent_append hlen]
    exact h₂.added hbuf₂.addr_lt hle rfl hp rfl
  · cases helapse₂
    rw [List.append_nil] at hdrop
    rw [← hlen, ← hdrop]
    exact h₂

namespace Timed

/-- What holds between two iterations. -/
structure Inv (input : List Chunk) (s : Timed) : Prop where
  sender : Sender.Inv input s.sender
  onTime : AllOnTime s.clock s.stamps s.sender.w

variable {s s' : Timed}

theorem Inv.init (input : List Chunk) : Inv input (init input) where
  sender := Sender.Inv.init input
  onTime := nofun

theorem Inv.step {l : Option (List Byte) × List ℕ} (h : Inv input s)
    (hstep : (lts crc32).step s l s') : Inv input s' := by
  obtain ⟨readings, sent, hwait, hloop, helapse, hstamps⟩ := hstep
  refine ⟨(mainLoop_spec h.sender hloop).1, ?_⟩
  rw [hstamps]
  exact mainLoop_onTime h.sender h.onTime helapse hwait hloop

/-- The sender with its clock is the sender. -/
theorem reachable_sender (h : (lts crc32).Reachable (init input) s) :
    (Sender.lts crc32).Reachable (Sender.init input) s.sender := by
  refine h.invariant (I := fun s => (Sender.lts crc32).Reachable (Sender.init input) s.sender)
    (LTS.Reachable.refl _) fun s l s' hs hstep => ?_
  obtain ⟨readings, sent, -, hloop, -⟩ := hstep
  exact hs.tail (l := l) ⟨sent, [], hloop⟩

/-- **The packets are on time in every run.** -/
theorem inv_of_reachable (h : (lts crc32).Reachable (init input) s) : Inv input s :=
  h.invariant (Inv.init input) fun _ _ _ hinv hstep => hinv.step hstep

/-! ### The timeout -/

/-- The deadline of the last stamp of a packet. -/
def deadline (s : Timed) (p : PktPtr) : ℕ := (s.stamps p.addr).deadline

theorem Inv.toNat_timestamp (h : Inv input s) (hp : p ∈ s.sender.w.front) :
    p.timestamp.toNat = s.deadline p % 2 ^ 32 :=
  (h.onTime p hp).toNat_timestamp

/-- A deadline is less than `TIMER` away. -/
theorem Inv.deadline_lt (h : Inv input s) (hnow : s.clock ≤ now) (hp : p ∈ s.sender.w.front) :
    s.deadline p < now + timer.toNat := by
  have := (h.onTime p hp).moment_lt
  have := (h.onTime p hp).deadline_le
  rw [deadline]
  omega

/-- Every packet has been stamped with a deadline at most `TIMER` later, and with the clock at `now`
`get_timeout` returns the time that is left to the earliest of the deadlines. -/
structure TimeoutExact (s : Timed) (now : ℕ) : Prop where
  stamped : ∀ p ∈ s.sender.w.front, p.timestamp = BitVec.ofNat 32 (s.deadline p) ∧
    s.deadline p ≤ (s.stamps p.addr).moment + timer.toNat
  remaining : ∃ t, getTimeout s.sender [now] = .ok (t, []) ∧ t.toNat ≤ timer.toNat ∧
    ∃ p ∈ s.sender.w.front, (∀ q ∈ s.sender.w.front, s.deadline p ≤ s.deadline q) ∧
      t.toNat = s.deadline p - now

/-- The `struct timeval` that `select` then gets ends its wait at the earliest deadline, or at once
when that has passed. -/
theorem TimeoutExact.wait (h : TimeoutExact s now) :
    ∃ t p, getTimeout s.sender [now] = .ok (t, []) ∧ p ∈ s.sender.w.front ∧
      (∀ q ∈ s.sender.w.front, s.deadline p ≤ s.deadline q) ∧
      now + (Clock.microToTimeval t).micros = max now (s.deadline p) := by
  obtain ⟨-, t, htimeout, -, p, hp, hmin, ht⟩ := h
  refine ⟨t, p, htimeout, hp, hmin, ?_⟩
  rw [Clock.micros_microToTimeval, ht]
  omega

/-- A deadline has passed, and in 32 bits, too, some deadline is not after the clock. -/
def Overdue (s : Timed) (now : ℕ) : Prop :=
  (∃ p ∈ s.sender.w.front, s.deadline p ≤ now) ∧
    ∃ p ∈ s.sender.w.front, s.deadline p % 2 ^ 32 ≤ now % 2 ^ 32

/-- No deadline has passed, and the clock does not wrap before any of them. -/
def Ahead (s : Timed) (now : ℕ) : Prop :=
  ∀ p ∈ s.sender.w.front, now < s.deadline p ∧ s.deadline p / 2 ^ 32 = now / 2 ^ 32

/-- The time left to a timestamp, 0 when it is not after the clock. -/
theorem toNat_timeLeft (t : BitVec 32) (now : ℕ) :
    (if t > BitVec.ofNat 32 now then t - BitVec.ofNat 32 now else 0).toNat =
      t.toNat - now % 2 ^ 32 := by
  split_ifs with hgt
  · rw [BitVec.toNat_sub_of_le (BitVec.le_of_lt hgt), BitVec.toNat_ofNat]
  · rw [BitVec.not_lt, BitVec.le_def, BitVec.toNat_ofNat] at hgt
    exact (Nat.sub_eq_zero_of_le hgt).symm

/-- What `get_timeout` returns when it looks for the closest timer. -/
theorem exists_getTimeout {st : State} (hw : st.w.Standard) (hrun : st.running)
    (htimer : ((st.w.full && !st.w.empty) || st.sentEof) = true) (now : ℕ) :
    ∃ p ∈ st.w.front, (∀ q ∈ st.w.front, p.timestamp.toNat ≤ q.timestamp.toNat) ∧
      ∃ t, getTimeout st [now] = .ok (t, []) ∧
        t.toNat = p.timestamp.toNat - now % 2 ^ 32 := by
  obtain ⟨p, hp⟩ := exists_peekMinTimestamp hw hrun htimer
  have hmin := Window.isFirstMin_of_peekMinTimestamp hp
  refine ⟨p, List.mem_of_getElem? hmin.get, hmin.le, _, ?_, toNat_timeLeft p.timestamp now⟩
  rw [getTimeout, if_pos htimer, hp]
  rfl

/-- Until shortly before the clock wraps the timeout is exact. -/
theorem overdue_or_ahead (h : (lts crc32).Reachable (init input) s) (hnow : s.clock ≤ now)
    (hlt : now + timer.toNat ≤ 2 ^ 32) :
    Overdue s now ∨ Ahead s now := by
  have hinv := inv_of_reachable h
  have htimer : timer.toNat = 4500000 := rfl
  by_cases hpassed : ∃ p ∈ s.sender.w.front, s.deadline p ≤ now
  · obtain ⟨p, hp, hle⟩ := hpassed
    refine .inl ⟨⟨p, hp, hle⟩, p, hp, ?_⟩
    have := hinv.deadline_lt hnow hp
    omega
  · refine .inr fun q hq => ?_
    have hahead : ¬ s.deadline q ≤ now := fun hle => hpassed ⟨q, hq, hle⟩
    have := hinv.deadline_lt hnow hq
    omega

/-- **When the timeout is exact**: in every run, exactly when some deadline has passed, in 32 bits
as well, or none has and the clock does not wrap before any of them. -/
theorem timeout_exact_iff (h : (lts crc32).Reachable (init input) s) (hrun : s.sender.running)
    (htimer : (s.sender.w.full ∧ ¬ s.sender.w.empty) ∨ s.sender.sentEof) (hnow : s.clock ≤ now) :
    TimeoutExact s now ↔ Overdue s now ∨ Ahead s now := by
  have hinv := inv_of_reachable h
  have hcond : ((s.sender.w.full && !s.sender.w.empty) || s.sender.sentEof) = true := by
    simpa using htimer
  obtain ⟨p, hp, hmin, t, htimeout, ht⟩ :=
    exists_getTimeout hinv.sender.standard hrun hcond now
  -- every deadline is less than `TIMER` away, and carried in 32 bits
  have htimer : timer.toNat = 4500000 := rfl
  have hpt := hinv.toNat_timestamp hp
  have hplt := hinv.deadline_lt hnow hp
  constructor
  · rintro ⟨-, t', htimeout', -, r, hr, hearliest, ht'⟩
    rw [htimeout] at htimeout'
    cases htimeout'
    by_cases hpassed : s.deadline r ≤ now
    · refine .inl ⟨⟨r, hr, hpassed⟩, p, hp, ?_⟩
      omega
    · refine .inr fun q hq => ?_
      have := hinv.toNat_timestamp hq
      have := hinv.deadline_lt hnow hq
      have := hearliest q hq
      have := hmin q hq
      omega
  · intro hexact
    refine ⟨fun q hq => ⟨(hinv.onTime q hq).timestamp_eq, (hinv.onTime q hq).deadline_le⟩, t,
      htimeout, ?_⟩
    obtain ⟨⟨q, hq, hpassed⟩, x, hx, hxle⟩ | hahead := hexact
    · obtain ⟨r, hr⟩ := Links.minLink_spec s.deadline (List.ne_nil_of_mem hp)
      have := hr.le q hq
      have := hmin x hx
      have := hinv.toNat_timestamp hx
      exact ⟨by omega, r, List.mem_of_getElem? hr.get, hr.le, by omega⟩
    · have hpahead := hahead p hp
      refine ⟨by omega, p, hp, fun q hq => ?_, by omega⟩
      have := hahead q hq
      have := hmin q hq
      have := hinv.toNat_timestamp hq
      omega

/-- An iteration that takes all its readings is one of the sender with its clock. -/
theorem exists_step {ready : Option (List Byte)}
    (hrest : (mainLoop crc32 ready readings s.sender).toOption.map (fun r => r.2.2) = some [])
    (helapse : elapse s.clock readings = some c') :
    ∃ s', (lts crc32).step s (ready, readings) s' ∧
      s'.sender = after crc32 ready readings s.sender ∧ s'.clock = c' := by
  obtain ⟨sent, hloop⟩ := mainLoop_after hrest
  obtain ⟨readings₀, hwait, -⟩ := bind_eq_ok.1 hloop
  exact ⟨⟨_, c', _⟩, ⟨readings₀, sent, hwait, hloop, helapse, rfl⟩, rfl, rfl⟩

theorem reachable_sentEmpty :
    ∃ s, (lts Crc32.crc32).Reachable (init []) s ∧ s.sender = sentEmpty ∧ s.clock = 2 := by
  obtain ⟨s, hstep, hs, hclock⟩ := exists_step (s := init []) rest_sentEmpty rfl
  exact ⟨s, (LTS.Reachable.refl _).tail hstep, hs, hclock⟩

/-- The sender once it has heard the NACK for the empty packet, and sent that again. -/
def resentEmpty : State := after Crc32.crc32 (some nackEmpty) [2, 3, 4, 5] sentEmpty

theorem rest_resentEmpty : (mainLoop Crc32.crc32 (some nackEmpty) [2, 3, 4, 5]
    sentEmpty).toOption.map (fun r => r.2.2) = some [] := by
  decide +kernel

/-- With the clock at 7 the sender sleeps for as long as the timer of the empty packet runs. -/
theorem timeout_exact_resentEmpty :
    ∃ s, (lts Crc32.crc32).Reachable (init []) s ∧ s.sender = resentEmpty ∧ TimeoutExact s 7 := by
  obtain ⟨s, h, hs, hclock⟩ := reachable_sentEmpty
  have helapse : elapse s.clock [2, 3, 4, 5] = some 6 := by rw [hclock]; rfl
  obtain ⟨s', hstep, hs', hclock'⟩ := exists_step (s := s) (hs ▸ rest_resentEmpty) helapse
  rw [hs, ← resentEmpty] at hs'
  have h' := h.tail hstep
  have hnow : s'.clock ≤ 7 := hclock' ▸ Nat.le_succ 6
  have hstate : resentEmpty.running = true ∧ resentEmpty.sentEof = true := by decide +kernel
  rw [← hs'] at hstate
  exact ⟨s', h', hs', (timeout_exact_iff h' hstate.1 (.inr hstate.2) hnow).2
    (overdue_or_ahead h' hnow (by decide))⟩

/-- The sender once it has sent the empty packet with the largest timestamp there is. -/
def sentLate : State := after Crc32.crc32 none [0, 2 ^ 32 - 4500001] (Sender.init [])

/-- The sender when it has slept until that timer has expired: the clock has wrapped, and the packet
is not sent again. -/
def slept : State := after Crc32.crc32 none [2 ^ 32 - 4500000, 2 ^ 32 + 2] sentLate

theorem rest_sentLate : (mainLoop Crc32.crc32 none [0, 2 ^ 32 - 4500001]
    (Sender.init [])).toOption.map (fun r => r.2.2) = some [] := by
  decide +kernel

theorem rest_slept : (mainLoop Crc32.crc32 none [2 ^ 32 - 4500000, 2 ^ 32 + 2]
    sentLate).toOption.map (fun r => r.2.2) = some [] := by
  decide +kernel

theorem reachable_slept :
    ∃ s, (lts Crc32.crc32).Reachable (init []) s ∧ s.sender = slept ∧ s.clock = 2 ^ 32 + 3 := by
  have helapse : elapse 0 [0, 2 ^ 32 - 4500001] = some (2 ^ 32 - 4500000) := by simp [elapse]
  obtain ⟨s, hstep, hs, hclock⟩ := exists_step (s := init []) rest_sentLate helapse
  replace hs : s.sender = sentLate := hs
  have helapse' : elapse s.clock [2 ^ 32 - 4500000, 2 ^ 32 + 2] = some (2 ^ 32 + 3) := by
    rw [hclock]
    simp [elapse]
  obtain ⟨s', hstep', hs', hclock'⟩ := exists_step (s := s) (hs ▸ rest_slept) helapse'
  rw [hs, ← slept] at hs'
  exact ⟨s', ((LTS.Reachable.refl _).tail hstep).tail hstep', hs', hclock'⟩

theorem timestamp_slept : ∀ p ∈ slept.w.front, p.timestamp.toNat = 2 ^ 32 - 1 := by
  decide +kernel

theorem getTimeout_slept :
    (getTimeout slept [2 ^ 32 + 5]).toOption = some (4294967290, []) := by
  decide +kernel

/-- With the timer expired the sender goes to sleep for more than an hour. -/
theorem oversleeps :
    ∃ s, ∃ now t, (lts Crc32.crc32).Reachable (init []) s ∧ s.clock ≤ now ∧
      s.sender.sentEof = true ∧ (∀ p ∈ s.sender.w.front, s.deadline p ≤ now) ∧
      getTimeout s.sender [now] = .ok (t, []) ∧ t.toNat = 4294967290 ∧ ¬ TimeoutExact s now := by
  obtain ⟨s, h, hs, hclock⟩ := reachable_slept
  have heof : slept.sentEof = true := by decide +kernel
  have htimeout := ok_of_toOption getTimeout_slept
  have hfront := timestamp_slept
  rw [← hs] at heof htimeout hfront
  refine ⟨s, 2 ^ 32 + 5, 4294967290, h, by omega, heof, ?_, htimeout, rfl, ?_⟩
  · intro p hp
    have hlt := (inv_of_reachable h).deadline_lt hclock.le hp
    have hmod := (inv_of_reachable h).toNat_timestamp hp
    have htimer : timer.toNat = 4500000 := rfl
    rw [hfront p hp] at hmod
    omega
  · rintro ⟨-, t, ht, hle, -⟩
    rw [htimeout] at ht
    cases ht
    exact absurd hle (by decide)

end Timed

end Sender

end LosslessTransport
