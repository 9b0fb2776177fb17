import LosslessTransport.Sender.Turn
import LosslessTransport.System.Lossless
import LosslessTransport.System.Recovery

/-!
# A transfer that has lost no ACK can be completed

Once an ACK is lost a transfer may have stopped for good (`stops_after_first_ack_lost`).  As long as
none is, it can be completed from every state in which none is on its way, whatever else has been
lost, truncated or held back (`can_complete`).  That it can does not say that it will: the network
may lose every datagram.  The run that completes it:

* Everything on its way is lost (`exists_quiet`).
* The sender waits until all its timers have expired, and sends everything again; what has a later
  deadline than the packet that the receiver waits for is delivered, the rest is lost
  (`exists_awaits`).
* When the timer of that packet expires, those with an earlier deadline are sent before it, and all
  is delivered (`Awaits.exists_caught`).  The order matters: a packet that came early is written
  with the one that the receiver waits for, and after that it is not answered any more.
* From then on no timer expires: the sender hears one reply after another, and what it sends is
  delivered at once (`Caught.round`).
-/

namespace LosslessTransport.System

open Circular SelectiveRepeat
open Sender (Chunk Sent addrs payload timer Turn)
open Receiver (ackPkt)

variable (crc32 : List Byte → BitVec 32)

/-- The system as long as the clock ticks, the sender understands the ACKs and none is lost. -/
def keepingAcks : LTS System Event :=
  (lts crc32).restrict fun s e => Ticks s e ∧ AckSafe crc32 s e ∧ KeepsAcks crc32 s e

/-- From `s` to `s'` datagrams are delivered or lost; the replies are ACKs. -/
structure Feeds (input : List Chunk) (s s' : System) : Prop where
  reach : (keepingAcks crc32).Reachable s s'
  sender : s'.sender = s.sender
  clock : s'.clock = s.clock
  view : s.receiver.view input.length ≤ s'.receiver.view input.length
  acks : ∃ replies, s'.acks = s.acks ++ replies ∧ ∀ r ∈ replies, ∃ t, Acks crc32 t r
  length_le : s'.acks.length + s'.data.length ≤ s.acks.length + s.data.length

/-- Everything that has been sent has been written, and what the sender holds has been answered; it
hears each answer before the timer expires, if it hears one in four readings of the clock. -/
structure Caught (input : List Chunk) (s : System) : Prop where
  order : InOrder input crc32 s.sender.allocs s
  data : s.data = []
  length_le : s.acks.length ≤ 64
  inTime : ∀ p ∈ s.sender.w.front, ∃ i r, s.acks[i]? = some r ∧ Acks crc32 p.timestamp r ∧
    s.clock + 4 * (i + 1) ≤ p.timestamp.toNat

/-- How much is left to do: packets that have not been made, replies that have not been heard. -/
def remaining (input : List Chunk) (s : System) : ℕ :=
  2 * (input.length + 1 - s.sender.allocs) + s.acks.length

variable {crc32} {input : List Chunk} {owner : BitVec 32 → ℕ} {s s' s'' : System} {d : Sent}
  {rest : List Sent} {lim : ℕ} {va vr : View} {p : PktPtr}

theorem exists_good_of_keepingAcks (h : (keepingAcks crc32).Reachable (init input) s) :
    ∃ owner va vr, Good crc32 input owner 61 va vr s :=
  (exists_good_upToDate h).1

theorem ackSafe_of_heard {e : Event} (h : heard crc32 s e = none) : AckSafe crc32 s e := by
  intro ack ha
  rw [h] at ha
  cases ha

/-! ### Feeding the receiver -/

theorem Feeds.refl (s : System) : Feeds crc32 input s s where
  reach := .refl s
  sender := rfl
  clock := rfl
  view := le_refl _
  acks := ⟨[], (List.append_nil _).symm, nofun⟩
  length_le := le_rfl

theorem Feeds.trans (h : Feeds crc32 input s s') (h' : Feeds crc32 input s' s'') :
    Feeds crc32 input s s'' where
  reach := h.reach.trans h'.reach
  sender := h'.sender.trans h.sender
  clock := h'.clock.trans h.clock
  view := h.view.trans h'.view
  acks := by
    obtain ⟨replies, hacks, hall⟩ := h.acks
    obtain ⟨replies', hacks', hall'⟩ := h'.acks
    refine ⟨replies ++ replies', by rw [hacks', hacks, List.append_assoc], fun r hr => ?_⟩
    exact (List.mem_append.1 hr).elim (hall r) (hall' r)
  length_le := h'.length_le.trans h.length_le

/-- A reply that has been sent stays on its way. -/
theorem Feeds.mem_acks (h : Feeds crc32 input s s') {r : Reply} (hr : r ∈ s.acks) :
    r ∈ s'.acks := by
  obtain ⟨replies, hacks, -⟩ := h.acks
  exact hacks ▸ List.mem_append_left _ hr

theorem Feeds.acks_of_acks (h : Feeds crc32 input s s') (hall : ∀ r ∈ s.acks, ∃ t, Acks crc32 t r) :
    ∀ r ∈ s'.acks, ∃ t, Acks crc32 t r := by
  obtain ⟨replies, hacks, hreplies⟩ := h.acks
  intro r hr
  rw [hacks] at hr
  exact (List.mem_append.1 hr).elim (hall r) (hreplies r)

/-- **A whole datagram that has not been written is answered** with an ACK, and the receiver has got
its packet. -/
theorem Good.feed (h : Good crc32 input owner 61 va vr s) (hdata : s.data = d :: rest)
    (hbytes : d.bytes = (d.pkt.pkt.sealed crc32).image) (hle : s.receiver.next ≤ d.pkt.addr) :
    ∃ s', Feeds crc32 input s s' ∧ s'.data = rest ∧
      (s'.receiver.view input.length).Got d.pkt.addr ∧
      (∃ r ∈ s'.acks, Acks crc32 d.pkt.timestamp r) ∧
      ∀ j, (s'.receiver.view input.length).Got j →
        (s.receiver.view input.length).Got j ∨ j = d.pkt.addr := by
  have hd := h.inv.data (hdata ▸ List.mem_cons_self ..)
  obtain ⟨m, hm⟩ := h.reads
  have hhas := (h.has_iff (hle.trans (Nat.le_add_right ..)) hd.addr_lt).2 hle
  obtain ⟨⟨receiver, reply⟩, hloop⟩ := h.inv.receive_ok hd
  have hnear := hm.next_eq ▸ h.addr_le hd.addr_lt
  have hlag : m.next ≤ d.pkt.addr + 64 := by
    rw [← hm.next_eq]
    exact hle.trans (Nat.le_add_right ..)
  obtain ⟨-, hview, hgot, hanswers⟩ := h.inv.reads_receive hm hd hlag hnear hloop
  obtain ⟨q, hq, hagree⟩ := received_image crc32 hd.carries.type_ne hd.carries.getLength_le
    (.inl hd.carries.type)
  rw [← hbytes] at hq
  have hseq : q.getSeqnum.toNat = d.pkt.addr % 256 := (hd.carries.of_agree hagree).seqnum
  obtain ⟨-, -, hnot⟩ | ⟨q', hq', -, htr', -⟩ | ⟨q', hq', -, -, -, -, -, rfl⟩ :=
    Receiver.mainLoop_cases h.inv.receiver hloop
  · refine absurd ?_ (hnot q hq)
    rwa [hseq]
  · rw [Option.some.inj (hq'.symm.trans hq)] at htr'
    exact absurd (hagree.tr.trans hd.carries.tr) htr'
  obtain rfl := Option.some.inj (hq'.symm.trans hq)
  rw [show q'.getTimestamp = d.pkt.timestamp from hagree.timestamp] at hloop hanswers
  have hav := (h.inv.receiver.mainLoop hloop).available
  have hack : Acks crc32 d.pkt.timestamp ⟨((ackPkt receiver.w.available receiver.w.pos
      d.pkt.timestamp).sealed crc32).image, receiver⟩ := ⟨_, _, hav.1, hav.2, rfl⟩
  refine ⟨_, ⟨(LTS.Reachable.refl s).tail (l := .receive)
    ⟨⟨trivial, ackSafe_of_heard rfl, trivial⟩, step_receive_eq crc32 hdata hloop⟩,
    rfl, rfl, hview, ⟨[_], rfl, fun r hr => ⟨d.pkt.timestamp, ?_⟩⟩, ?_⟩, rfl, ?_,
    ⟨_, List.mem_append_right _ (List.mem_singleton_self _), hack⟩, hgot⟩
  · rw [List.mem_singleton.1 hr]
    exact hack
  · rw [hdata, List.length_append, List.length_cons]
    exact (Nat.add_right_comm ..).le
  · -- the ACK names a packet that the receiver has got
    obtain ⟨a, ha, htype, hts, -⟩ := hack.received
    obtain ⟨-, ⟨-, -, hgot⟩ | hnack⟩ := (hanswers _ rfl).received ha
    · rwa [hts, hd.stamped.2] at hgot
    · exact absurd (htype.symm.trans hnack) (by decide)

variable (crc32 input) in
/-- A datagram is lost. -/
theorem exists_drop (hdata : s.data = d :: rest) :
    ∃ s', Feeds crc32 input s s' ∧ s'.data = rest ∧ s'.receiver = s.receiver ∧
      s'.acks = s.acks := by
  have hstep : step crc32 s (.loseData 0) = some { s with data := s.data.eraseIdx 0 } :=
    step_loseData_eq (by rw [hdata]; exact Nat.succ_pos _)
  have hrest : s.data.eraseIdx 0 = rest := by
    rw [hdata]
    rfl
  refine ⟨_, ⟨(LTS.Reachable.refl s).tail (l := .loseData 0)
    ⟨⟨trivial, ackSafe_of_heard rfl, trivial⟩, hstep⟩, rfl, rfl, le_refl _,
    ⟨[], (List.append_nil _).symm, nofun⟩, ?_⟩, hrest, rfl, rfl⟩
  exact Nat.add_le_add_left (List.length_eraseIdx_le ..) _

/-- The receiver does not write what it has not been waiting for. -/
theorem Good.next_eq_of_got (h : Good crc32 input owner 61 va vr s)
    {owner' : BitVec 32 → ℕ} {va' vr' : View} (h' : Good crc32 input owner' 61 va' vr' s')
    (hle : s.receiver.view input.length ≤ s'.receiver.view input.length) {i : ℕ}
    (hlt : s.receiver.next < i)
    (hgot : ∀ j, (s'.receiver.view input.length).Got j →
      (s.receiver.view input.length).Got j ∨ j = i) : s'.receiver.next = s.receiver.next := by
  have hnext : s.receiver.next ≤ s'.receiver.next := View.next_le_next hle
  by_contra hne
  obtain ⟨m, hm⟩ := h.reads
  obtain ⟨m', hm'⟩ := h'.reads
  have hlen := hm'.next_le
  rw [← hm'.next_eq] at hlen
  have hnow : (s'.receiver.view input.length).Got s.receiver.next :=
    .inl (Nat.lt_of_le_of_ne hnext fun heq => hne heq.symm)
  rcases hgot _ hnow with hold | heq
  · exact hm.not_got (by omega) hold
  · exact Nat.ne_of_lt hlt heq

/-- **Datagrams of packets beyond the one that the receiver waits for**: those that are kept are
answered, the others are lost, and nothing is written. -/
theorem exists_feed (h : (keepingAcks crc32).Reachable (init input) s) {ds : List Sent}
    (hdata : s.data = ds ++ rest) (keep : Sent → Prop)
    (hkeep : ∀ d ∈ ds, keep d → d.bytes = (d.pkt.pkt.sealed crc32).image ∧
      s.receiver.next < d.pkt.addr) :
    ∃ s', Feeds crc32 input s s' ∧ s'.data = rest ∧ s'.receiver.next = s.receiver.next ∧
      (∀ d ∈ ds, keep d → (s'.receiver.view input.length).Got d.pkt.addr ∧
        ∃ r ∈ s'.acks, Acks crc32 d.pkt.timestamp r) ∧
      ∀ j, (s'.receiver.view input.length).Got j →
        (s.receiver.view input.length).Got j ∨ ∃ d ∈ ds, d.pkt.addr = j := by
  induction ds generalizing s with
  | nil => exact ⟨s, .refl s, hdata, rfl, nofun, fun _ => .inl⟩
  | cons d ds ih =>
    obtain ⟨owner, va, vr, hgood⟩ := exists_good_of_keepingAcks h
    by_cases hd : keep d
    · obtain ⟨hbytes, hlt⟩ := hkeep d (List.mem_cons_self ..) hd
      obtain ⟨s₁, hfeeds, hdata₁, hgot₁, ⟨r, hr, hack⟩, honly⟩ := hgood.feed hdata hbytes hlt.le
      have h₁ := h.trans hfeeds.reach
      obtain ⟨owner₁, va₁, vr₁, hgood₁⟩ := exists_good_of_keepingAcks h₁
      have hnext₁ := hgood.next_eq_of_got hgood₁ hfeeds.view hlt honly
      obtain ⟨s', hfeeds', hdata', hnext', hall, honly'⟩ := ih h₁ hdata₁ fun x hx hk =>
        hnext₁ ▸ hkeep x (List.mem_cons_of_mem d hx) hk
      refine ⟨s', hfeeds.trans hfeeds', hdata', hnext'.trans hnext₁, ?_, fun j hj => ?_⟩
      · rintro x hx hk
        rcases List.mem_cons.1 hx with rfl | hx
        · exact ⟨hgot₁.mono hfeeds'.view, r, hfeeds'.mem_acks hr, hack⟩
        · exact hall x hx hk
      · rcases honly' j hj with hj | ⟨x, hx, rfl⟩
        · exact (honly j hj).imp_right fun heq => ⟨d, List.mem_cons_self .., heq.symm⟩
        · exact .inr ⟨x, List.mem_cons_of_mem d hx, rfl⟩
    · obtain ⟨s₁, hfeeds, hdata₁, hsame, -⟩ := exists_drop crc32 input hdata
      obtain ⟨s', hfeeds', hdata', hnext', hall, honly'⟩ := ih (h.trans hfeeds.reach) hdata₁
        fun x hx hk => hsame ▸ hkeep x (List.mem_cons_of_mem d hx) hk
      rw [hsame] at hnext' honly'
      refine ⟨s', hfeeds.trans hfeeds', hdata', hnext', ?_, fun j hj => ?_⟩
      · rintro x hx hk
        rcases List.mem_cons.1 hx with rfl | hx
        · exact absurd hk hd
        · exact hall x hx hk
      · exact (honly' j hj).imp_right fun ⟨x, hx, hxj⟩ => ⟨x, List.mem_cons_of_mem d hx, hxj⟩

/-! ### Turns of the sender -/

/-- A sender that understands the ACKs never waits without a timeout. -/
theorem size_ne_zero (h : (keepingAcks crc32).Reachable (init input) s) :
    s.sender.w.size ≠ 0 := by
  have hall := h.invariant (I := fun s => (keepingAcks crc32).Reachable (init input) s ∧
    s.sender.w.size ≠ 0) ⟨.refl _, Nat.one_ne_zero⟩ ?_
  · exact hall.2
  rintro s e s' ⟨hreach, hsize⟩ hs
  refine ⟨hreach.tail hs, ?_⟩
  obtain ⟨owner, va, vr, hgood⟩ := exists_good_of_keepingAcks hreach
  obtain ⟨-, hs⟩ := hs
  cases e with
  | send hear readings =>
    obtain ⟨ready, acks, sender, sent, hhear, hloop, rfl⟩ := step_send hs
    obtain ⟨-, w₁, _, _, hresp, -, hsize', -⟩ := Sender.mainLoop_spec hgood.inv.sender hloop
    rw [show sender.w.size = w₁.size from hsize']
    have hadv : ∀ d a, ready = some d → received crc32 d = some a → a.getWindow.toNat ≠ 0 := by
      rintro d a rfl ha
      obtain ⟨-, hnone, -⟩ | ⟨r, -, hr, hacks⟩ := hearFrom_cases hhear
      · cases hnone
      · cases hr
        have hanswers := hgood.answers r (hacks ▸ List.mem_cons_self ..)
        have := hanswers.inv.available.1
        rw [(hanswers.received ha).1]
        omega
    cases hresp with
    | ignored => exact hsize
    | acked hd ha _ => exact hadv _ _ hd ha
    | nacked hd ha _ => exact hadv _ _ hd ha
    | restamped hd ha => exact hadv _ _ hd ha
  | receive =>
    obtain ⟨_, _, _, _, -, -, rfl⟩ := step_receive hs
    exact hsize
  | loseData i =>
    obtain rfl := step_loseData hs
    exact hsize
  | loseAck i =>
    obtain rfl := step_loseAck hs
    exact hsize
  | truncate i =>
    obtain ⟨_, -, rfl⟩ := step_truncate hs
    exact hsize

/-- The sender takes a turn. -/
theorem exists_turn (h : (keepingAcks crc32).Reachable (init input) s)
    (hrun : s.sender.running = true) (hdata : s.data = []) {t g : ℕ} (hc : s.clock < t)
    (hg : 1 ≤ g) (hfits : t + 33 * g + timer.toNat < 2 ^ 32) :
    ∃ s', (keepingAcks crc32).Reachable s s' ∧ s'.receiver = s.receiver ∧ s'.acks = s.acks ∧
      s'.clock ≤ t + 33 * g ∧ Turn crc32 t g s.sender s'.sender s'.data := by
  obtain ⟨owner, va, vr, hgood⟩ := exists_good_of_keepingAcks h
  obtain ⟨readings, clock, sender, sent, hadv, hle, hloop, hturn⟩ := Sender.exists_turn crc32
    hgood.inv.sender hrun (size_ne_zero h) hgood.inv.timestamp_inj hc hg hfits
  have hstep : step crc32 s (.send false readings) = _ := step_send_eq hrun hadv rfl hloop
  refine ⟨_, (LTS.Reachable.refl s).tail (l := .send false readings)
    ⟨⟨ticks_of_advance hadv, ackSafe_of_heard rfl, trivial⟩, hstep⟩, rfl, rfl, hle, ?_⟩
  rw [hdata]
  exact hturn

/-- Everything on its way is lost, as long as none of it is an ACK. -/
theorem exists_quiet (hnone : ∀ r ∈ s.acks, acknowledged crc32 r = none) :
    ∃ s', (keepingAcks crc32).Reachable s s' ∧ s'.acks = [] ∧ s'.data = [] ∧
      s'.clock = s.clock := by
  obtain ⟨data, hdata⟩ : ∃ data, s.data = data := ⟨_, rfl⟩
  induction data generalizing s with
  | nil =>
    obtain ⟨acks, hacks⟩ : ∃ acks, s.acks = acks := ⟨_, rfl⟩
    induction acks generalizing s with
    | nil => exact ⟨s, .refl s, hacks, hdata, rfl⟩
    | cons r acks ih =>
      have hrest : s.acks.eraseIdx 0 = acks := by
        rw [hacks]
        rfl
      have hstep : step crc32 s (.loseAck 0) = some { s with acks := s.acks.eraseIdx 0 } :=
        if_pos (by rw [hacks]; exact Nat.succ_pos _)
      obtain ⟨s', hreach, hquiet⟩ := ih (s := { s with acks := s.acks.eraseIdx 0 })
        (fun x hx => hnone x (List.mem_of_mem_eraseIdx hx)) hdata hrest
      exact ⟨s', .head (l := .loseAck 0) ⟨⟨trivial, ackSafe_of_heard rfl, fun x hx =>
        hnone x (List.mem_of_getElem? hx)⟩, hstep⟩ hreach, hquiet⟩
  | cons d data ih =>
    obtain ⟨s₁, hfeeds, hdata₁, -, hacks₁⟩ := exists_drop crc32 [] hdata
    obtain ⟨s', hreach, hacks, hnil, hclock⟩ := ih (hacks₁ ▸ hnone) hdata₁
    exact ⟨s', hfeeds.reach.trans hreach, hacks, hnil, hclock.trans hfeeds.clock⟩

/-! ### Once the receiver has caught up -/

/-- The timer of a packet that has just been sent does not matter. -/
theorem Caught.of_inOrder (h : InOrder input crc32 s.sender.allocs s) (hdata : s.data = [])
    (hlen : s.acks.length ≤ 64)
    (hin : ∀ p ∈ s.sender.w.front, (∃ i r, s.acks[i]? = some r ∧ Acks crc32 p.timestamp r ∧
      s.clock + 4 * (i + 1) ≤ p.timestamp.toNat) ∨ s.clock + 256 ≤ p.timestamp.toNat) :
    Caught crc32 input s where
  order := h
  data := hdata
  length_le := hlen
  inTime p hp := by
    refine (hin p hp).elim id fun hlate => ?_
    obtain ⟨d, hd, -⟩ | ⟨r, hr, hack⟩ := h.answered p hp
    · rw [hdata] at hd
      cases hd
    · obtain ⟨i, hi, rfl⟩ := List.mem_iff_getElem.1 hr
      exact ⟨i, _, List.getElem?_eq_getElem hi, hack, by omega⟩

/-- **What the sender hears**: the oldest reply, if there is one, and then it holds no packet that
this reply answers. -/
theorem Caught.hear (h : Caught crc32 input s) (hinv : Inv crc32 input owner s) :
    ∃ hear ready acks w₁, hearFrom s.acks hear = some (ready, acks) ∧
      (∀ readings, Sender.receive crc32 s.sender.w ready readings = .ok (some (w₁, readings))) ∧
      ((s.acks = [] ∧ acks = [] ∧ w₁ = s.sender.w ∧ s.sender.w.front = []) ∨
        s.acks.length = acks.length + 1) ∧
      ∀ p ∈ w₁.front, ∃ i r, acks[i]? = some r ∧ Acks crc32 p.timestamp r ∧
        s.clock + 4 * (i + 2) ≤ p.timestamp.toNat := by
  have hindex := h.inTime
  have hacks := h.order.acks
  obtain ⟨acks, hall⟩ : ∃ acks, s.acks = acks := ⟨_, rfl⟩
  rw [hall] at hindex hacks ⊢
  cases acks with
  | nil =>
    have hnil : s.sender.w.front = [] := by
      rw [List.eq_nil_iff_forall_not_mem]
      intro p hp
      obtain ⟨i, r, hi, -⟩ := hindex p hp
      cases hi
    refine ⟨false, none, [], s.sender.w, rfl, fun _ => rfl, .inl ⟨rfl, rfl, rfl, hnil⟩, ?_⟩
    rw [hnil]
    exact fun p hp => absurd hp List.not_mem_nil
  | cons r acks =>
    obtain ⟨t, hack⟩ := hacks r (List.mem_cons_self ..)
    obtain ⟨a, ha, htype, ht, -⟩ := hack.received
    refine ⟨true, some r.bytes, acks, _, rfl,
      fun readings => Sender.receive_ack hinv.sender.standard ha htype readings, .inr rfl,
      fun p hp => ?_⟩
    obtain ⟨i, r', hi, hack', hle⟩ := hindex p ((Sender.sublist_acked s.sender.w a).subset hp)
    cases i with
    | zero =>
      obtain rfl := Option.some.inj hi
      exact absurd hack' (hinv.not_acks_of_mem_acked ha hp)
    | succ i => exact ⟨i, r', hi, hack', by omega⟩

/-- An iteration of the sender that hears a reply in time. -/
theorem Caught.send (h : Caught crc32 input s) (hinv : Inv crc32 input owner s)
    (hrun : s.sender.running = true) (hfits : s.clock + 2 + timer.toNat < 2 ^ 32) :
    ∃ s₁, ((lts crc32).restrict Ticks).Reachable s s₁ ∧ InOrder input crc32 s.sender.allocs s₁ ∧
      s₁.clock ≤ s.clock + 3 ∧
      (∀ p ∈ s₁.sender.w.front, (∃ i r, s₁.acks[i]? = some r ∧ Acks crc32 p.timestamp r ∧
        s.clock + 4 * (i + 2) ≤ p.timestamp.toNat) ∨ s.clock + timer.toNat ≤ p.timestamp.toNat) ∧
      ((s₁.sender.allocs = s.sender.allocs ∧ s.acks.length = s₁.acks.length + 1) ∨
        (s₁.sender.allocs = s.sender.allocs + 1 ∧ s₁.acks.length ≤ s.acks.length ∧
          s₁.acks.length ≤ 63)) := by
  obtain ⟨hear, ready, acks, w₁, hhear, hreceive, hacks, hfront⟩ := h.hear hinv
  obtain ⟨readings, clock, sender, sent, hadv, hle, hbefore, hloop, hnew, hroom⟩ :=
    Sender.exists_turn_of_late (c := s.clock) crc32 hinv.sender.standard hrun h.order.size hreceive
      (fun p hp => by obtain ⟨i, r, -, -, hle⟩ := hfront p hp; omega) hfits
  have hstep := step_send_eq hrun hadv hhear hloop
  have htimely : Timely s (.send hear readings) := by
    intro p hp now hnow
    obtain ⟨i, r, -, -, hle⟩ := h.inTime p hp
    have := hbefore now hnow
    omega
  refine ⟨_, (LTS.Reachable.refl s).tail (l := .send hear readings)
      ⟨ticks_of_advance hadv, hstep⟩,
    h.order.send hinv htimely hstep, hle, fun p hp => (hnew p hp).imp_left (hfront p), ?_⟩
  have hlen := h.length_le
  obtain ⟨hnil, rfl, rfl, hempty⟩ | hacks := hacks
  · -- the window is empty, so there is room
    have heof : s.sender.sentEof = false := by
      rw [← Bool.not_eq_true]
      intro heof
      rw [(Sender.running_eq_false_iff hinv.sender.standard.toWf).2 ⟨heof, hempty⟩] at hrun
      cases hrun
    have hfull : s.sender.w.full = false := by
      rw [Window.full_eq_false_iff hinv.sender.standard.toWf, hempty]
      exact Nat.pos_of_ne_zero h.order.size
    rcases hroom with ⟨-, -, hallocs⟩ | ⟨hfull' | heof', -⟩
    · exact .inr ⟨hallocs, Nat.zero_le _, Nat.zero_le _⟩
    · rw [hfull] at hfull'
      cases hfull'
    · rw [heof] at heof'
      cases heof'
  · rcases hroom with ⟨-, -, hallocs⟩ | ⟨-, hallocs⟩
    · refine .inr ⟨hallocs, ?_, ?_⟩
      · show acks.length ≤ _
        omega
      · show acks.length ≤ 63
        omega
    · exact .inl ⟨hallocs, hacks⟩

/-- **One round**: the sender hears a reply, and if it makes a new packet, the receiver takes that
at once.  The receiver stays up to date, and less remains to be done. -/
theorem Caught.round (h : Caught crc32 input s) (hinv : Inv crc32 input owner s)
    (hrun : s.sender.running = true) (hfits : s.clock + 2 + timer.toNat < 2 ^ 32) :
    ∃ s', ((lts crc32).restrict Ticks).Reachable s s' ∧ Caught crc32 input s' ∧
      s'.clock ≤ s.clock + 3 ∧ remaining input s' < remaining input s := by
  have htimer : timer.toNat = 4500000 := rfl
  obtain ⟨s₁, hreach, horder, hclock, hin, hnew⟩ := h.send hinv hrun hfits
  obtain ⟨owner₁, hinv₁⟩ := hinv.reachable hreach
  have hallocs := horder.allocs
  have hlen := h.length_le
  have hmade := hinv₁.sender.allocs_le
  rcases hnew with ⟨hsame, hacks⟩ | ⟨hsucc, hacks, hshort⟩
  · have hdata : s₁.data = [] := List.length_eq_zero_iff.1 (by omega)
    refine ⟨s₁, hreach, .of_inOrder (hsame.symm ▸ horder) hdata (by omega) fun p hp => ?_, hclock,
      ?_⟩
    · exact (hin p hp).imp (fun ⟨i, r, hi, hack, hle⟩ => ⟨i, r, hi, hack, by omega⟩)
        fun hle => by omega
    · rw [remaining, remaining, hsame]
      omega
  · obtain ⟨d, hdata⟩ := List.length_eq_one_iff.1 (by omega : s₁.data.length = 1)
    have hd : d ∈ s₁.data := hdata ▸ List.mem_singleton_self d
    obtain ⟨⟨receiver, reply⟩, hloop⟩ := hinv₁.receive_ok (hinv₁.data hd)
    have hstep := step_receive_eq crc32 hdata hloop
    obtain ⟨horder', hacks'⟩ := horder.receive hinv₁ hstep
    refine ⟨_, hreach.tail (l := .receive) ⟨trivial, hstep⟩,
      .of_inOrder ?_ rfl ?_ fun p hp => ?_, hclock, ?_⟩
    · show InOrder input crc32 s₁.sender.allocs _
      rw [hsucc]
      exact horder'
    · rw [hacks']
      omega
    · show _ ∨ s₁.clock + 256 ≤ _
      rcases hin p hp with ⟨i, r, hi, hack, hle⟩ | hle
      · have hi' : (s₁.acks ++ (reply.map fun bytes => ⟨bytes, receiver⟩).toList)[i]? = some r := by
          rw [List.getElem?_append_left (List.getElem?_eq_some_iff.1 hi).1]
          exact hi
        refine .inl ⟨i, r, hi', hack, ?_⟩
        show s₁.clock + _ ≤ _
        omega
      · exact .inr (by omega)
    · rw [remaining, remaining, hacks']
      show 2 * (input.length + 1 - s₁.sender.allocs) + _ < _
      omega

/-- A transfer whose receiver has caught up can be completed. -/
theorem Caught.exists_complete (h : Caught crc32 input s)
    (hinv : Inv crc32 input owner s)
    (hfits : s.clock + 4 * remaining input s + 2 + timer.toNat < 2 ^ 32) :
    ∃ s', ((lts crc32).restrict Ticks).Reachable s s' ∧ s'.sender.running = false ∧
      s'.receiver.outfile.flatten = (input.map Chunk.bytes).flatten := by
  have hround : ∀ s, ((∃ owner, Inv crc32 input owner s) ∧ Caught crc32 input s ∧
      s.clock + 4 * remaining input s + 2 + timer.toNat < 2 ^ 32) → ¬ s.sender.running = false →
      ∃ s', ((lts crc32).restrict Ticks).Reachable s s' ∧ ((∃ owner, Inv crc32 input owner s') ∧
        Caught crc32 input s' ∧ s'.clock + 4 * remaining input s' + 2 + timer.toNat < 2 ^ 32) ∧
        remaining input s' < remaining input s := by
    rintro s ⟨⟨owner, hinv⟩, hcaught, hfits⟩ hrun
    rw [Bool.not_eq_false] at hrun
    obtain ⟨s', hreach', hcaught', hclock, hlt⟩ := hcaught.round hinv hrun (by omega)
    exact ⟨s', hreach', ⟨hinv.reachable hreach', hcaught', by omega⟩, hlt⟩
  obtain ⟨s', hreach', ⟨⟨owner, hinv⟩, hcaught, -⟩, hdone⟩ :=
    LTS.exists_reachable_of_rank (remaining input) hround ⟨⟨owner, hinv⟩, h, hfits⟩
  obtain ⟨heof, -⟩ := (Sender.running_eq_false_iff hinv.sender.standard.toWf).1 hdone
  have hwritten := hcaught.order.written hinv
  rw [hcaught.data, hinv.take_allocs heof, List.map_nil, List.flatten_nil,
    List.append_nil] at hwritten
  exact ⟨s', hreach', hdone, hwritten⟩

/-! ### Catching up -/

/-- With all that has been sent the receiver has nothing left in its buffer. -/
theorem Good.inOrder (h : Good crc32 input owner 61 va vr s) (hdata : s.data = [])
    (hall : ∀ i < s.sender.allocs, (s.receiver.view input.length).Got i)
    (hacks : ∀ r ∈ s.acks, ∃ t, Acks crc32 t r) (hsize : s.sender.w.size ≠ 0)
    (hanswered : ∀ p ∈ s.sender.w.front, ∃ r ∈ s.acks, Acks crc32 p.timestamp r) :
    InOrder input crc32 s.sender.allocs s := by
  obtain ⟨m, hm⟩ := h.reads
  have hallocs := h.next_le_allocs
  have hlen := hm.next_le
  have hmade := h.inv.sender.allocs_le
  have hnext : m.next = min s.sender.allocs input.length := by
    rw [hm.next_eq] at hallocs
    by_contra hne
    have hlt : m.next < s.sender.allocs ∧ m.next < input.length := by omega
    exact hm.not_got (hm.next_eq ▸ hlt.2) (hm.next_eq ▸ hall m.next hlt.1)
  have hbuffer : s.receiver.w.front = [] := by
    rw [List.eq_nil_iff_forall_not_mem]
    intro q hq
    have hx := hm.held_of_mem hq
    have hlt := (h.inv.stored q hq).lt
    rw [show owner q.timestamp = _ from hm.own _ _ hx] at hlt
    have hle : m.next ≤ lift 256 m.next q.seqnum := le_lift
    have heq : lift 256 m.next q.seqnum = m.next := by omega
    rw [heq, hm.drained] at hx
    cases hx
  exact {
    data := by rw [hdata]; rfl
    allocs := by rw [hdata]; rfl
    bytes := by rw [hdata]; exact nofun
    buffer := hbuffer
    outfile := by
      rw [hm.flatten_outfile, flatten_map_payload_range hmade, hnext]
      congr 1
      rw [List.take_eq_take_iff, List.length_map]
      omega
    pos := by rw [hm.pos, hnext]
    acks := hacks
    size := hsize
    answered := fun p hp => .inr (hanswered p hp) }

/-- The sender holds the packet that the receiver waits for, if it holds any. -/
theorem exists_awaited (h : (keepingAcks crc32).Reachable (init input) s) (hacks : s.acks = [])
    (hne : s.sender.w.front ≠ []) :
    (∀ q ∈ s.sender.w.front, s.receiver.next ≤ q.addr) ∧
      ∃ p ∈ s.sender.w.front, p.addr = s.receiver.next := by
  obtain ⟨⟨owner, va, vr, hgood⟩, hup⟩ := exists_good_upToDate h
  have hle : ∀ q ∈ s.sender.w.front, s.receiver.next ≤ q.addr := fun q hq =>
    hgood.next_le_addr hup (hacks ▸ nofun) hq
  refine ⟨hle, ?_⟩
  obtain ⟨q, hq⟩ := List.exists_mem_of_ne_nil _ hne
  have hlt := hgood.inv.sender.addr_lt q hq
  have hmade := hgood.inv.sender.allocs_le
  have hqle := hle q hq
  by_cases hlen : s.receiver.next < input.length
  · exact hgood.exists_next (hqle.trans_lt hlt) hlen
  · -- what is left is the packet that signals the end
    exact ⟨q, hq, by omega⟩

/-- The sender holds `p`, the packet that the receiver waits for, and of what it holds the receiver
has got, and has answered, all that has a later deadline. -/
structure Awaits (crc32 : List Byte → BitVec 32) (input : List Chunk) (p : PktPtr) (s : System) :
    Prop where
  data : s.data = []
  mem : p ∈ s.sender.w.front
  addr : p.addr = s.receiver.next
  le_addr : ∀ q ∈ s.sender.w.front, s.receiver.next ≤ q.addr
  later : ∀ q ∈ s.sender.w.front, p.timestamp.toNat < q.timestamp.toNat →
    p.timestamp.toNat + 1024 ≤ q.timestamp.toNat ∧
      (s.receiver.view input.length).Got q.addr ∧ ∃ r ∈ s.acks, Acks crc32 q.timestamp r
  acks : ∀ r ∈ s.acks, ∃ t, Acks crc32 t r
  length_le : s.acks.length ≤ 32

/-- Every deadline is less than `TIMER` away. -/
theorem Inv.timestamp_lt (h : Inv crc32 input owner s) (hfits : s.clock + timer.toNat ≤ 2 ^ 32)
    (hp : p ∈ s.sender.w.front) : p.timestamp.toNat < s.clock + timer.toNat := by
  obtain ⟨now, hlt, hts⟩ := (h.buffered p hp).1
  rw [hts, BitVec.toNat_add, BitVec.toNat_ofNat, Nat.mod_add_mod, Nat.mod_eq_of_lt (by omega)]
  omega

/-- **The first turn**: everything that the sender holds is sent again, and what has a later
deadline than the packet that the receiver waits for is delivered. -/
theorem exists_awaits (h : (keepingAcks crc32).Reachable (init input) s) (hdata : s.data = [])
    (hacks : s.acks = []) (hrun : s.sender.running = true)
    (hfits : s.clock + 3 * timer.toNat ≤ 2 ^ 32) :
    ∃ s', (keepingAcks crc32).Reachable s s' ∧ (s'.sender.running = false ∨
      ∃ p, Awaits crc32 input p s' ∧ s'.sender.running = true ∧ s'.clock < p.timestamp.toNat ∧
        p.timestamp.toNat ≤ s.clock + 2 * timer.toNat + 32768) := by
  have htimer : timer.toNat = 4500000 := rfl
  obtain ⟨owner, va, vr, hgood⟩ := exists_good_of_keepingAcks h
  obtain ⟨s₁, hreach, hreceiver, hacks₁, hclock, hturn⟩ := exists_turn h hrun hdata
    (t := s.clock + timer.toNat) (g := 1024) (by omega) (by decide) (by omega)
  by_cases hrun₁ : s₁.sender.running = true
  swap
  · exact ⟨s₁, hreach, .inl (Bool.eq_false_of_not_eq_true hrun₁)⟩
  have h₁ := h.trans hreach
  rw [hacks] at hacks₁
  obtain ⟨owner₁, va₁, vr₁, hgood₁⟩ := exists_good_of_keepingAcks h₁
  have hne : s₁.sender.w.front ≠ [] := by
    cases heof : s₁.sender.sentEof with
    | false => exact hturn.nonempty heof
    | true =>
      exact Sender.front_ne_nil hgood₁.inv.sender.standard hrun₁ (by rw [heof, Bool.or_true])
  obtain ⟨hle, p, hp, haddr⟩ := exists_awaited h₁ hacks₁ hne
  -- everything has been sent in this turn
  have hsent : ∀ q ∈ s₁.sender.w.front, ∃ d ∈ s₁.data, d.pkt = q := by
    intro q hq
    refine (hturn.sent_or_kept q hq).resolve_right fun ⟨hq, hlt⟩ => ?_
    have := hgood.inv.timestamp_lt (by omega) hq
    omega
  have hbeyond : ∀ d ∈ s₁.data, p.timestamp.toNat < d.pkt.timestamp.toNat →
      d.bytes = (d.pkt.pkt.sealed crc32).image ∧ s₁.receiver.next < d.pkt.addr := by
    intro d hd hlt
    obtain ⟨hbytes, hmem⟩ := hturn.made d hd
    refine ⟨hbytes, Nat.lt_of_le_of_ne (hle _ hmem) fun heq => ?_⟩
    rw [hgood₁.inv.sender.inj hp hmem (haddr.trans heq)] at hlt
    exact Nat.lt_irrefl _ hlt
  obtain ⟨s', hfeeds, hdata', hnext, hall, -⟩ :=
    exists_feed h₁ (List.append_nil s₁.data).symm _ hbeyond
  obtain ⟨dp, hdp, hdpp⟩ := hsent p hp
  have hstamp := hturn.stamped dp hdp
  rw [hdpp] at hstamp
  refine ⟨s', hreach.trans hfeeds.reach, .inr ⟨p, ⟨hdata', ?_, ?_, ?_, fun q hq hlt => ?_, ?_, ?_⟩,
    ?_, ?_, by omega⟩⟩
  · rwa [hfeeds.sender]
  · rw [haddr, hnext]
  · rw [hfeeds.sender, hnext]
    exact hle
  · rw [hfeeds.sender] at hq
    obtain ⟨d, hd, rfl⟩ := hsent q hq
    refine ⟨?_, hall d hd hlt⟩
    -- the readings of the turn were 1024 apart
    rw [← hdpp] at hlt ⊢
    exact hturn.add_le_of_lt hdp hd hlt
  · obtain ⟨replies, hreplies, hall⟩ := hfeeds.acks
    rw [hreplies, hacks₁]
    exact hall
  · have hlen := hfeeds.length_le
    have hsent := hturn.length_le
    rw [hdata', hacks₁, List.length_nil, List.length_nil] at hlen
    omega
  · rwa [hfeeds.sender]
  · rw [hfeeds.clock]
    omega

/-- The datagrams of the second turn are delivered: first those that come early, then the one that
the receiver waits for, and then the new one. -/
theorem Awaits.feed (h : Awaits crc32 input p s)
    (hreach : (keepingAcks crc32).Reachable (init input) s)
    (hreach₁ : (keepingAcks crc32).Reachable s s') (hreceiver : s'.receiver = s.receiver)
    (hturn : Turn crc32 p.timestamp.toNat 1 s.sender s'.sender s'.data) :
    ∃ s'', Feeds crc32 input s' s'' ∧ s''.data = [] ∧
      ∀ d ∈ s'.data, (s''.receiver.view input.length).Got d.pkt.addr ∧
        ∃ r ∈ s''.acks, Acks crc32 d.pkt.timestamp r := by
  obtain ⟨owner, va, vr, hgood⟩ := exists_good_of_keepingAcks hreach
  have h₁ := hreach.trans hreach₁
  obtain ⟨early, d, new, hsplit, hdp, hearly, hnew, hone⟩ := hturn.last p h.mem rfl
  have hbytes : ∀ x ∈ early ++ d :: new, x.bytes = (x.pkt.pkt.sealed crc32).image := fun x hx =>
    (hturn.made x (hsplit ▸ hx)).1
  have hlt : ∀ x ∈ early, x.pkt.addr < s.sender.allocs ∧ s.receiver.next < x.pkt.addr := by
    intro x hx
    obtain ⟨hmem, hne⟩ := hearly x hx
    obtain ⟨q, hq, hqx⟩ := List.mem_map.1 hmem
    rw [h.addr] at hne
    rw [← hqx] at hne ⊢
    exact ⟨hgood.inv.sender.addr_lt q hq, Nat.lt_of_le_of_ne (h.le_addr q hq) hne.symm⟩
  obtain ⟨s₂, hfeeds₂, hdata₂, hnext₂, hall₂, honly₂⟩ :=
    exists_feed h₁ hsplit (fun _ => True) fun x hx _ =>
      ⟨hbytes x (List.mem_append_left _ hx), hreceiver ▸ (hlt x hx).2⟩
  rw [hreceiver] at hnext₂ honly₂
  have h₂ := h₁.trans hfeeds₂.reach
  obtain ⟨owner₂, va₂, vr₂, hgood₂⟩ := exists_good_of_keepingAcks h₂
  obtain ⟨s₃, hfeeds₃, hdata₃, hgot₃, ⟨r₃, hr₃, hack₃⟩, honly₃⟩ :=
    hgood₂.feed hdata₂ (hbytes d (List.mem_append_right _ (List.mem_cons_self ..)))
      (by rw [hnext₂, hdp, h.addr])
  have h₃ := h₂.trans hfeeds₃.reach
  obtain ⟨owner₃, va₃, vr₃, hgood₃⟩ := exists_good_of_keepingAcks h₃
  -- the receiver may be waiting for the new packet now
  have hnext₃ : s₃.receiver.next ≤ s.sender.allocs := by
    refine View.next_le (v := s₃.receiver.view input.length) fun j hj => ?_
    rcases honly₃ j hj with hj | rfl
    · rcases honly₂ j hj with hj | ⟨x, hx, rfl⟩
      · exact hgood.got_lt j hj
      · exact (hlt x hx).1
    · rw [hdp]
      exact hgood.inv.sender.addr_lt p h.mem
  obtain ⟨s₄, hfeeds₄, hdata₄, hall₄⟩ : ∃ s₄, Feeds crc32 input s₃ s₄ ∧ s₄.data = [] ∧
      ∀ x ∈ new, (s₄.receiver.view input.length).Got x.pkt.addr ∧
        ∃ r ∈ s₄.acks, Acks crc32 x.pkt.timestamp r := by
    cases new with
    | nil => exact ⟨s₃, .refl s₃, hdata₃, fun x hx => absurd hx List.not_mem_nil⟩
    | cons e new =>
      obtain rfl : new = [] := by simpa using hone
      obtain ⟨s₄, hfeeds₄, hdata₄, hgot₄, hack₄, -⟩ := hgood₃.feed hdata₃
        (hbytes e (List.mem_append_right _ (List.mem_cons_of_mem d (List.mem_singleton_self e))))
        ((hnew e (List.mem_singleton_self e)).symm ▸ hnext₃)
      exact ⟨s₄, hfeeds₄, hdata₄, fun x hx => List.mem_singleton.1 hx ▸ ⟨hgot₄, hack₄⟩⟩
  refine ⟨s₄, (hfeeds₂.trans hfeeds₃).trans hfeeds₄, hdata₄, fun x hx => ?_⟩
  rw [hsplit] at hx
  rcases List.mem_append.1 hx with hx | hx
  · obtain ⟨hgot, r, hr, hack⟩ := hall₂ x hx trivial
    exact ⟨hgot.mono (hfeeds₃.trans hfeeds₄).view, r, (hfeeds₃.trans hfeeds₄).mem_acks hr, hack⟩
  · rcases List.mem_cons.1 hx with rfl | hx
    · exact ⟨hgot₃.mono hfeeds₄.view, r₃, hfeeds₄.mem_acks hr₃, hack₃⟩
    · exact hall₄ x hx

/-- **The second turn**: the timer of the packet that the receiver waits for has expired, and now
the receiver catches up. -/
theorem Awaits.exists_caught (h : Awaits crc32 input p s)
    (hreach : (keepingAcks crc32).Reachable (init input) s) (hrun : s.sender.running = true)
    (hclock : s.clock < p.timestamp.toNat)
    (hfits : p.timestamp.toNat + 33 + timer.toNat < 2 ^ 32) :
    ∃ s', (keepingAcks crc32).Reachable s s' ∧ Caught crc32 input s' ∧
      s'.clock ≤ p.timestamp.toNat + 33 := by
  have htimer : timer.toNat = 4500000 := rfl
  obtain ⟨s₁, hreach₁, hreceiver, hacks, hclock₁, hturn⟩ :=
    exists_turn hreach hrun h.data (g := 1) hclock le_rfl (by omega)
  obtain ⟨s', hfeeds, hdata, hall⟩ := h.feed hreach hreach₁ hreceiver hturn
  have h' := (hreach.trans hreach₁).trans hfeeds.reach
  obtain ⟨owner, va, vr, hgood⟩ := exists_good_of_keepingAcks h'
  have hheld : ∀ q ∈ s'.sender.w.front, (s'.receiver.view input.length).Got q.addr ∧
      (∃ r ∈ s'.acks, Acks crc32 q.timestamp r) ∧ s'.clock + 256 ≤ q.timestamp.toNat := by
    intro q hq
    rw [hfeeds.sender] at hq
    rw [hfeeds.clock]
    rcases hturn.sent_or_kept q hq with ⟨d, hd, rfl⟩ | ⟨hq, hlt⟩
    · have := hturn.stamped d hd
      obtain ⟨hgot, hack⟩ := hall d hd
      exact ⟨hgot, hack, by omega⟩
    · obtain ⟨hle, hgot, r, hr, hack⟩ := h.later q hq hlt
      rw [← hreceiver] at hgot
      rw [← hacks] at hr
      exact ⟨hgot.mono hfeeds.view, ⟨r, hfeeds.mem_acks hr, hack⟩, by omega⟩
  have hlen := hfeeds.length_le
  have hsent := hturn.length_le
  have hbefore := h.length_le
  rw [hdata, List.length_nil, hacks] at hlen
  refine ⟨s', hreach₁.trans hfeeds.reach, .of_inOrder ?_ hdata (by omega) fun q hq =>
    .inr (hheld q hq).2.2, by rw [hfeeds.clock]; omega⟩
  refine hgood.inOrder hdata (fun i hi => ?_) (hfeeds.acks_of_acks (hacks ▸ h.acks))
    (size_ne_zero h') fun q hq => (hheld q hq).2.1
  by_cases hmem : i ∈ addrs s'.sender.w
  · obtain ⟨q, hq, rfl⟩ := List.mem_map.1 hmem
    exact (hheld q hq).1
  · exact hgood.got hi hmem

/-! ### Completion -/

theorem reachable_of_keepingAcks (h : (keepingAcks crc32).Reachable s s') :
    ((lts crc32).restrict Ticks).Reachable s s' :=
  h.mono fun _ _ _ hs => ⟨hs.1.1, hs.2⟩

/-- **A transfer that has lost no ACK can be completed**: once no ACK is on its way, whatever has
been lost or truncated before, the network and the two programs can go on so that the sender stops
and the file has been written, if the clock leaves time for it. -/
theorem can_complete
    (h : ((lts crc32).restrict fun s e =>
      Ticks s e ∧ AckSafe crc32 s e ∧ KeepsAcks crc32 s e).Reachable (init input) s)
    (hnone : ∀ r ∈ s.acks, acknowledged crc32 r = none)
    (hfits : s.clock + 4 * timer.toNat + 8 * input.length ≤ 2 ^ 32) :
    ∃ s', ((lts crc32).restrict Ticks).Reachable s s' ∧ s'.sender.running = false ∧
      s'.receiver.outfile.flatten = (input.map Chunk.bytes).flatten := by
  have htimer : timer.toNat = 4500000 := rfl
  have hdone : ∀ s', (keepingAcks crc32).Reachable s s' → s'.sender.running = false →
      ∃ s', ((lts crc32).restrict Ticks).Reachable s s' ∧ s'.sender.running = false ∧
        s'.receiver.outfile.flatten = (input.map Chunk.bytes).flatten := by
    intro s' hreach hrun
    obtain ⟨owner, va, vr, hgood⟩ := exists_good_of_keepingAcks (h.trans hreach)
    exact ⟨s', reachable_of_keepingAcks hreach, hrun, hgood.complete hrun⟩
  -- nothing is in flight any more
  obtain ⟨s₁, h₁, hacks₁, hdata₁, hclock₁⟩ := exists_quiet hnone
  by_cases hrun₁ : s₁.sender.running = true
  swap
  · exact hdone s₁ h₁ (Bool.eq_false_of_not_eq_true hrun₁)
  obtain ⟨s₂, hreach₂, hstopped | ⟨p, hawaits, hrun₂, hclock₂, hle⟩⟩ :=
    exists_awaits (h.trans h₁) hdata₁ hacks₁ hrun₁ (by omega)
  · exact hdone s₂ (h₁.trans hreach₂) hstopped
  have h₂ := h₁.trans hreach₂
  obtain ⟨s₃, hreach₃, hcaught, hclock₃⟩ :=
    hawaits.exists_caught (h.trans h₂) hrun₂ hclock₂ (by omega)
  have h₃ := h₂.trans hreach₃
  have hremaining : remaining input s₃ ≤ 2 * (input.length + 1) + 64 := by
    have := hcaught.length_le
    rw [remaining]
    omega
  obtain ⟨owner, va, vr, hgood⟩ := exists_good_of_keepingAcks (h.trans h₃)
  obtain ⟨s', hreach', hstopped, hwritten⟩ := hcaught.exists_complete hgood.inv (by omega)
  exact ⟨s', (reachable_of_keepingAcks h₃).trans hreach', hstopped, hwritten⟩

/-- A file of three bytes: the second packet is lost, and the third one has come early. -/
theorem can_complete_three_bytes :
    ∃ s s', s.receiver.outfile = [[0x60]] ∧ s.receiver.w.front.length = 1 ∧ s.data = [] ∧
      ((lts Crc32.crc32).restrict Ticks).Reachable s s' ∧ s'.sender.running = false ∧
      s'.receiver.outfile.flatten = [0x60, 0x61, 0x62] := by
  have hrun : (LTS.run (fun s e =>
        if Ticks s e ∧ AckSafe Crc32.crc32 s e ∧ KeepsAcks Crc32.crc32 s e then
          step Crc32.crc32 s e else none)
      (init [byte 0x60, byte 0x61, byte 0x62]) [.send false [0, 1], .receive, .send true [2, 3, 4],
        .send false [5, 6], .loseData 0, .receive, .send true [7, 8], .loseData 0]).map (fun s =>
          (s.acks, s.data, s.receiver.outfile, s.receiver.w.front.length, s.clock)) =
      some ([], [], [[0x60]], 1, 9) := by
    decide +kernel
  obtain ⟨s, hs, hmap⟩ := Option.map_eq_some_iff.1 hrun
  simp only [Prod.mk.injEq] at hmap
  obtain ⟨hacks, hdata, hout, hearly, hclock⟩ := hmap
  have hfits : s.clock + 4 * timer.toNat + 8 * 3 ≤ 2 ^ 32 := by
    rw [hclock]
    decide
  obtain ⟨s', hreach, hstopped, hwritten⟩ :=
    can_complete (LTS.reachable_of_checked_run hs) (hacks ▸ nofun) hfits
  exact ⟨s, s', hout, hearly, hdata, hreach, hstopped, hwritten⟩

end LosslessTransport.System
