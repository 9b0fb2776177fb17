import LosslessTransport.System.Retransmission
import LosslessTransport.System.Safe
import LosslessTransport.System.Transfer

/-!
# When a transfer stops for good

The receiver ignores a packet that it has written already, without a reply.  In a run in which the
sender understands the ACKs that makes retransmission exact: it works for the packets that the
receiver has not written, among them always the packet that signals the end (it does not slide the
window), and for no other (`effective_iff_unwritten`).

So when no reply is on its way, everything that the sender holds has been written, and it may not
send anything new, nothing will ever happen again: it retransmits for good, however the network
behaves (`stuck_forever`).  That takes no more than the loss of the first ACK, for every file that
is not empty (`stops_after_first_ack_lost`).
-/

namespace LosslessTransport.System

open Circular SelectiveRepeat
open Sender (Chunk Sent addrs payload)

/-- Nothing can change any more: no reply is on its way, the receiver's window has none of the
packets that are on their way or held, and the sender may not make a new one. -/
structure Stuck (s : System) : Prop where
  silent : s.acks = []
  data : ∀ d ∈ s.data, s.receiver.w.has d.pkt.seqnum = false
  buffered : ∀ p ∈ s.sender.w.front, s.receiver.w.has p.seqnum = false
  waits : s.sender.w.full = true ∨ s.sender.sentEof = true
  holds : s.sender.w.front ≠ []

variable {crc32 : List Byte → BitVec 32} {input : List Chunk} {owner : BitVec 32 → ℕ}
  {s s' : System} {lim : ℕ} {va vr : View} {p : PktPtr}

/-! ### Which retransmissions are effective -/

/-- A packet near the receiver's next one lies in its window if it has not been written. -/
theorem Good.has_iff (h : Good crc32 input owner lim va vr s) {i : ℕ}
    (hlag : s.receiver.next ≤ i + 64) (hlt : i < s.sender.allocs) :
    s.receiver.w.has (i % 256) = true ↔ s.receiver.next ≤ i := by
  obtain ⟨m, hm⟩ := h.reads
  have hnear := h.near
  have hpos : s.receiver.w.pos = s.receiver.next % 256 := by
    rw [hm.next_eq]
    exact hm.pos
  rw [h.inv.receiver.standard.has_iff (Nat.mod_lt _ (by decide)), h.inv.receiver.size_eq, hpos]
  rcases Nat.lt_or_ge i s.receiver.next with hwritten | hle
  · have hdist := dist_mod (M := 256) (k := s.receiver.next) (i := i + 256) (by omega) (by omega)
    rw [Nat.add_mod_right] at hdist
    omega
  · have hdist := dist_mod (M := 256) (k := s.receiver.next) (i := i) hle (by omega)
    omega

/-- The packets that the sender holds are near the receiver's next one. -/
theorem Good.lag_le (h : Good crc32 input owner 61 va vr s) (hp : p ∈ s.sender.w.front) :
    s.receiver.next ≤ p.addr + 64 := by
  have := h.sending.out.ahead p.addr (List.mem_map_of_mem hp)
  have := h.sending.spread
  have := h.next_le_allocs
  omega

theorem Good.has_of_held (h : Good crc32 input owner 61 va vr s) (hp : p ∈ s.sender.w.front) :
    s.receiver.w.has p.seqnum = true ↔ s.receiver.next ≤ p.addr := by
  rw [(h.inv.sender.carries p hp).seqnum_eq]
  exact h.has_iff (h.lag_le hp) (h.inv.sender.addr_lt p hp)

/-- **Which retransmissions are effective**: in a run in which the sender understands the ACKs,
those of the packets that the receiver has not written; the packet that signals the end is always
among them. -/
theorem effective_iff_unwritten
    (h : ((lts crc32).restrict fun s e => Ticks s e ∧ AckSafe crc32 s e).Reachable (init input) s)
    (hp : p ∈ s.sender.w.front) :
    (Effective crc32 s p ↔ s.receiver.next ≤ p.addr) ∧
      (p.pkt.getLength = 0 → Effective crc32 s p) := by
  obtain ⟨owner, va, vr, hgood⟩ := exists_good h
  have hiff : Effective crc32 s p ↔ s.receiver.next ≤ p.addr := by
    rw [← hgood.has_of_held hp]
    exact ⟨hgood.inv.has_of_effective hp, hgood.inv.effective_of_has hp⟩
  refine ⟨hiff, fun hzero => hiff.2 ?_⟩
  -- the empty packet is the last of the stream
  have hcarries := hgood.inv.sender.carries p hp
  have hnil : payload input p.addr = [] := by
    rw [← List.length_eq_zero_iff, ← hcarries.length, hzero]
    rfl
  obtain ⟨m, hm⟩ := hgood.reads
  rw [hm.next_eq]
  exact hm.next_le.trans ((Sender.payload_eq_nil_iff _).1 hnil)

/-- After a file of one byte, the packet that signals the end. -/
theorem effective_iff_unwritten_eof :
    ∃ s p, ((lts Crc32.crc32).restrict fun s e => Ticks s e ∧ AckSafe Crc32.crc32 s e).Reachable
        (init [byte 0x60]) s ∧
      p ∈ s.sender.w.front ∧ p.addr = 1 ∧ Effective Crc32.crc32 s p := by
  have hrun : (LTS.run
      (fun s e => if Ticks s e ∧ AckSafe Crc32.crc32 s e then step Crc32.crc32 s e else none)
      (init [byte 0x60]) [.send false [0, 1], .receive, .send true [2, 3, 4], .receive,
        .loseAck 0]).map (fun s => s.sender.w.front.map fun p => (p.addr, p.pkt.getLength)) =
      some [(1, 0)] := by
    decide +kernel
  obtain ⟨s, hs, hfront⟩ := Option.map_eq_some_iff.1 hrun
  obtain ⟨p, rest, hfront, hp, -⟩ := List.map_eq_cons_iff.1 hfront
  obtain ⟨haddr, hzero⟩ := Prod.mk.inj hp
  have hmem : p ∈ s.sender.w.front := hfront ▸ List.mem_cons_self ..
  have h := LTS.reachable_of_checked_run hs
  exact ⟨s, p, h, hmem, haddr, (effective_iff_unwritten h hmem).2 hzero⟩

/-! ### Stuck for good -/

/-- What does not change. -/
structure Same (s s' : System) : Prop where
  window : s'.receiver.w = s.receiver.w
  outfile : s'.receiver.outfile = s.receiver.outfile
  allocs : s'.sender.allocs = s.sender.allocs
  addrs : addrs s'.sender.w = addrs s.sender.w

theorem Same.trans {s'' : System} (h : Same s s') (h' : Same s' s'') : Same s s'' :=
  ⟨h'.window.trans h.window, h'.outfile.trans h.outfile, h'.allocs.trans h.allocs,
    h'.addrs.trans h.addrs⟩

/-- A datagram of a packet outside the receiver's window changes nothing. -/
theorem Untimed.mainLoop_of_not_has (h : Untimed crc32 input s) {d : Sent} (hd : d ∈ s.data)
    (hhas : s.receiver.w.has d.pkt.seqnum = false) :
    Receiver.mainLoop crc32 d.bytes s.receiver =
      .ok ({ s.receiver with allocs := s.receiver.allocs + 1 }, none) := by
  have hconveys := h.conveyed d hd
  obtain ⟨q, hq, hseq, -⟩ := hconveys.received
  refine Receiver.mainLoop_of_not_has hq ?_
  rw [hseq, ← hconveys.carries.seqnum_eq, hhas]
  decide

/-- The number of every packet that the sender holds lies outside the receiver's window. -/
theorem Stuck.has_of_addrs (h : Stuck s) (hinv : Untimed crc32 input s) {i : ℕ}
    (hi : i ∈ addrs s.sender.w) : s.receiver.w.has (i % 256) = false := by
  obtain ⟨p, hp, rfl⟩ := List.mem_map.1 hi
  rw [← (hinv.sender.carries p hp).seqnum_eq]
  exact h.buffered p hp

/-- **An iteration of a sender that is stuck** retransmits, or waits. -/
theorem Stuck.send (h : Stuck s) (hinv : Untimed crc32 input s) {hear : Bool}
    {readings : List ℕ} (hs : step crc32 s (.send hear readings) = some s') :
    Stuck s' ∧ Same s s' := by
  obtain ⟨ready, acks, sender, sent, hhear, hloop, rfl⟩ := step_send hs
  obtain ⟨-, rfl, rfl⟩ | ⟨r, -, -, hacks⟩ := hearFrom_cases hhear
  swap
  · rw [h.silent] at hacks
    cases hacks
  obtain ⟨hinv', w₁, _, _, hresp, -, hsize, hallocs, hsent⟩ :=
    Sender.mainLoop_spec hinv.sender hloop
  obtain rfl : w₁ = s.sender.w := by
    cases hresp with
    | ignored => rfl
    | acked hd => cases hd
    | nacked hd => cases hd
    | restamped hd => cases hd
  obtain ⟨hsame, haddrs⟩ : sender.allocs = s.sender.allocs ∧ addrs sender.w = addrs s.sender.w := by
    rcases hallocs with hsame | ⟨-, -, hroom, heof⟩
    · exact hsame
    · rw [Sender.length_addrs] at hroom
      rcases h.waits with hfull | heof'
      · rw [(Window.full_eq_false_iff hinv.sender.standard.toWf).2 hroom] at hfull
        cases hfull
      · rw [heof] at heof'
        cases heof'
  have hlen : sender.w.front.length = s.sender.w.front.length := by
    rw [← Sender.length_addrs, haddrs, Sender.length_addrs]
  refine ⟨⟨h.silent, fun d hd => ?_, fun p hp => ?_, ?_, ?_⟩, rfl, rfl, hsame, haddrs⟩
  · rcases List.mem_append.1 hd with hd | hd
    · exact h.data d hd
    · obtain ⟨hok, hmem⟩ := hsent d hd
      rw [hok.carries.seqnum_eq]
      exact h.has_of_addrs hinv (haddrs ▸ hmem)
  · rw [(hinv'.carries p hp).seqnum_eq]
    exact h.has_of_addrs hinv (haddrs ▸ List.mem_map_of_mem hp)
  · refine h.waits.imp (fun hfull => ?_) fun heof => ?_
    · rw [← Bool.not_eq_false, Window.full_eq_false_iff hinv.sender.standard.toWf] at hfull
      rw [← Bool.not_eq_false, Window.full_eq_false_iff hinv'.standard.toWf, hlen, hsize]
      exact hfull
    · rw [hinv'.sentEof_iff, hsame]
      exact hinv.sender.sentEof_iff.1 heof
  · intro hnil
    refine h.holds (List.length_eq_zero_iff.1 ?_)
    rw [← hlen, hnil, List.length_nil]

/-- **Every step** of a system that is stuck. -/
theorem Stuck.step (h : Stuck s) (hinv : Untimed crc32 input s) {e : Event}
    (hs : System.step crc32 s e = some s') : Stuck s' ∧ Same s s' := by
  cases e with
  | send hear readings => exact h.send hinv hs
  | receive =>
    obtain ⟨d, data, receiver, reply, hdata, hloop, rfl⟩ := step_receive hs
    have hd : d ∈ s.data := hdata ▸ List.mem_cons_self ..
    rw [hinv.mainLoop_of_not_has hd (h.data d hd)] at hloop
    cases hloop
    refine ⟨{ h with silent := ?_, data := fun d' hd' => ?_ }, rfl, rfl, rfl, rfl⟩
    · rw [h.silent]
      rfl
    · exact h.data d' (hdata ▸ List.mem_cons_of_mem d hd')
  | loseData i =>
    obtain rfl := step_loseData hs
    exact ⟨{ h with data := fun d hd => h.data d (Links.mem_of_mem_eraseIdx hd) }, rfl, rfl, rfl,
      rfl⟩
  | loseAck i =>
    obtain rfl := step_loseAck hs
    refine ⟨{ h with silent := ?_ }, rfl, rfl, rfl, rfl⟩
    rw [h.silent]
    rfl
  | truncate i =>
    obtain ⟨d, hd, rfl⟩ := step_truncate hs
    refine ⟨{ h with data := fun d' hd' => ?_ }, rfl, rfl, rfl, rfl⟩
    rcases List.mem_or_eq_of_mem_set hd' with hd' | rfl
    · exact h.data d' hd'
    · exact h.data d (List.mem_of_getElem? hd)

theorem Stuck.running (h : Stuck s) (hinv : Untimed crc32 input s) :
    s.sender.running = true := by
  rw [← Bool.not_eq_false]
  intro hrun
  exact h.holds ((Sender.running_eq_false_iff hinv.sender.standard.toWf).1 hrun).2

/-- A system that is stuck stays so. -/
theorem Stuck.reachable (h : Stuck s) (hinv : Untimed crc32 input s)
    (h' : (lts crc32).Reachable s s') :
    s'.sender.running = true ∧ s'.acks = [] ∧ Same s s' := by
  have hall := h'.invariant (I := fun s' => Untimed crc32 input s' ∧ Stuck s' ∧ Same s s')
    ⟨hinv, h, rfl, rfl, rfl, rfl⟩ ?_
  · obtain ⟨hinv', hstuck', hsame⟩ := hall
    exact ⟨hstuck'.running hinv', hstuck'.silent, hsame⟩
  · rintro s₁ e s₂ ⟨hinv₁, hstuck, hsame⟩ hs
    obtain ⟨hstuck', hsame'⟩ := hstuck.step hinv₁ hs
    exact ⟨hinv₁.step hs, hstuck', hsame.trans hsame'⟩

/-- **Stuck for good**: in a run in which the sender understands the ACKs, once it holds something,
everything that it holds and everything that is on its way has been written, no reply is on its way,
and the window is full or the end of the file has been sent, then, whatever happens and whatever the
clock says, the sender goes on with the same packets for ever, and the receiver writes nothing
more. -/
theorem stuck_forever
    (h : ((lts crc32).restrict fun s e => Ticks s e ∧ AckSafe crc32 s e).Reachable (init input) s)
    (hacks : s.acks = []) (hdata : ∀ d ∈ s.data, d.pkt.addr < s.receiver.next)
    (hbuf : ∀ p ∈ s.sender.w.front, p.addr < s.receiver.next)
    (hwaits : s.sender.w.full = true ∨ s.sender.sentEof = true) (hne : s.sender.w.front ≠ [])
    (h' : (lts crc32).Reachable s s') :
    s'.sender.running = true ∧ addrs s'.sender.w = addrs s.sender.w ∧ s'.acks = [] ∧
      s'.receiver.outfile = s.receiver.outfile := by
  obtain ⟨owner, va, vr, hgood⟩ := exists_good h
  have hstuck : Stuck s := by
    refine ⟨hacks, fun d hd => ?_, fun p hp => ?_, hwaits, hne⟩
    · have hconveys := hgood.inv.conveyed d hd
      have hlag : s.receiver.next ≤ d.pkt.addr + 64 :=
        View.next_le (hgood.recent.view d.pkt.addr (List.mem_map_of_mem hd))
      rw [hconveys.carries.seqnum_eq, Bool.eq_false_iff, Ne, hgood.has_iff hlag hconveys.addr_lt]
      exact Nat.not_le.2 (hdata d hd)
    · rw [Bool.eq_false_iff, Ne, hgood.has_of_held hp]
      exact Nat.not_le.2 (hbuf p hp)
  obtain ⟨hrunning, hacks', hsame⟩ := hstuck.reachable hgood.inv.toUntimed h'
  exact ⟨hrunning, hsame.addrs, hacks', hsame.outfile⟩

/-- A file of one byte, whose ACK is lost: the packet has been retransmitted, and ignored. -/
theorem stuck_forever_one_byte :
    ∃ s s', ((lts Crc32.crc32).restrict fun s e => Ticks s e ∧ AckSafe Crc32.crc32 s e).Reachable
        (init [byte 0x60]) s ∧
      (lts Crc32.crc32).Reachable s s' ∧ s'.sender.running = true ∧
      s'.receiver.outfile = [[0x60]] := by
  have hrun : (LTS.run
      (fun s e => if Ticks s e ∧ AckSafe Crc32.crc32 s e then step Crc32.crc32 s e else none)
      (init [byte 0x60]) [.send false [0, 1], .receive, .loseAck 0]).map (fun s =>
        ((s.acks.length, s.data.length), s.receiver.outfile, s.sender.w.full,
          s.sender.w.front.map PktPtr.addr, (LTS.run (step Crc32.crc32) s
            [.send false [4500001, 4500002, 4500003], .receive]).isSome)) =
      some ((0, 0), [[0x60]], true, [0], true) := by
    decide +kernel
  obtain ⟨s, hs, hmap⟩ := Option.map_eq_some_iff.1 hrun
  simp only [Prod.mk.injEq] at hmap
  obtain ⟨⟨hacks, hdata⟩, hout, hfull, haddrs, hrun'⟩ := hmap
  rw [List.length_eq_zero_iff] at hacks hdata
  obtain ⟨s', hs'⟩ := Option.isSome_iff_exists.1 hrun'
  have h := LTS.reachable_of_checked_run hs
  have h' := LTS.reachable_of_run hs'
  have hnext : s.receiver.next = 1 := by rw [Receiver.State.next, hout]; rfl
  have hbuf : ∀ p ∈ s.sender.w.front, p.addr < s.receiver.next := by
    intro p hp
    have hmem := List.mem_map_of_mem (f := PktPtr.addr) hp
    rw [haddrs, List.mem_singleton] at hmem
    omega
  have hne : s.sender.w.front ≠ [] := by
    rintro hnil
    rw [hnil] at haddrs
    cases haddrs
  obtain ⟨hrunning, -, -, hout'⟩ :=
    stuck_forever h hacks (hdata ▸ nofun) hbuf (.inl hfull) hne h'
  exact ⟨s, s', h, h', hrunning, hout'.trans hout⟩

/-! ### The first ACK -/

/-- The first iteration makes the first packet, whatever the clock says. -/
theorem exists_first_sent (crc32 : List Byte → BitVec 32) (input : List Chunk) (a b : ℕ) :
    ∃ p, p.Carries (0 % 256) (payload input 0) ∧
      Sender.mainLoop crc32 none [a, b] (Sender.init input) =
        .ok ((Sender.init input).added p, [⟨⟨0, p⟩, (p.sealed crc32).image⟩], []) := by
  have hwait : Sender.await none [a, b] (Sender.init input) = .ok [a, b] := rfl
  have hreceive : Sender.receive crc32 (Sender.init input).w none [a, b] =
      .ok (some ((Sender.init input).w, [a, b])) := rfl
  have hretr : Sender.retransmitExpired crc32 (BitVec.ofNat 32 a) [b] (Sender.init input).w =
      .ok ((Sender.init input).w, [], [b]) := rfl
  obtain ⟨p, hp, -, hloop⟩ := Sender.mainLoop_eq hwait hreceive hretr rfl rfl
  rw [(Sender.Inv.init input).data_eq] at hp
  exact ⟨p, hp, hloop⟩

/-- The first packet is sent, received and written, and the ACK is lost.  The window of the sender
is 1 until it hears an ACK. -/
theorem exists_first_ack_lost (crc32 : List Byte → BitVec 32) (c : Chunk) (rest : List Chunk)
    (a b : ℕ) :
    ∃ s, LTS.run (step crc32) (init (c :: rest)) [.send false [a, b], .receive, .loseAck 0] =
      some s ∧ s.receiver.outfile = [c.bytes] ∧ Stuck s := by
  obtain ⟨p, hp, hloop⟩ := exists_first_sent crc32 (c :: rest) a b
  have hrecv := receive_in_sequence crc32 Receiver.Inv.init rfl (Nat.succ_pos rest.length) rfl hp
  have hstep₁ : step crc32 (init (c :: rest)) (.send false [a, b]) = some _ :=
    step_send_of_mainLoop rfl rfl hloop
  rw [LTS.run, hstep₁, Option.bind_some, LTS.run, step_receive_eq crc32 rfl hrecv,
    Option.bind_some]
  refine ⟨_, rfl, rfl, rfl, fun _ h => absurd h List.not_mem_nil, ?_, .inl rfl,
    List.cons_ne_nil _ _⟩
  intro q hq
  obtain rfl := List.mem_singleton.1 hq
  have hseq : PktPtr.seqnum ⟨0, p⟩ = 0 := hp.seqnum
  have hslid : ({ Receiver.init.w with pos := 1 } : Window).has 0 = false := by decide
  exact (congrArg (Window.has _) hseq).trans hslid

/-- **The first ACK is lost**, and the transfer has stopped: for every file that is not empty,
whatever the clock says and whatever happens from then on, the sender runs for ever, and the
receiver has written the first piece and writes nothing more. -/
theorem stops_after_first_ack_lost (crc32 : List Byte → BitVec 32) (c : Chunk) (rest : List Chunk)
    (a b : ℕ) :
    ∃ s, LTS.run (step crc32) (init (c :: rest)) [.send false [a, b], .receive, .loseAck 0] =
      some s ∧ ∀ s', (lts crc32).Reachable s s' →
        s'.sender.running = true ∧ s'.receiver.outfile = [c.bytes] := by
  obtain ⟨s, hrun, hout, hstuck⟩ := exists_first_ack_lost crc32 c rest a b
  have hinv := untimed_of_reachable (LTS.reachable_of_run hrun)
  refine ⟨s, hrun, fun s' h' => ?_⟩
  obtain ⟨hrunning, -, hsame⟩ := hstuck.reachable hinv h'
  exact ⟨hrunning, hsame.outfile.trans hout⟩

theorem stops_after_first_ack_lost_one_byte :
    ∃ s, LTS.run (step Crc32.crc32) (init [byte 0x60]) [.send false [0, 1], .receive, .loseAck 0] =
      some s ∧ ∀ s', (lts Crc32.crc32).Reachable s s' →
        s'.sender.running = true ∧ s'.receiver.outfile = [[0x60]] :=
  stops_after_first_ack_lost Crc32.crc32 (byte 0x60) [] 0 1

end LosslessTransport.System
