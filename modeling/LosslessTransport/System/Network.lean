import LosslessTransport.Lib.Crc32
import LosslessTransport.Sender.Stream
import LosslessTransport.System.View

/-!
# Over any network

`Network` is the sender and the receiver with everything in between given up: any datagram that the
sender has ever sent may arrive at any time, any number of times, whole or truncated, and so may any
datagram that `pkt_decode` refuses.  What the sender hears is anything at all, and so is its clock.

A sequence number has 8 bits, so a datagram that arrives late enough is taken for a later packet.
`Network.output_prefix_of_fresh` says that nothing else goes wrong: if no datagram arrives that is
more than 225 packets behind the receiver, or 256 ahead of it, what has been written is a prefix of
the input.  A file of at most 255 pieces is too short for a confusion, so there the network may do
as it likes (`Network.output_prefix_of_short`).

As long as the clock of the sender does not wrap, the receiver comes through on every datagram of
such a network (`Network.never_aborts`).
-/

namespace LosslessTransport

open Circular SelectiveRepeat
open Sender (Chunk Sent payload)
open Receiver (Reassembler Refines content reassemble)

/-- The sender, the receiver, and all that has been sent. -/
structure Network where
  sender : Sender.State
  receiver : Receiver.State
  /-- The datagrams the sender has sent, oldest first. -/
  sent : List Sent
  /-- Past every reading taken so far, while they increase.  No step reads it. -/
  clock : ℕ

namespace Network

/-- What can happen. -/
inductive Event where
  /-- An iteration of the sender that takes these readings; it hears this datagram, or none. -/
  | send (ready : Option (List Byte)) (readings : List ℕ)
  /-- The datagram sent as number `i` arrives, whole or truncated. -/
  | deliver (i : ℕ) (whole : Bool)
  /-- A datagram arrives that is refused. -/
  | noise (datagram : List Byte)

/-- The state at the start. -/
def init (infile : List Chunk) : Network where
  sender := Sender.init infile
  receiver := Receiver.init
  sent := []
  clock := 0

variable (crc32 : List Byte → BitVec 32)

/-- The datagram that arrives at the receiver. -/
def arriving (s : Network) : Event → Option (List Byte)
  | .send _ _ => none
  | .deliver i whole =>
    (s.sent[i]?).map fun d => if whole then d.bytes else System.truncated d.bytes
  | .noise datagram => if (received crc32 datagram).isNone then some datagram else none

/-- An iteration of the receiver. -/
def receive (s : Network) (datagram : List Byte) : Option Network :=
  match Receiver.mainLoop crc32 datagram s.receiver with
  | .ok (receiver, _) => some { s with receiver := receiver }
  | .error _ => none

/-- One step. -/
def step (s : Network) : Event → Option Network
  | .send ready readings =>
    if s.sender.running then
      match Sender.mainLoop crc32 ready readings s.sender with
      | .ok (sender, sent, []) =>
        some { s with
          sender := sender
          sent := s.sent ++ sent
          clock := (Sender.advance s.clock readings).getD s.clock }
      | _ => none
    else none
  | e => (arriving crc32 s e).bind (receive crc32 s)

/-- The network as a transition system. -/
def lts : LTS Network Event := LTS.ofStep (step crc32)

/-- A datagram that arrives is of a packet at most 225 behind the receiver, and less than 256 ahead
of it. -/
def Fresh (s : Network) : Event → Prop
  | .deliver i _ => ∀ d ∈ s.sent[i]?,
    s.receiver.next ≤ d.pkt.addr + 225 ∧ d.pkt.addr < s.receiver.next + 256
  | _ => True

/-- The readings of the clock increase strictly and fit 32 bits. -/
def Ticks (s : Network) : Event → Prop
  | .send _ readings => (Sender.advance s.clock readings).isSome
  | _ => True

instance (s : Network) (e : Event) : Decidable (Fresh s e) :=
  match e with
  | .send _ _ | .noise _ => .isTrue trivial
  | .deliver i _ => inferInstanceAs (Decidable (∀ d ∈ s.sent[i]?, _))

instance (s : Network) (e : Event) : Decidable (Ticks s e) :=
  match e with
  | .send _ _ => inferInstanceAs (Decidable (_ = true))
  | .deliver _ _ | .noise _ => .isTrue trivial

variable (input : List Chunk)

/-- A reassembler that follows the stream: it has output the first payloads, and what it holds at
the index of a packet is that packet. -/
structure Follows (m : Reassembler) : Prop where
  next_le : m.next ≤ input.length
  output : m.output = (List.range m.next).map (payload input)
  held : ∀ i ≤ input.length, ∀ x, m.held i = some x → x.Carries (i % 256) (payload input i)

variable {crc32 input} {s s' : Network} {m : Reassembler} {d : Sent} {i n : ℕ} {x : Pkt}

/-! ### Following the stream -/

theorem Follows.init : Follows input .init where
  next_le := Nat.zero_le _
  output := rfl
  held := nofun

theorem Follows.offer (h : Follows input m)
    (hx : i < m.next + 31 → i ≤ input.length → x.Carries (i % 256) (payload input i)) :
    Follows input (m.offer i x) := by
  refine ⟨?_, ?_, fun j hj y hy => ?_⟩
  · rw [Reassembly.Machine.next_offer]
    exact h.next_le
  · rw [Reassembly.Machine.output_offer, Reassembly.Machine.next_offer]
    exact h.output
  · rcases Reassembly.Machine.held_or_offered hy with hold | ⟨rfl, rfl⟩
    · exact h.held j hj y hold
    · have hreach := ((m.offer j y).range j y hy).2
      rw [Reassembly.Machine.next_offer] at hreach
      exact hx hreach hj

/-- The loop stops at the end of the stream at the latest. -/
theorem Follows.drain (h : Follows input m) : Follows input (m.drain content) := by
  refine Reassembly.Machine.drain_induction
    (motive := fun m m' => Follows input m → Follows input m') (fun _ _ h => h) ?_ ?_ m h
  · intro m x _ _ h
    refine ⟨h.next_le, h.output, fun i hi y hy => ?_⟩
    by_cases hin : i = m.next
    · rw [hin, Reassembly.Machine.held_next_drop] at hy
      cases hy
    · rw [Reassembly.Machine.held_drop_of_ne hin] at hy
      exact h.held i hi y hy
  · intro m x b m' hx hb ih h
    have hcarries := h.held m.next h.next_le x hx
    unfold content at hb
    split_ifs at hb with hlen
    obtain rfl : x.payloadBytes = b := Option.some.inj hb
    -- the packet has a payload, so it is not the one that signals the end
    have hlt : m.next < input.length := by
      refine Nat.lt_of_not_le fun hle => hlen ?_
      rw [← Receiver.payloadBytes_eq_nil_iff, hcarries.payload]
      exact (Sender.payload_eq_nil_iff _).2 hle
    refine ih ⟨hlt, ?_, fun i hi y hy => ?_⟩
    · show m.output ++ [x.payloadBytes] = (List.range (m.next + 1)).map (payload input)
      rw [List.range_succ, List.map_append, h.output, hcarries.payload]
      rfl
    · by_cases hin : i = m.next
      · rw [hin, Reassembly.Machine.held_next_deliver] at hy
        cases hy
      · rw [Reassembly.Machine.held_deliver_of_ne hin] at hy
        exact h.held i hi y hy

/-- A datagram that is offered at the index of its own packet, or where no packet of the stream
belongs. -/
theorem Follows.reassemble (h : Follows input m) {datagram : List Byte}
    (hd : ∀ p, received crc32 datagram = some p → p.getTr = 0 →
      lift 256 m.next p.getSeqnum.toNat < m.next + 31 →
      lift 256 m.next p.getSeqnum.toNat ≤ input.length →
      p.Carries (lift 256 m.next p.getSeqnum.toNat % 256)
        (payload input (lift 256 m.next p.getSeqnum.toNat))) :
    Follows input (reassemble crc32 m datagram) := by
  unfold Receiver.reassemble
  cases hrec : received crc32 datagram with
  | none => exact h
  | some p =>
    dsimp only
    split_ifs with htr
    · exact (h.offer (hd p hrec htr)).drain
    · exact h

/-! ### What arrives -/

/-- What arrives is the packet, whole or truncated. -/
theorem conveys_of_arriving (h : System.Conveys crc32 input n d) (whole : Bool) :
    System.Conveys crc32 input n
      { d with bytes := if whole then d.bytes else System.truncated d.bytes } := by
  cases whole with
  | true => exact h
  | false => exact h.truncate

/-- The receiver gets the packet whole, or with TR set. -/
theorem received_of_ok (hd : d.Ok crc32 input n) (whole : Bool) :
    ∃ p, received crc32 (if whole then d.bytes else System.truncated d.bytes) = some p ∧
      p.getSeqnum.toNat = d.pkt.addr % 256 ∧
      (p.getTr = 0 → p.Carries (d.pkt.addr % 256) (payload input d.pkt.addr)) := by
  have hconveys : System.Conveys crc32 input n d := ⟨hd.carries, hd.addr_lt, .inl hd.bytes⟩
  obtain ⟨p, hp, hseq, hwhole⟩ := (conveys_of_arriving hconveys whole).received
  exact ⟨p, hp, hseq, fun htr => (hwhole htr).2.1⟩

/-- What holds in every state that the network lets come. -/
structure Inv (crc32 : List Byte → BitVec 32) (input : List Chunk) (s : Network) : Prop where
  stream : Sender.Stream.Inv crc32 input ⟨s.sender, s.sent⟩
  receiver : Receiver.Inv s.receiver
  reads : ∃ m, Refines s.receiver m ∧ Follows input m

theorem Inv.init (input : List Chunk) : Inv crc32 input (init input) where
  stream := Sender.Stream.Inv.init input
  receiver := Receiver.Inv.init
  reads := ⟨_, Receiver.Refines.init, Follows.init⟩

theorem step_send {ready : Option (List Byte)} {readings : List ℕ}
    (h : step crc32 s (.send ready readings) = some s') :
    ∃ sender sent, Sender.mainLoop crc32 ready readings s.sender = .ok (sender, sent, []) ∧
      s' = { s with
        sender := sender
        sent := s.sent ++ sent
        clock := (Sender.advance s.clock readings).getD s.clock } := by
  rw [step] at h
  split_ifs at h
  split at h
  · rename_i sender sent hloop
    cases h
    exact ⟨sender, sent, hloop, rfl⟩
  · cases h

theorem receive_cases {datagram : List Byte} (h : receive crc32 s datagram = some s') :
    ∃ receiver reply, Receiver.mainLoop crc32 datagram s.receiver = .ok (receiver, reply) ∧
      s' = { s with receiver := receiver } := by
  unfold receive at h
  split at h
  · rename_i receiver reply hloop
    cases h
    exact ⟨receiver, reply, hloop, rfl⟩
  · cases h

/-- **What a step does**: an iteration of the sender, or one of the receiver on a datagram that has
been sent, or on one that is refused. -/
theorem step_cases {e : Event} (h : step crc32 s e = some s') :
    (∃ ready readings sender sent, e = .send ready readings ∧
      Sender.mainLoop crc32 ready readings s.sender = .ok (sender, sent, []) ∧
      s' = { s with
        sender := sender
        sent := s.sent ++ sent
        clock := (Sender.advance s.clock readings).getD s.clock }) ∨
    (∃ i whole d receiver reply, e = .deliver i whole ∧ s.sent[i]? = some d ∧
      Receiver.mainLoop crc32 (if whole then d.bytes else System.truncated d.bytes) s.receiver =
        .ok (receiver, reply) ∧ s' = { s with receiver := receiver }) ∨
    ∃ datagram receiver reply, e = .noise datagram ∧ received crc32 datagram = none ∧
      Receiver.mainLoop crc32 datagram s.receiver = .ok (receiver, reply) ∧
      s' = { s with receiver := receiver } := by
  cases e with
  | send ready readings =>
    obtain ⟨sender, sent, hloop, hs'⟩ := step_send h
    exact .inl ⟨ready, readings, sender, sent, rfl, hloop, hs'⟩
  | deliver i whole =>
    obtain ⟨datagram, harr, hrecv⟩ := Option.bind_eq_some_iff.1 h
    obtain ⟨d, hd, rfl⟩ := Option.map_eq_some_iff.1 harr
    obtain ⟨receiver, reply, hloop, hs'⟩ := receive_cases hrecv
    exact .inr (.inl ⟨i, whole, d, receiver, reply, rfl, hd, hloop, hs'⟩)
  | noise datagram =>
    obtain ⟨_, harr, hrecv⟩ := Option.bind_eq_some_iff.1 h
    rw [arriving] at harr
    split_ifs at harr with hnone
    cases harr
    obtain ⟨receiver, reply, hloop, hs'⟩ := receive_cases hrecv
    rw [Option.isNone_iff_eq_none] at hnone
    exact .inr (.inr ⟨datagram, receiver, reply, rfl, hnone, hloop, hs'⟩)

/-- The index at which a datagram of packet `j` is offered is `j`, if it is that of a packet. -/
def Unmistaken (input : List Chunk) (k j : ℕ) : Prop :=
  lift 256 k (j % 256) < k + 31 → lift 256 k (j % 256) ≤ input.length → lift 256 k (j % 256) = j

/-- A packet near the receiver's next one is offered at its own index. -/
theorem unmistaken_of_near {k j : ℕ} (hlag : k ≤ j + 225) (hahead : j < k + 256) :
    Unmistaken input k j := by
  intro hlt _
  have hmod : lift 256 k (j % 256) % 256 = j % 256 := lift_mod (Nat.mod_lt _ (by decide))
  have hle : k ≤ lift 256 k (j % 256) := le_lift
  omega

/-- In a short stream the sequence numbers are the indices. -/
theorem unmistaken_of_short (hlen : input.length ≤ 255) {k j : ℕ} (hj : j ≤ input.length) :
    Unmistaken input k j := by
  intro _ hle
  have hmod : lift 256 k (j % 256) % 256 = j % 256 := lift_mod (Nat.mod_lt _ (by decide))
  omega

/-- **A step keeps the invariant** when the datagram that arrives, if it has been sent, is not
mistaken for another packet of the stream. -/
theorem Inv.step (h : Inv crc32 input s) {e : Event} (hs : Network.step crc32 s e = some s')
    (hfresh : ∀ i whole d, e = .deliver i whole → s.sent[i]? = some d →
      Unmistaken input s.receiver.next d.pkt.addr) : Inv crc32 input s' := by
  obtain ⟨m, hm, hfollows⟩ := h.reads
  obtain ⟨ready, readings, sender, sent, rfl, hloop, rfl⟩ |
    ⟨i, whole, d, receiver, reply, rfl, hd, hloop, rfl⟩ |
    ⟨datagram, receiver, reply, rfl, hnone, hloop, rfl⟩ := step_cases hs
  · refine ⟨?_, h.receiver, m, hm, hfollows⟩
    exact h.stream.step (l := (ready, readings)) ⟨sent, [], hloop, rfl⟩
  · refine ⟨h.stream, h.receiver.mainLoop hloop, _, hm.mainLoop h.receiver hloop, ?_⟩
    obtain ⟨p, hp, hseq, hcarries⟩ := received_of_ok (h.stream.made d (List.mem_of_getElem? hd))
      whole
    have hindex := hfresh i whole d rfl hd
    rw [Unmistaken, hm.next_eq] at hindex
    refine hfollows.reassemble fun q hq htr hlt hle => ?_
    obtain rfl := Option.some.inj (hq.symm.trans hp)
    rw [hseq] at hlt hle ⊢
    rw [hindex hlt hle]
    exact hcarries htr
  · refine ⟨h.stream, h.receiver.mainLoop hloop, m, ?_, hfollows⟩
    have hsame := hm.mainLoop h.receiver hloop
    rwa [reassemble, hnone] at hsame

/-- What has been written is a prefix of the input. -/
theorem Inv.begins_input (h : Inv crc32 input s) :
    s.receiver.outfile.flatten <+: (input.map Chunk.bytes).flatten := by
  obtain ⟨m, hm, hfollows⟩ := h.reads
  refine ⟨((input.map Chunk.bytes).drop m.next).flatten, ?_⟩
  rw [← List.flatten_filter_ne_nil, hm.output, hfollows.output,
    Sender.map_payload_range hfollows.next_le, ← List.flatten_append, List.take_append_drop]

theorem inv_of_short (hlen : input.length ≤ 255) (h : (lts crc32).Reachable (init input) s) :
    Inv crc32 input s := by
  refine h.invariant (Inv.init input) fun s e s' hinv hs => hinv.step hs ?_
  intro i whole d _ hd
  have hlt := (hinv.stream.made d (List.mem_of_getElem? hd)).addr_lt
  have hle := hinv.stream.sender.allocs_le
  exact unmistaken_of_short hlen (by omega)

theorem Inv.step_of_fresh (h : Inv crc32 input s) {e : Event}
    (hs : Network.step crc32 s e = some s') (hfresh : Fresh s e) : Inv crc32 input s' := by
  refine h.step hs fun i whole d he hd => ?_
  subst he
  obtain ⟨hlag, hahead⟩ := hfresh d hd
  exact unmistaken_of_near hlag hahead

theorem inv_of_fresh (h : ((lts crc32).restrict Fresh).Reachable (init input) s) :
    Inv crc32 input s :=
  h.invariant (Inv.init input) fun _ _ _ hinv hs => hinv.step_of_fresh hs.2 hs.1

/-- **A short file** over any network: if it is read in at most 255 pieces, what has been written
is a prefix of it, whatever is lost, delayed, repeated, reordered or truncated, and whatever the
sender hears. -/
theorem output_prefix_of_short (hlen : input.length ≤ 255)
    (h : (lts crc32).Reachable (init input) s) :
    s.receiver.outfile.flatten <+: (input.map Chunk.bytes).flatten :=
  (inv_of_short hlen h).begins_input

/-- Packet 1 arrives before packet 0, and again after it. -/
def scrambled : List Event :=
  [.send none [0, 1],
   .send (some [0x9F, 200, 0, 0, 0, 0, 0, 0, 0x6C, 0x70, 0xA8, 0xD8]) [2, 3, 4],
   .deliver 1 true, .noise [1, 2, 3], .deliver 0 false, .deliver 0 true, .deliver 1 true]

/-- The sender is made to let go of packet 0 by an ACK that the receiver has not sent. -/
theorem exists_scrambled :
    ∃ s, ((lts Crc32.crc32).restrict fun s e => Fresh s e ∧ Ticks s e).Reachable
        (init [System.byte 0x60, System.byte 0x61]) s ∧
      s.receiver.outfile = [[0x60], [0x61]] ∧ s.sent.length = 2 := by
  have hrun : (LTS.run (fun s e => if Fresh s e ∧ Ticks s e then step Crc32.crc32 s e else none)
      (init [System.byte 0x60, System.byte 0x61]) scrambled).map
      (fun s => (s.receiver.outfile, s.sent.length)) = some ([[0x60], [0x61]], 2) := by
    decide +kernel
  obtain ⟨s, hs, hout⟩ := Option.map_eq_some_iff.1 hrun
  obtain ⟨hout, hlen⟩ := Prod.mk.inj hout
  exact ⟨s, LTS.reachable_of_checked_run hs, hout, hlen⟩

/-- A file of two pieces. -/
theorem output_prefix_of_short_scrambled :
    ∃ s, (lts Crc32.crc32).Reachable (init [System.byte 0x60, System.byte 0x61]) s ∧
      s.receiver.outfile = [[0x60], [0x61]] ∧ s.receiver.outfile.flatten <+: [0x60, 0x61] := by
  obtain ⟨s, h, hout, -⟩ := exists_scrambled
  have hreach := h.mono (B := lts Crc32.crc32) fun _ _ _ hs => hs.2
  exact ⟨s, hreach, hout, output_prefix_of_short (by decide) hreach⟩

/-- **A file of any length** over a network from which no datagram arrives that is more than 225
packets behind the receiver, or 256 ahead of it. -/
theorem output_prefix_of_fresh (h : ((lts crc32).restrict Fresh).Reachable (init input) s) :
    s.receiver.outfile.flatten <+: (input.map Chunk.bytes).flatten :=
  (inv_of_fresh h).begins_input

theorem output_prefix_of_fresh_scrambled :
    ∃ s, ((lts Crc32.crc32).restrict Fresh).Reachable
        (init [System.byte 0x60, System.byte 0x61]) s ∧
      s.receiver.outfile = [[0x60], [0x61]] ∧ s.receiver.outfile.flatten <+: [0x60, 0x61] := by
  obtain ⟨s, h, hout, -⟩ := exists_scrambled
  have hreach := h.mono (B := (lts Crc32.crc32).restrict Fresh) fun _ _ _ hs => ⟨hs.1.1, hs.2⟩
  exact ⟨s, hreach, hout, output_prefix_of_fresh hreach⟩

/-! ### What has been got -/

/-- The packets in the receiver's buffer are packets of the stream. -/
def InStream (input : List Chunk) (st : Receiver.State) : Prop :=
  ∀ q ∈ st.w.front, lift 256 st.next q.seqnum ≤ input.length

/-- In the stream the only empty packet is the last one. -/
theorem Follows.eq_length (h : Follows input m)
    (hin : ∀ j x, m.held j = some x → j ≤ input.length) :
    ∀ j x, m.held j = some x → x.payloadBytes = [] → j = input.length := by
  intro j x hx hnil
  have hle := hin j x hx
  rw [(h.held j hle x hx).payload] at hnil
  have := (Sender.payload_eq_nil_iff j).1 hnil
  omega

theorem le_length_of_inStream {st : Receiver.State} (hm : Refines st m) (hin : InStream input st) :
    ∀ j x, m.held j = some x → j ≤ input.length := by
  intro j x hx
  obtain ⟨q, hq, -, rfl⟩ := (hm.held j x).1 hx
  have hle := hin q hq
  rwa [hm.next_eq] at hle

/-- **An iteration of the receiver** on a datagram near its next one: it keeps what it has got, and
gets the packet if it comes whole and lies in the window. -/
theorem Inv.view_receive (h : Inv crc32 input s) (hin : InStream input s.receiver)
    (hd : d ∈ s.sent) (hlag : s.receiver.next ≤ d.pkt.addr + 225)
    (hahead : d.pkt.addr < s.receiver.next + 256) {whole : Bool} {receiver : Receiver.State}
    {reply : Option (List Byte)}
    (hloop : Receiver.mainLoop crc32 (if whole then d.bytes else System.truncated d.bytes)
      s.receiver = .ok (receiver, reply)) :
    InStream input receiver ∧
    s.receiver.view input.length ≤ receiver.view input.length ∧
    (whole = true → s.receiver.next ≤ d.pkt.addr → d.pkt.addr < s.receiver.next + 31 →
      (receiver.view input.length).Got d.pkt.addr) := by
  obtain ⟨m, hm, hfollows⟩ := h.reads
  have hok := h.stream.made d hd
  have haddr : d.pkt.addr ≤ input.length := by
    have := hok.addr_lt
    have hle : s.sender.allocs ≤ input.length + 1 := h.stream.sender.allocs_le
    dsimp only at this
    omega
  obtain ⟨p, hp, hseq, hcarries⟩ := received_of_ok hok whole
  rw [hm.next_eq] at hlag hahead
  -- a packet in the window that comes whole is neither ignored nor answered with a NACK
  have hhas_iff : s.receiver.w.has p.getSeqnum.toNat ↔
      dist 256 (m.next % 256) (d.pkt.addr % 256) < 31 := by
    rw [h.receiver.standard.has_iff p.getSeqnum.isLt, h.receiver.size_eq, hseq, hm.pos]
  have hhas_of_mem : s.receiver.next ≤ d.pkt.addr → d.pkt.addr < s.receiver.next + 31 →
      s.receiver.w.has p.getSeqnum.toNat := by
    intro hle hlt
    rw [hm.next_eq] at hle hlt
    rw [hhas_iff, dist_mod hle (by omega)]
    omega
  obtain ⟨rfl, rfl, hnot⟩ | ⟨p', hp', -, htr, rfl, rfl⟩ | ⟨p', hp', hhas, htr, hbuf, hs, -, rfl⟩ :=
    Receiver.mainLoop_cases h.receiver hloop
  · exact ⟨hin, le_refl (s.receiver.view _), fun _ hle hlt =>
      absurd (hhas_of_mem hle hlt) (hnot p hp)⟩
  · refine ⟨hin, le_refl (s.receiver.view _), fun hwhole _ _ => absurd ?_ htr⟩
    obtain rfl := Option.some.inj (hp'.symm.trans hp)
    obtain ⟨q, hq, hagree⟩ := received_image crc32 hok.carries.type_ne hok.carries.getLength_le
      (.inl hok.carries.type)
    rw [if_pos hwhole, hok.bytes, hq, Option.some.injEq] at hp
    exact hp ▸ hagree.tr.trans hok.carries.tr
  obtain rfl := Option.some.inj (hp'.symm.trans hp)
  have hdist := hhas_iff.1 hhas
  have hlift : lift 256 m.next p'.getSeqnum.toNat = d.pkt.addr := by
    have hmod : lift 256 m.next (d.pkt.addr % 256) % 256 = d.pkt.addr % 256 :=
      lift_mod (Nat.mod_lt _ (by decide))
    rw [hseq]
    rw [lift] at hmod ⊢
    omega
  -- the state with the packet in the buffer, before the drain loop
  let st : Receiver.State := { s.receiver with
    w := Receiver.arrive s.receiver.w (s.receiver.alloc p') }
  have hrep : Receiver.Represents st.w st.outfile (m.offer d.pkt.addr p') := by
    rw [← hlift]
    refine hm.toRepresents.arrive ?_
    rwa [hm.pos, hseq]
  have hrep' := hrep.drain hbuf hs
  have hbounded : ∀ j x, (m.offer d.pkt.addr p').held j = some x → j ≤ input.length := by
    intro j x hx
    rcases Reassembly.Machine.held_or_offered hx with hx | ⟨rfl, -⟩
    · exact le_length_of_inStream hm hin j x hx
    · exact haddr
  have hoffer : Follows input (m.offer d.pkt.addr p') :=
    hfollows.offer fun _ _ => hcarries htr
  have hgot : ∀ j, (receiver.view input.length).Got j ↔ (st.view input.length).Got j := fun _ =>
    hrep.got_drain_iff (hoffer.eq_length hbounded) hbuf hs
  refine ⟨fun q hq => ?_, ⟨?_, fun j hj => (hgot j).2 ((hm.got_offer hrep rfl).1 hj)⟩,
    fun _ _ _ => (hgot _).2 ?_⟩
  · rw [hrep'.next_eq]
    exact hbounded _ _ (Reassembly.Machine.held_of_held_drain _ _ _ (hrep'.held_of_mem hq))
  · show s.receiver.next ≤ receiver.next
    rw [hm.next_eq, hrep'.next_eq, ← Reassembly.Machine.next_offer (i := d.pkt.addr) (x := p')]
    exact Reassembly.Machine.next_le_drain _
  · obtain ⟨q, hq, hqs, -⟩ := Receiver.exists_mem_arrive (w := s.receiver.w)
      (p := s.receiver.alloc p')
    refine Receiver.got_iff.2 (.inr (.inl ⟨q, hq, ?_⟩))
    rw [hrep.next_eq, Reassembly.Machine.next_offer, hqs]
    exact hlift

/-- A datagram that is refused changes nothing but the count of the packets received. -/
theorem receiver_of_noise {datagram : List Byte} (hnone : received crc32 datagram = none)
    {receiver : Receiver.State} {reply : Option (List Byte)}
    (hloop : Receiver.mainLoop crc32 datagram s.receiver = .ok (receiver, reply)) :
    receiver = { s.receiver with allocs := s.receiver.allocs + 1 } := by
  rw [Receiver.mainLoop_of_not_received hnone] at hloop
  cases hloop
  rfl

/-- A step loses nothing of what has been got, if the datagram that arrives is fresh. -/
theorem Inv.view_step (h : Inv crc32 input s) (hin : InStream input s.receiver) {e : Event}
    (hs : Network.step crc32 s e = some s') (hfresh : Fresh s e) :
    InStream input s'.receiver ∧
      s.receiver.view input.length ≤ s'.receiver.view input.length := by
  obtain ⟨_, _, _, _, rfl, -, rfl⟩ | ⟨i, whole, d, receiver, reply, rfl, hd, hloop, rfl⟩ |
    ⟨datagram, receiver, reply, rfl, hnone, hloop, rfl⟩ := step_cases hs
  · exact ⟨hin, le_rfl⟩
  · obtain ⟨hlag, hahead⟩ := hfresh d hd
    obtain ⟨hin', hle, -⟩ := h.view_receive hin (List.mem_of_getElem? hd) hlag hahead hloop
    exact ⟨hin', hle⟩
  · obtain rfl := receiver_of_noise hnone hloop
    exact ⟨hin, le_refl (s.receiver.view _)⟩

/-- A receiver that has got every packet with a payload has written them all. -/
theorem Inv.complete (h : Inv crc32 input s)
    (hall : ∀ j < input.length, (s.receiver.view input.length).Got j) :
    s.receiver.outfile.flatten = (input.map Chunk.bytes).flatten := by
  obtain ⟨m, hm, hfollows⟩ := h.reads
  -- the next packet is neither written nor held, so it is not one with a payload
  have hnext : m.next = input.length := by
    refine Nat.le_antisymm hfollows.next_le (Nat.le_of_not_lt fun hlt => ?_)
    rcases hm.got_iff.1 (hall m.next hlt) with hlt | ⟨x, hx⟩ | ⟨-, heq⟩
    · exact Nat.lt_irrefl _ hlt
    · rw [hm.drained] at hx
      cases hx
    · omega
  rw [← List.flatten_filter_ne_nil, hm.output, hfollows.output, hnext,
    Sender.map_payload_range le_rfl, List.take_of_length_le (List.length_map ..).le]

/-- **A fresh network loses nothing that has arrived**: a packet that has come whole when the
receiver's window had it is got for good, and when all have been got the file is complete. -/
theorem complete_of_fresh (h : ((lts crc32).restrict Fresh).Reachable (init input) s) :
    (∀ i d s', s.sent[i]? = some d → s.receiver.next ≤ d.pkt.addr →
      d.pkt.addr < s.receiver.next + 31 → step crc32 s (.deliver i true) = some s' →
      (s'.receiver.view input.length).Got d.pkt.addr) ∧
    (∀ e s', Fresh s e → step crc32 s e = some s' →
      s.receiver.view input.length ≤ s'.receiver.view input.length) ∧
    ((∀ j < input.length, (s.receiver.view input.length).Got j) →
      s.receiver.outfile.flatten = (input.map Chunk.bytes).flatten) := by
  have hinv := inv_of_fresh h
  have hin : InStream input s.receiver := by
    have hboth := h.invariant (I := fun s => Inv crc32 input s ∧ InStream input s.receiver)
      ⟨Inv.init input, nofun⟩ fun s e s' hs hstep =>
        ⟨hs.1.step_of_fresh hstep.2 hstep.1, (hs.1.view_step hs.2 hstep.2 hstep.1).1⟩
    exact hboth.2
  refine ⟨fun i d s' hd hle hlt hs => ?_, fun e s' hfresh hs =>
    (hinv.view_step hin hs hfresh).2, hinv.complete⟩
  obtain ⟨_, _, _, _, he, -, -⟩ | ⟨i', whole, d', receiver, reply, he, hd', hloop, rfl⟩ |
    ⟨_, _, _, he, -, -, -⟩ := step_cases hs
  · cases he
  · cases he
    obtain rfl := Option.some.inj (hd.symm.trans hd')
    exact (hinv.view_receive hin (List.mem_of_getElem? hd) (by omega) (by omega) hloop).2.2 rfl
      hle hlt
  · cases he

/-- Both packets have been got. -/
theorem complete_of_fresh_scrambled :
    ∃ s, ((lts Crc32.crc32).restrict Fresh).Reachable
        (init [System.byte 0x60, System.byte 0x61]) s ∧
      s.receiver.outfile.flatten = [0x60, 0x61] := by
  obtain ⟨s, h, hout, -⟩ := exists_scrambled
  have hreach := h.mono (B := (lts Crc32.crc32).restrict Fresh) fun _ _ _ hs => ⟨hs.1.1, hs.2⟩
  obtain ⟨-, -, hcomplete⟩ := complete_of_fresh hreach
  refine ⟨s, hreach, hcomplete fun j hj => .inl ?_⟩
  change j < s.receiver.next
  rw [Receiver.State.next, hout]
  exact hj

/-! ### The receiver comes through -/

/-- What has been sent, as a channel. -/
def channel (s : Network) : System where
  sender := s.sender
  receiver := s.receiver
  data := s.sent
  acks := []
  clock := s.clock

variable {owner : BitVec 32 → ℕ}

/-- A datagram that arrives is one of the channel, whole or truncated. -/
theorem carried_of_sent (h : System.Inv crc32 input owner s.channel) (hd : d ∈ s.sent)
    (whole : Bool) : System.Carried crc32 input owner s.clock s.sender.allocs
      { d with bytes := if whole then d.bytes else System.truncated d.bytes } :=
  ⟨conveys_of_arriving (h.conveyed d hd) whole, h.stamped d hd⟩

/-- The channel keeps its invariant, for a map of owners that agrees on the old timestamps. -/
theorem exists_inv_step (h : System.Inv crc32 input owner s.channel) {e : Event}
    (hs : step crc32 s e = some s') (hticks : Ticks s e) :
    ∃ owner', System.Inv crc32 input owner' s'.channel := by
  obtain ⟨ready, readings, sender, sent, rfl, hloop, rfl⟩ |
    ⟨i, whole, d, receiver, reply, rfl, hd, hloop, rfl⟩ |
    ⟨datagram, receiver, reply, rfl, hnone, hloop, rfl⟩ := step_cases hs
  · obtain ⟨clock, hclock⟩ := Option.isSome_iff_exists.1 hticks
    obtain ⟨owner', -, h'⟩ := h.send [] (s := s.channel) hclock hloop
    refine ⟨owner', ?_⟩
    rw [hclock]
    exact h'
  · -- the datagram that arrives, put in front of what has been sent
    have hcarried := carried_of_sent h (List.mem_of_getElem? hd) whole
    have harr : System.Inv crc32 input owner { s.channel with
        data := { d with bytes := if whole then d.bytes else System.truncated d.bytes } ::
          s.sent } :=
      { h with
        conveyed := List.forall_mem_cons.2 ⟨hcarried.toConveys, h.conveyed⟩
        stamped := List.forall_mem_cons.2 ⟨hcarried.stamped, h.stamped⟩ }
    exact ⟨owner, harr.receive rfl hloop⟩
  · obtain rfl := receiver_of_noise hnone hloop
    exact ⟨owner, { h with receiver := h.receiver.mainLoop hloop }⟩

/-- **The receiver never aborts** on what such a network delivers, while the clock of the sender
increases and does not wrap. -/
theorem never_aborts (h : ((lts crc32).restrict Ticks).Reachable (init input) s) {e : Event}
    {datagram : List Byte} (harr : arriving crc32 s e = some datagram) :
    ∃ r, Receiver.mainLoop crc32 datagram s.receiver = .ok r := by
  obtain ⟨owner, hinv⟩ := h.invariant
    (I := fun s => ∃ owner, System.Inv crc32 input owner s.channel)
    ⟨fun _ => 0, System.Inv.init input⟩ fun s e s' ⟨_, hinv⟩ hs => exists_inv_step hinv hs.2 hs.1
  cases e with
  | send => cases harr
  | deliver i whole =>
    obtain ⟨d, hd, rfl⟩ := Option.map_eq_some_iff.1 harr
    exact hinv.receive_ok (carried_of_sent hinv (List.mem_of_getElem? hd) whole)
  | noise =>
    rw [arriving] at harr
    split_ifs at harr with hnone
    cases harr
    exact ⟨_, Receiver.mainLoop_of_not_received (Option.isNone_iff_eq_none.1 hnone)⟩

/-- Packet 0 comes once more. -/
theorem never_aborts_scrambled :
    ∃ s datagram, ((lts Crc32.crc32).restrict Ticks).Reachable
        (init [System.byte 0x60, System.byte 0x61]) s ∧
      arriving Crc32.crc32 s (.deliver 0 true) = some datagram ∧
      ∃ r, Receiver.mainLoop Crc32.crc32 datagram s.receiver = .ok r := by
  obtain ⟨s, h, -, hlen⟩ := exists_scrambled
  have hreach := h.mono (B := (lts Crc32.crc32).restrict Ticks) fun _ _ _ hs => ⟨hs.1.2, hs.2⟩
  obtain ⟨d, hd⟩ : ∃ d, s.sent[0]? = some d :=
    ⟨_, List.getElem?_eq_getElem (hlen.symm ▸ Nat.two_pos)⟩
  have harr : arriving Crc32.crc32 s (.deliver 0 true) = some d.bytes := by
    rw [arriving, hd]
    rfl
  exact ⟨s, _, hreach, harr, never_aborts hreach harr⟩

end Network

end LosslessTransport
