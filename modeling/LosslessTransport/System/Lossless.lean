import LosslessTransport.Receiver.Advertise
import LosslessTransport.System.Lockstep
import LosslessTransport.System.Retransmission

/-!
# When nothing is lost and no timer expires

Runs in which the network loses and truncates nothing, and no packet in the sender's buffer expires
(`Timely`).  The sequence numbers have 8 bits, and the sender compares them as plain numbers, so
from the first wrap on an ACK may make it let go of packets that have not arrived yet.  In such a
run that does no harm: however long the file and however much is in flight, what has been written
followed by what is in flight is what has been read from the file (`written_and_in_flight`), and
the receiver holds nothing back.

Nor can such a run come to a halt before the end (`sends_or_done`), and it takes as many datagrams
as there are packets, and as many replies (`each_sent_once`).
-/

namespace LosslessTransport

namespace Receiver

open Circular

variable {crc32 : List Byte → BitVec 32} {st : State} {d : List Byte} {p : Pkt}

/-- The packet that signals the end, when it is the next one, is consumed at once; the window does
not slide. -/
theorem mainLoop_eof_in_sequence (hst : Inv st) (hnil : st.w.front = [])
    (h : received crc32 d = some p) (hseq : p.getSeqnum.toNat = st.w.pos) (htr : p.getTr = 0)
    (hlen : p.getLength = 0) :
    mainLoop crc32 d st = .ok
      ({ st with outfile := st.outfile ++ [p.payloadBytes], allocs := st.allocs + 1 },
        some ((ackPkt 31 st.w.pos p.getTimestamp).sealed crc32).image) := by
  have hbufsize : st.w.bufsize = 0 := by rw [hst.standard.bufsize_eq, hnil]; rfl
  have hconsume : consume { st.w with front := [st.alloc p], bufsize := 1 } (st.alloc p) =
      st.w := by
    have hqlen : (st.alloc p).pkt.getLength = 0 := hlen
    rw [consume, if_pos hqlen]
    simp [← hnil, ← hbufsize]
  have havailable : st.w.available = 31 := by
    simp [Window.available, hbufsize, hst.size_eq]
  rw [mainLoop_of_next hst hnil h hseq htr hconsume hnil, havailable]

end Receiver

namespace Sender

variable {input : List Chunk} {n : ℕ} {w : Window} {ack : Pkt} {q : PktPtr}

/-- An ACK leaves no packet with its timestamp, whether or not it finds one. -/
theorem timestamp_ne_of_mem_acked (h : Buffered input n w)
    (hts : ∀ p ∈ w.front, ∀ q ∈ w.front, p.timestamp = q.timestamp → p = q)
    (hq : q ∈ (acked w ack).front) : q.timestamp ≠ ack.getTimestamp := by
  by_cases hfound : ∃ p ∈ w.front, p.timestamp = ack.getTimestamp
  · exact ((mem_acked h hts (.inl hfound)).1 hq).2.2
  · exact fun heq => hfound ⟨q, (sublist_acked w ack).subset hq, heq⟩

end Sender

namespace System

open Sender (Chunk Sent payload)
open Receiver (ackPkt)

variable {crc32 : List Byte → BitVec 32} {input : List Chunk} {owner : BitVec 32 → ℕ}
  {s s' : System} {k : ℕ}

/-- Nothing is lost or truncated, and no timer has expired at a reading that the sender takes. -/
def Timely (s : System) : Event → Prop
  | .send _ readings => ∀ p ∈ s.sender.w.front, ∀ now ∈ readings, now < p.timestamp.toNat
  | .receive => True
  | _ => False

instance (s : System) (e : Event) : Decidable (Timely s e) :=
  match e with
  | .send _ readings => inferInstanceAs (Decidable (∀ p ∈ s.sender.w.front, ∀ now ∈ readings, _))
  | .receive => .isTrue trivial
  | .loseData _ | .loseAck _ | .truncate _ => .isFalse id

/-- The reply is an ACK that carries the timestamp `t` and advertises a window. -/
def Acks (crc32 : List Byte → BitVec 32) (t : BitVec 32) (r : Reply) : Prop :=
  ∃ window seqnum, 1 ≤ window ∧ window ≤ 31 ∧
    r.bytes = ((ackPkt window seqnum t).sealed crc32).image

/-- The receiver has taken the first `k` packets, the next ones are on their way in order, and each
packet in the buffer of the sender, or the ACK to it, is on its way. -/
structure InOrder (input : List Chunk) (crc32 : List Byte → BitVec 32) (k : ℕ) (s : System) :
    Prop where
  data : s.data.map (fun d => d.pkt.addr) = List.range' k s.data.length
  allocs : k + s.data.length = s.sender.allocs
  bytes : ∀ d ∈ s.data, d.bytes = (d.pkt.pkt.sealed crc32).image
  buffer : s.receiver.w.front = []
  outfile : s.receiver.outfile.flatten = ((List.range k).map (payload input)).flatten
  pos : s.receiver.w.pos = min k input.length % 256
  acks : ∀ r ∈ s.acks, ∃ t, Acks crc32 t r
  size : s.sender.w.size ≠ 0
  answered : ∀ p ∈ s.sender.w.front,
    (∃ d ∈ s.data, d.pkt = p) ∨ ∃ r ∈ s.acks, Acks crc32 p.timestamp r

theorem InOrder.init : InOrder input crc32 0 (init input) where
  data := rfl
  allocs := rfl
  bytes := nofun
  buffer := rfl
  outfile := rfl
  pos := by
    rw [Nat.zero_min]
    rfl
  acks := nofun
  size := Nat.one_ne_zero
  answered := nofun

theorem Acks.received {t : BitVec 32} {r : Reply} (h : Acks crc32 t r) :
    ∃ a, received crc32 r.bytes = some a ∧ a.getType = ptypeAck ∧ a.getTimestamp = t ∧
      1 ≤ a.getWindow.toNat := by
  obtain ⟨window, seqnum, hle, hle', hbytes⟩ := h
  obtain ⟨a, ha, hagree⟩ := Receiver.received_ackPkt crc32 window seqnum t
  refine ⟨a, hbytes ▸ ha, hagree.type, ?_, ?_⟩
  · rw [hagree.timestamp]
    exact ntohl_htonl t
  · rw [hagree.window]
    exact hle.trans (Receiver.toNat_window hle').ge

/-- When the sender has handled an ACK, it holds no packet that this ACK answers. -/
theorem Inv.not_acks_of_mem_acked (h : Inv crc32 input owner s) {r : Reply} {a : Pkt}
    (ha : received crc32 r.bytes = some a) {p : PktPtr}
    (hp : p ∈ (Sender.acked s.sender.w a).front) : ¬ Acks crc32 p.timestamp r := by
  intro hack
  obtain ⟨b, hb, -, htb, -⟩ := hack.received
  obtain rfl := Option.some.inj (ha.symm.trans hb)
  exact Sender.timestamp_ne_of_mem_acked h.sender.toBuffered h.timestamp_inj hp htb.symm

/-- What the sender makes of the oldest reply, or of none: the iteration goes on, and the packets
left in the buffer were there, and are on their way, or the ACKs to them still are. -/
theorem InOrder.hear (h : InOrder input crc32 k s) (hinv : Inv crc32 input owner s) {hear : Bool}
    {ready : Option (List Byte)} {acks : List Reply}
    (hhear : hearFrom s.acks hear = some (ready, acks)) {readings : List ℕ}
    {o : Option (Window × List ℕ)}
    (hreceive : Sender.receive crc32 s.sender.w ready readings = .ok o) :
    ∃ w₁, o = some (w₁, readings) ∧ w₁.front ⊆ s.sender.w.front ∧ w₁.size ≠ 0 ∧
      ∀ p ∈ w₁.front, (∃ d ∈ s.data, d.pkt = p) ∨ ∃ r ∈ acks, Acks crc32 p.timestamp r := by
  obtain ⟨-, rfl, rfl⟩ | ⟨r, -, rfl, hacks⟩ := hearFrom_cases hhear
  · cases hreceive
    exact ⟨_, rfl, List.Subset.refl _, h.size, h.answered⟩
  obtain ⟨t, hack⟩ := h.acks r (hacks ▸ List.mem_cons_self ..)
  obtain ⟨a, ha, htype, ht, hwindow⟩ := hack.received
  rw [Sender.receive_ack hinv.sender.standard ha htype] at hreceive
  cases hreceive
  refine ⟨_, rfl, (Sender.sublist_acked ..).subset, ?_, fun p hp => ?_⟩
  · show a.getWindow.toNat ≠ 0
    omega
  have hmem := (Sender.sublist_acked s.sender.w a).subset hp
  refine (h.answered p hmem).imp_right ?_
  rintro ⟨r', hr', hack'⟩
  rcases List.mem_cons.1 (hacks ▸ hr') with rfl | hr'
  · exact absurd hack' (hinv.not_acks_of_mem_acked ha hp)
  · exact ⟨r', hr', hack'⟩

/-- **An iteration of the sender** retransmits nothing: it makes the next packet, or none. -/
theorem InOrder.send (h : InOrder input crc32 k s) (hinv : Inv crc32 input owner s) {hear : Bool}
    {readings : List ℕ} (htimely : Timely s (.send hear readings))
    (hs : step crc32 s (.send hear readings) = some s') : InOrder input crc32 k s' := by
  obtain ⟨ready, acks, sender, sent, hhear, hloop, rfl⟩ := step_send hs
  have hacks : ∀ r ∈ acks, r ∈ s.acks := by
    intro r hr
    obtain ⟨-, -, rfl⟩ | ⟨r', -, -, hcons⟩ := hearFrom_cases hhear
    · exact hr
    · exact hcons ▸ List.mem_cons_of_mem r' hr
  obtain ⟨readings₀, hreadings, ⟨hreceive, -⟩ | hloop⟩ := Sender.mainLoop_cases hloop
  · obtain ⟨w₁, hnone, -⟩ := h.hear hinv hhear hreceive
    cases hnone
  obtain ⟨w₁, loopNow, readings₁, w₂, sent₂, readings₂, hreceive, hretr, hnew⟩ := hloop
  obtain ⟨_, heq, hsub, hsize, hanswered⟩ := h.hear hinv hhear hreceive
  cases heq
  have hmem : loopNow ∈ readings := by
    rcases hreadings with rfl | ⟨now, rfl⟩ <;> simp
  -- no timer has expired
  have hlate : ∀ p ∈ w₁.front, ¬ p.timestamp ≤ BitVec.ofNat 32 loopNow := by
    intro p hp hle
    have hlt := htimely p (hsub hp) loopNow hmem
    rw [BitVec.le_def, BitVec.toNat_ofNat] at hle
    exact absurd (hle.trans (Nat.mod_le _ _)) (Nat.not_le.2 hlt)
  rw [Sender.retransmitExpired_of_late crc32 hlate] at hretr
  cases hretr
  obtain ⟨hfull, -, new, hsend, rfl⟩ | ⟨-, rfl, rfl, -⟩ := hnew
  · obtain ⟨now, p, -, -, -, rfl, rfl⟩ := Sender.sendNew_spec hfull hsend
    have hallocs := h.allocs
    refine { h with
      data := ?_, allocs := ?_, bytes := ?_, acks := ?_, size := hsize, answered := ?_ }
    · rw [List.nil_append, List.map_append, h.data, List.length_append, List.length_singleton,
        List.range'_1_concat, hallocs]
      rfl
    · rw [List.nil_append, List.length_append, List.length_singleton, ← Nat.add_assoc, hallocs]
      rfl
    · intro d hd
      rcases List.mem_append.1 hd with hd | hd
      · exact h.bytes d hd
      · obtain rfl := List.mem_singleton.1 hd
        rfl
    · exact fun r hr => h.acks r (hacks r hr)
    · intro q hq
      rcases List.mem_cons.1 hq with rfl | hq
      · exact .inl ⟨_, List.mem_append_right _ (List.mem_singleton_self _), rfl⟩
      · exact (hanswered q hq).imp_left fun ⟨d, hd, hdq⟩ => ⟨d, List.mem_append_left _ hd, hdq⟩
  · rw [List.append_nil]
    exact { h with
      acks := fun r hr => h.acks r (hacks r hr), size := hsize, answered := hanswered }

/-- **An iteration of the receiver** takes the next packet, and answers with an ACK. -/
theorem InOrder.receive (h : InOrder input crc32 k s) (hinv : Inv crc32 input owner s)
    (hs : step crc32 s .receive = some s') :
    InOrder input crc32 (k + 1) s' ∧ s'.acks.length = s.acks.length + 1 := by
  obtain ⟨d, data, receiver, reply, hdata, hloop, rfl⟩ := step_receive hs
  have hmem : d ∈ s.data := hdata ▸ List.mem_cons_self ..
  have hrange := h.data
  rw [hdata, List.map_cons, List.length_cons, List.range'_succ, List.cons.injEq] at hrange
  obtain ⟨rfl, hrest⟩ := hrange
  have hallocs := h.allocs
  have hle := hinv.sender.allocs_le
  rw [hdata, List.length_cons] at hallocs
  have hcarries := (hinv.data hmem).carries
  rw [h.bytes d hmem] at hloop
  obtain ⟨hbuffer, hout, hpos, hreply⟩ : receiver.w.front = [] ∧
      receiver.outfile = s.receiver.outfile ++ [payload input d.pkt.addr] ∧
      receiver.w.pos = min (d.pkt.addr + 1) input.length % 256 ∧
      reply = some ((ackPkt 31 receiver.w.pos d.pkt.timestamp).sealed crc32).image := by
    rcases Nat.lt_or_ge d.pkt.addr input.length with hlt | hge
    · have hpos := h.pos
      rw [Nat.min_eq_left hlt.le] at hpos
      rw [receive_in_sequence crc32 hinv.receiver h.buffer hlt hpos hcarries] at hloop
      cases hloop
      rw [Nat.min_eq_left hlt]
      exact ⟨h.buffer, rfl, rfl, rfl⟩
    · have heof : d.pkt.addr = input.length := by omega
      have hpos := h.pos
      rw [heof, Nat.min_self] at hpos
      have hnil : payload input d.pkt.addr = [] := (Sender.payload_eq_nil_iff _).2 hge
      obtain ⟨q, hq, hagree⟩ := received_image crc32 hcarries.type_ne hcarries.getLength_le
        (.inl hcarries.type)
      have hqc := hcarries.of_agree hagree
      have hzero : q.getLength = 0 :=
        BitVec.eq_of_toNat_eq (hqc.length.trans (congrArg List.length hnil))
      rw [Receiver.mainLoop_eof_in_sequence hinv.receiver h.buffer hq
        (hqc.seqnum.trans (heof ▸ hpos.symm)) hqc.tr hzero, hqc.payload,
        hagree.timestamp] at hloop
      cases hloop
      rw [Nat.min_eq_right (by omega)]
      exact ⟨h.buffer, rfl, hpos, rfl⟩
  refine ⟨{
    data := hrest
    allocs := by rw [← hallocs]; exact Nat.add_right_comm ..
    bytes := fun d' hd' => h.bytes d' (hdata ▸ List.mem_cons_of_mem d hd')
    buffer := hbuffer
    outfile := ?_
    pos := hpos
    acks := fun r hr => ?_
    size := h.size
    answered := fun p hp => ?_ }, by rw [hreply]; exact List.length_append⟩
  · show receiver.outfile.flatten = _
    rw [hout, List.flatten_append, h.outfile, ← List.flatten_append, List.range_succ,
      List.map_append]
    rfl
  · rcases List.mem_append.1 hr with hr | hr
    · exact h.acks r hr
    · rw [hreply] at hr
      obtain rfl := List.mem_singleton.1 hr
      exact ⟨_, 31, _, by decide, le_rfl, rfl⟩
  · obtain ⟨d', hd', rfl⟩ | ⟨r, hr, hack⟩ := h.answered p hp
    · rcases List.mem_cons.1 (hdata ▸ hd') with rfl | hd'
      · rw [hreply]
        exact .inr ⟨_, List.mem_append_right _ (List.mem_singleton_self _), 31, receiver.w.pos,
          by decide, le_rfl, rfl⟩
      · exact .inl ⟨d', hd', rfl⟩
    · exact .inr ⟨r, List.mem_append_left _ hr, hack⟩

/-- What holds in every state of such a run. -/
theorem exists_inOrder
    (h : ((lts crc32).restrict fun s e => Ticks s e ∧ Timely s e).Reachable (init input) s) :
    ∃ owner k, Inv crc32 input owner s ∧ InOrder input crc32 k s := by
  refine h.invariant (I := fun s => ∃ owner k, Inv crc32 input owner s ∧ InOrder input crc32 k s)
    ⟨fun _ => 0, 0, .init input, .init⟩ ?_
  rintro s e s' ⟨owner, k, hinv, horder⟩ ⟨⟨hticks, htimely⟩, hs⟩
  obtain ⟨owner', -, hinv'⟩ := hinv.step hticks hs
  refine ⟨owner', ?_⟩
  cases e with
  | send hear readings => exact ⟨k, hinv', horder.send hinv htimely hs⟩
  | receive => exact ⟨k + 1, hinv', (horder.receive hinv hs).1⟩
  | loseData | loseAck | truncate => exact absurd htimely id

/-- The packet that signals the end adds nothing. -/
theorem flatten_map_payload_range {n : ℕ} (hn : n ≤ input.length + 1) :
    ((List.range n).map (payload input)).flatten = ((input.map Chunk.bytes).take n).flatten := by
  rcases Nat.lt_or_ge input.length n with hlt | hle
  · obtain rfl : n = input.length + 1 := by omega
    rw [List.range_succ, List.map_append, Sender.map_payload_range le_rfl, List.flatten_append,
      List.map_singleton, (Sender.payload_eq_nil_iff _).2 le_rfl, List.flatten_singleton,
      List.append_nil, List.take_of_length_le (List.length_map ..).le,
      List.take_of_length_le ((List.length_map ..).trans_le (Nat.le_succ _))]
  · rw [Sender.map_payload_range hle]

/-- What has been written and what is in flight is what has been read. -/
theorem InOrder.written (h : InOrder input crc32 k s) (hinv : Inv crc32 input owner s) :
    s.receiver.outfile.flatten ++ (s.data.map fun d => d.pkt.pkt.payloadBytes).flatten =
      ((input.map Chunk.bytes).take s.sender.allocs).flatten := by
  have hflight : s.data.map (fun d => d.pkt.pkt.payloadBytes) =
      (List.range' k s.data.length).map (payload input) := by
    rw [← h.data, List.map_map]
    exact List.map_congr_left fun d hd => (hinv.data hd).carries.payload
  have hrange := List.range'_append_1 (s := 0) (m := k) (n := s.data.length)
  rw [Nat.zero_add, h.allocs] at hrange
  rw [h.outfile, hflight, ← List.flatten_append, ← List.map_append, List.range_eq_range', hrange,
    ← List.range_eq_range', flatten_map_payload_range hinv.sender.allocs_le]

/-- Once the packet that signals the end has been sent, that is the whole file. -/
theorem Inv.take_allocs (h : Inv crc32 input owner s) (heof : s.sender.sentEof = true) :
    (input.map Chunk.bytes).take s.sender.allocs = input.map Chunk.bytes :=
  List.take_of_length_le ((List.length_map ..).trans_le (h.sender.sentEof_iff.1 heof).le)

/-- **Nothing is lost and no timer expires**: for a file of any length, what has been written,
followed by what is in flight, is what has been read from the file, in order and each byte once; the
receiver holds nothing back, and when the end of the file has been sent, that is the whole file. -/
theorem written_and_in_flight
    (h : ((lts crc32).restrict fun s e => Ticks s e ∧ Timely s e).Reachable (init input) s) :
    s.receiver.outfile.flatten ++ (s.data.map fun d => d.pkt.pkt.payloadBytes).flatten =
        ((input.map Chunk.bytes).take s.sender.allocs).flatten ∧
      s.receiver.w.front = [] ∧
      (s.sender.sentEof = true →
        s.receiver.outfile.flatten ++ (s.data.map fun d => d.pkt.pkt.payloadBytes).flatten =
          (input.map Chunk.bytes).flatten) := by
  obtain ⟨owner, k, hinv, horder⟩ := exists_inOrder h
  refine ⟨horder.written hinv, horder.buffer, fun heof => ?_⟩
  rw [horder.written hinv, hinv.take_allocs heof]

/-- A file of two bytes: the first is written, the second and the packet that signals the end are in
flight. -/
theorem written_and_in_flight_two_bytes :
    ∃ s, ((lts Crc32.crc32).restrict fun s e => Ticks s e ∧ Timely s e).Reachable
        (init [byte 0x60, byte 0x61]) s ∧
      s.sender.sentEof = true ∧ s.receiver.outfile = [[0x60]] ∧
      s.receiver.outfile.flatten ++ (s.data.map fun d => d.pkt.pkt.payloadBytes).flatten =
        [0x60, 0x61] := by
  have hrun : (LTS.run
      (fun s e => if Ticks s e ∧ Timely s e then step Crc32.crc32 s e else none)
      (init [byte 0x60, byte 0x61]) [.send false [0, 1], .receive, .send true [2, 3, 4],
        .send false [5, 6]]).map (fun s => (s.sender.sentEof, s.receiver.outfile)) =
      some (true, [[0x60]]) := by
    decide +kernel
  obtain ⟨s, hs, hmap⟩ := Option.map_eq_some_iff.1 hrun
  obtain ⟨heof, hout⟩ := Prod.mk.inj hmap
  have h := LTS.reachable_of_checked_run hs
  exact ⟨s, h, heof, hout, (written_and_in_flight h).2.2 heof⟩

/-! ### Nothing in flight -/

/-- Once nothing is in flight the sender holds nothing, and if it has not sent the whole file, its
next iteration makes the next packet. -/
theorem InOrder.send_of_idle (h : InOrder input crc32 k s) (hinv : Inv crc32 input owner s)
    (hdata : s.data = []) (hacks : s.acks = []) :
    s.sender.w.front = [] ∧ s.sender.running = !s.sender.sentEof ∧
      (s.sender.sentEof = false → ∀ t, s.clock ≤ t → t + 1 < 2 ^ 32 →
        Ticks s (.send false [t, t + 1]) ∧
        ∃ s' d, step crc32 s (.send false [t, t + 1]) = some s' ∧ s'.data = [d] ∧
          d.pkt.addr = s.sender.allocs) := by
  have hnil : s.sender.w.front = [] := by
    rw [List.eq_nil_iff_forall_not_mem]
    intro p hp
    obtain ⟨d, hd, -⟩ | ⟨r, hr, -⟩ := h.answered p hp
    · rw [hdata] at hd
      cases hd
    · rw [hacks] at hr
      cases hr
  have hbufsize : s.sender.w.bufsize = 0 := by
    rw [hinv.sender.standard.bufsize_eq, hnil]
    rfl
  have hrunning : s.sender.running = !s.sender.sentEof := by
    rw [Sender.State.running, (Window.empty_iff hinv.sender.standard.toWf).2 hnil, Bool.not_true,
      Bool.or_false]
  refine ⟨hnil, hrunning, fun heof t ht hlt => ?_⟩
  have hsize := h.size
  have hfull : s.sender.w.full = false := by
    have hcap := hinv.sender.standard.capacity_eq
    simp [Window.full, hbufsize, hcap, hsize]
  have hadv : Sender.advance s.clock [t, t + 1] = some (t + 2) := by
    simp only [Sender.advance]
    rw [if_pos ⟨ht, by omega⟩, if_pos ⟨le_rfl, hlt⟩]
  have hlate : ∀ p ∈ s.sender.w.front, ¬ p.timestamp ≤ BitVec.ofNat 32 t := by
    rw [hnil]
    exact fun _ hp => absurd hp List.not_mem_nil
  have hwait : Sender.await none [t, t + 1] s.sender = .ok [t, t + 1] :=
    Sender.await_eq hfull heof hsize _
  obtain ⟨p, -, -, hloop⟩ := Sender.mainLoop_eq hwait rfl
    (Sender.retransmitExpired_of_late crc32 hlate [t + 1]) hfull heof
  rw [heof] at hrunning
  exact ⟨ticks_of_advance hadv, _, ⟨⟨s.sender.allocs, p⟩, _⟩,
    step_send_eq hrunning hadv rfl hloop, by rw [hdata]; rfl, rfl⟩

/-- **The transfer does not come to a halt**, as long as nothing is lost and no timer expires.  Once
nothing is in flight the sender holds nothing, and either it has stopped, and the whole file has
been written, or its next iteration sends the next packet. -/
theorem sends_or_done
    (h : ((lts crc32).restrict fun s e => Ticks s e ∧ Timely s e).Reachable (init input) s)
    (hdata : s.data = []) (hacks : s.acks = []) :
    s.sender.w.front = [] ∧
    ((s.sender.running = false ∧ s.receiver.outfile.flatten = (input.map Chunk.bytes).flatten) ∨
      (s.sender.running = true ∧ ∀ t, s.clock ≤ t → t + 1 < 2 ^ 32 →
        ∃ s' d, step crc32 s (.send false [t, t + 1]) = some s' ∧
          ((lts crc32).restrict fun s e => Ticks s e ∧ Timely s e).Reachable (init input) s' ∧
          s'.data = [d] ∧ d.pkt.addr = s.sender.allocs)) := by
  obtain ⟨owner, k, hinv, horder⟩ := exists_inOrder h
  obtain ⟨hnil, hrunning, hsend⟩ := horder.send_of_idle hinv hdata hacks
  refine ⟨hnil, ?_⟩
  cases heof : s.sender.sentEof with
  | true =>
    have hwritten := horder.written hinv
    rw [hdata, hinv.take_allocs heof, List.map_nil, List.flatten_nil, List.append_nil] at hwritten
    exact .inl ⟨by rw [hrunning, heof]; rfl, hwritten⟩
  | false =>
    refine .inr ⟨by rw [hrunning, heof]; rfl, fun t ht hlt => ?_⟩
    obtain ⟨hticks, s', d, hstep, hd⟩ := hsend heof t ht hlt
    have htimely : Timely s (.send false [t, t + 1]) := by
      intro p hp
      rw [hnil] at hp
      cases hp
    exact ⟨s', d, hstep, h.tail ⟨⟨hticks, htimely⟩, hstep⟩, hd⟩

/-- A file of one byte: it has been written, and the sender has stopped. -/
theorem sends_or_done_one_byte :
    ∃ s, ((lts Crc32.crc32).restrict fun s e => Ticks s e ∧ Timely s e).Reachable
        (init [byte 0x60]) s ∧
      s.sender.running = false ∧ s.sender.w.front = [] ∧ s.receiver.outfile.flatten = [0x60] := by
  have hrun : (LTS.run
      (fun s e => if Ticks s e ∧ Timely s e then step Crc32.crc32 s e else none)
      (init [byte 0x60]) [.send false [0, 1], .receive, .send true [2, 3, 4], .receive,
        .send true [5, 6]]).map (fun s => (s.data, s.acks, s.sender.running)) =
      some ([], [], false) := by
    decide +kernel
  obtain ⟨s, hs, hmap⟩ := Option.map_eq_some_iff.1 hrun
  obtain ⟨hdata, hmap⟩ := Prod.mk.inj hmap
  obtain ⟨hacks, hrunning⟩ := Prod.mk.inj hmap
  have h := LTS.reachable_of_checked_run hs
  obtain ⟨hnil, ⟨-, hwritten⟩ | ⟨htrue, -⟩⟩ := sends_or_done h hdata hacks
  · exact ⟨s, h, hrunning, hnil, hwritten⟩
  · rw [hrunning] at htrue
    cases htrue

/-! ### How many datagrams it takes -/

/-- An iteration in which the sender hears a reply. -/
def hears : Event → Bool
  | .send hear _ => hear
  | _ => false

variable {es : List Event} {heard : ℕ}

/-- Along a run, with `heard` replies heard before. -/
theorem InOrder.run (h : InOrder input crc32 k s) (hinv : Inv crc32 input owner s)
    (hheard : heard + s.acks.length = k)
    (hrun : LTS.run (fun s e => if Ticks s e ∧ Timely s e then step crc32 s e else none) s es =
      some s') :
    InOrder input crc32 (k + es.count .receive) s' ∧
      heard + es.countP hears + s'.acks.length = k + es.count .receive ∧
      s'.sender.allocs ≤ input.length + 1 := by
  induction es generalizing s k owner heard with
  | nil =>
    cases hrun
    exact ⟨h, hheard, hinv.sender.allocs_le⟩
  | cons e es ih =>
    obtain ⟨s₁, hs, hrest⟩ := Option.bind_eq_some_iff.1 hrun
    dsimp only at hs
    split_ifs at hs with hmeets
    obtain ⟨hticks, htimely⟩ := hmeets
    obtain ⟨owner₁, -, hinv₁⟩ := hinv.step hticks hs
    cases e with
    | send hear readings =>
      have hheard₁ : heard + (if hear then 1 else 0) + s₁.acks.length = k := by
        obtain ⟨ready, acks, sender, sent, hhear, -, rfl⟩ := step_send hs
        obtain ⟨hfalse, -, rfl⟩ | ⟨r, htrue, -, hacks⟩ := hearFrom_cases hhear
        · rw [hfalse]
          exact hheard
        · rw [htrue, ← hheard, hacks, List.length_cons]
          exact Nat.add_right_comm ..
      have hne : Event.send hear readings ≠ .receive := by simp
      have hrec := ih (h.send hinv htimely hs) hinv₁ hheard₁ hrest
      rw [Nat.add_assoc heard, Nat.add_comm (if hear then 1 else 0)] at hrec
      rw [List.count_cons_of_ne hne, List.countP_cons]
      exact hrec
    | receive =>
      obtain ⟨h₁, hacks⟩ := h.receive hinv hs
      have hheard₁ : heard + s₁.acks.length = k + 1 := by omega
      have hrec := ih h₁ hinv₁ hheard₁ hrest
      rw [Nat.add_assoc k, Nat.add_comm 1] at hrec
      rw [List.count_cons_self]
      exact hrec
    | loseData | loseAck | truncate => exact absurd htimely id

/-- **Each packet is sent once and answered once**, as long as nothing is lost and no timer expires:
the datagrams that the receiver has taken and those in flight are as many as the packets, at most
one for each piece of the file and one for its end, and so it is with the replies. -/
theorem each_sent_once
    (h : LTS.run (fun s e => if Ticks s e ∧ Timely s e then step crc32 s e else none)
      (init input) es = some s) :
    es.count .receive + s.data.length = s.sender.allocs ∧
      es.countP hears + s.acks.length = es.count .receive ∧
      s.sender.allocs ≤ input.length + 1 := by
  have hinv : Inv crc32 input (fun _ => 0) (init input) := .init input
  have hrun := InOrder.init.run hinv rfl h
  rw [Nat.zero_add, Nat.zero_add] at hrun
  exact ⟨hrun.1.allocs, hrun.2⟩

/-- Two datagrams and two replies for a file of one byte. -/
theorem each_sent_once_one_byte :
    ∃ s, LTS.run (fun s e => if Ticks s e ∧ Timely s e then step Crc32.crc32 s e else none)
        (init [byte 0x60]) [.send false [0, 1], .receive, .send true [2, 3, 4], .receive,
          .send true [5, 6]] = some s ∧
      s.sender.running = false ∧ s.data.length = 0 ∧ s.acks.length = 0 ∧ s.sender.allocs = 2 := by
  have hrun : (LTS.run
      (fun s e => if Ticks s e ∧ Timely s e then step Crc32.crc32 s e else none)
      (init [byte 0x60]) [.send false [0, 1], .receive, .send true [2, 3, 4], .receive,
        .send true [5, 6]]).map (fun s => (s.sender.running, s.sender.allocs)) =
      some (false, 2) := by
    decide +kernel
  obtain ⟨s, hs, hmap⟩ := Option.map_eq_some_iff.1 hrun
  obtain ⟨hrunning, hallocs⟩ := Prod.mk.inj hmap
  obtain ⟨hdata, hacks, -⟩ := each_sent_once hs
  refine ⟨s, hs, hrunning, ?_, ?_, hallocs⟩
  · exact Nat.add_left_cancel (hdata.trans hallocs)
  · exact Nat.add_left_cancel hacks

end System

end LosslessTransport
