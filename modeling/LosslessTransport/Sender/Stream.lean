import LosslessTransport.Lib.Crc32
import LosslessTransport.Lib.Lts
import LosslessTransport.Sender.Invariant

/-!
# The packet stream

`Stream` is the sender together with the datagrams it has sent, oldest first.  The first
transmissions (`firsts`) are the datagrams of packets that have not been sent before.  In every run,
whatever is received and whatever the clock says, they carry the input piece by piece
(`Stream.firsts_carry`), and every other datagram repeats one of them but for the timestamp and CRC1
(`Sent.Repeats`).

`retransmitSent` is what the loop of `retransmit_packets` has sent when the readings run out, so
that what is said of the datagrams also holds of an iteration that does not come back.
-/

namespace LosslessTransport

namespace Sender

/-- The sender, and the datagrams it has sent. -/
structure Stream where
  sender : State
  sent : List Sent

/-- The first transmissions: the datagrams of packets that none before them is of. -/
def firsts (sent : List Sent) : List Sent :=
  sent.foldl (fun acc d =>
    if d.pkt.addr ∈ acc.map (fun e => e.pkt.addr) then acc else acc ++ [d]) []

/-- Datagram `d` is of the same packet as `e`, with another timestamp: on the wire they agree but
for the bytes 4 to 11, which are the timestamp and CRC1. -/
structure Sent.Repeats (d e : Sent) : Prop where
  pkt : ∃ t, d.pkt = e.pkt.setTimestamp t
  head : d.bytes.take 4 = e.bytes.take 4
  tail : d.bytes.drop 12 = e.bytes.drop 12

variable (crc32 : List Byte → BitVec 32)

/-- What the loop of `retransmit_packets` has sent when it ends or the readings run out. -/
def retransmitSent (loopNow : BitVec 32) : List ℕ → Window → List Sent
  | [], _ => []
  | now :: readings, w =>
    match w.peekMinTimestamp with
    | none => []
    | some pkt =>
      if pkt.timestamp ≤ loopNow then
        let updated := w.updateTimestamp pkt.timestamp (BitVec.ofNat 32 now + timer)
        if updated.1 = -1 then []
        else
          let pkt := updated.2.deref pkt
          match sendPacket crc32 pkt.pkt with
          | .error _ => []
          | .ok datagram => ⟨pkt, datagram⟩ :: retransmitSent loopNow readings updated.2
      else []

namespace Stream

/-- Nothing has been sent. -/
def init (infile : List Chunk) : Stream := ⟨Sender.init infile, []⟩

/-- The iterations of the sender, on any datagrams and any readings of the clock. -/
def lts : LTS Stream (Option (List Byte) × List ℕ) where
  step s l s' := ∃ sent rest, mainLoop crc32 l.1 l.2 s.sender = .ok (s'.sender, sent, rest) ∧
    s'.sent = s.sent ++ sent

end Stream

/-- A packet of the buffer, but for the timestamp. -/
def OfBuffer (w : Window) (p : PktPtr) : Prop := ∃ q ∈ w.front, ∃ t, p = q.setTimestamp t

variable {crc32} {input : List Chunk} {n : ℕ} {w w' : Window} {p q : PktPtr}

/-! ### One packet with two timestamps -/

theorem setTimestamp_timestamp (p : PktPtr) : p.setTimestamp p.timestamp = p := by
  obtain ⟨addr, pkt⟩ := p
  simp [PktPtr.setTimestamp, PktPtr.timestamp, Pkt.setTimestamp, Pkt.getTimestamp]

theorem OfBuffer.of_mem (h : p ∈ w.front) : OfBuffer w p :=
  ⟨p, h, p.timestamp, (setTimestamp_timestamp p).symm⟩

theorem OfBuffer.setTimestamp (h : OfBuffer w p) (t : BitVec 32) :
    OfBuffer w (p.setTimestamp t) := by
  obtain ⟨q, hq, -, rfl⟩ := h
  exact ⟨q, hq, t, rfl⟩

theorem OfBuffer.trans (h : OfBuffer w' p) (hw : ∀ q ∈ w'.front, OfBuffer w q) : OfBuffer w p := by
  obtain ⟨q, hq, t, rfl⟩ := h
  exact (hw q hq).setTimestamp t

theorem ofBuffer_store (hp : p ∈ w.front) (t : BitVec 32) :
    ∀ q ∈ (w.store (p.setTimestamp t)).front, OfBuffer w q := by
  intro q hq
  rcases Window.mem_store hq with rfl | ⟨hq, -⟩
  · exact ⟨p, hp, t, rfl⟩
  · exact .of_mem hq

/-- The bytes before the timestamp. -/
theorem take_image (p : Pkt) : p.image.take 4 =
    (p.type ++ p.tr ++ p.window) :: p.seqnum :: Endian.toBytes 2 p.length.toNat := by
  simp [Pkt.image, Pkt.header, Endian.toBytes]

/-- The bytes after CRC1. -/
theorem drop_image (p : Pkt) : p.image.drop 12 = p.payloadBytes ++
    if 0 < p.getLength.toNat then Endian.toBytes 4 p.crc2.toNat else [] := by
  simp [Pkt.image, Pkt.header, Endian.toBytes]

/-- Datagrams of one packet with two timestamps. -/
theorem Sent.Repeats.of_setTimestamp {d e : Sent} {t : BitVec 32} (h : d.pkt = e.pkt.setTimestamp t)
    (hd : d.bytes = (d.pkt.pkt.sealed crc32).image)
    (he : e.bytes = (e.pkt.pkt.sealed crc32).image) :
    d.Repeats e := by
  refine ⟨⟨t, h⟩, ?_, ?_⟩
  · rw [hd, he, h, take_image, take_image]
    rfl
  · rw [hd, he, h, drop_image, drop_image]
    rfl

/-! ### The loop -/

theorem retransmitSent_of_late {loopNow : BitVec 32} (h : ∀ p ∈ w.front, ¬ p.timestamp ≤ loopNow)
    (readings : List ℕ) : retransmitSent crc32 loopNow readings w = [] := by
  cases readings with
  | nil => rfl
  | cons now readings =>
    rw [retransmitSent]
    cases hp : w.peekMinTimestamp with
    | none => rfl
    | some p => simp only [if_neg (h p (Window.mem_of_peekMinTimestamp hp))]

/-- One turn. -/
theorem retransmitSent_cons (h : Sendable w) {loopNow : BitVec 32}
    (hpeek : w.peekMinTimestamp = some p) (hle : p.timestamp ≤ loopNow) (now : ℕ)
    (readings : List ℕ) :
    let p' := p.setTimestamp (BitVec.ofNat 32 now + timer)
    retransmitSent crc32 loopNow (now :: readings) w =
      ⟨p', (p'.pkt.sealed crc32).image⟩ :: retransmitSent crc32 loopNow readings (w.store p') := by
  intro p'
  have hp : p ∈ w.front := Window.mem_of_peekMinTimestamp hpeek
  have haddr : p'.addr = p.addr := PktPtr.addr_setTimestamp p _
  have hmem := Window.mem_store_self hp haddr
  have hsend := sendPacket_eq crc32 ((h.store hp _).type_ne p' hmem)
    ((h.store hp _).length_le p' hmem)
  rw [retransmitSent]
  simp only [hpeek, if_pos hle, Window.updateTimestamp_of_peek hpeek]
  rw [Window.deref_store hp haddr, hsend]
  rfl

/-- A loop that comes to its end has sent nothing else. -/
theorem retransmitExpired_sent (h : Sendable w) {loopNow : BitVec 32} {readings : List ℕ}
    {r : Window × List Sent × List ℕ} (hr : retransmitExpired crc32 loopNow readings w = .ok r) :
    r.2.1 = retransmitSent crc32 loopNow readings w := by
  induction readings generalizing w r with
  | nil =>
    obtain hlate | ⟨p, hpeek, hle⟩ := Window.late_or_peekMinTimestamp_le w loopNow
    · rw [retransmitExpired_of_late crc32 hlate] at hr
      cases hr
      rfl
    · rw [retransmitExpired_nil crc32 hpeek hle] at hr
      cases hr
  | cons now readings ih =>
    obtain hlate | ⟨p, hpeek, hle⟩ := Window.late_or_peekMinTimestamp_le w loopNow
    · rw [retransmitExpired_of_late crc32 hlate] at hr
      cases hr
      rw [retransmitSent_of_late hlate]
    · rw [retransmitExpired_cons h hpeek hle] at hr
      obtain ⟨r', hrec, rfl⟩ := map_eq_ok.1 hr
      rw [retransmitSent_cons h hpeek hle,
        ih (h.store (Window.mem_of_peekMinTimestamp hpeek) _) hrec]

/-- What the loop sends is in the buffer, but for the timestamp. -/
theorem ofBuffer_retransmitSent (h : Sendable w) {loopNow : BitVec 32} {readings : List ℕ} :
    ∀ d ∈ retransmitSent crc32 loopNow readings w,
      OfBuffer w d.pkt ∧ d.bytes = (d.pkt.pkt.sealed crc32).image := by
  induction readings generalizing w with
  | nil => nofun
  | cons now readings ih =>
    obtain hlate | ⟨p, hpeek, hle⟩ := Window.late_or_peekMinTimestamp_le w loopNow
    · rw [retransmitSent_of_late hlate]
      nofun
    have hp : p ∈ w.front := Window.mem_of_peekMinTimestamp hpeek
    rw [retransmitSent_cons h hpeek hle]
    intro d hd
    rcases List.mem_cons.1 hd with rfl | hd
    · exact ⟨⟨p, hp, _, rfl⟩, rfl⟩
    · obtain ⟨hof, hbytes⟩ := ih (h.store hp _) d hd
      exact ⟨hof.trans (ofBuffer_store hp _), hbytes⟩

/-- So is what it leaves in the buffer. -/
theorem ofBuffer_retransmitExpired (h : Sendable w) {loopNow : BitVec 32} {readings : List ℕ}
    {r : Window × List Sent × List ℕ} (hr : retransmitExpired crc32 loopNow readings w = .ok r) :
    ∀ p ∈ r.1.front, OfBuffer w p := by
  refine retransmitExpired_induction (motive := fun _ w r => ∀ p ∈ r.1.front, OfBuffer w p)
    (fun _ _ _ _ hp => .of_mem hp) ?_ h hr
  rintro now readings w p - r hp - rfl ih x hx
  exact (ih x hx).trans (ofBuffer_store hp _)

/-! ### The iteration -/

variable {st st' : State} {ready : Option (List Byte)} {readings readings' rest : List ℕ}
  {sent : List Sent}

theorem Response.ofBuffer (h : Response crc32 w ready readings w' readings') :
    ∀ p ∈ w'.front, OfBuffer w p := by
  cases h with
  | ignored => exact fun p hp => .of_mem hp
  | acked => exact fun p hp => .of_mem ((sublist_acked w _).subset hp)
  | nacked => exact fun p hp => .of_mem hp
  | restamped _ _ _ hp _ hq => exact hq ▸ ofBuffer_store hp _

/-- **What an iteration sends**: packets of the buffer, but for the timestamp, and then the new
packet, if it makes one. -/
theorem mainLoop_sent (hinv : Inv input st)
    (h : mainLoop crc32 ready readings st = .ok (st', sent, rest)) :
    ∃ resent new, sent = resent ++ new ∧ (∀ d ∈ resent, OfBuffer st.w d.pkt) ∧
      ((new = [] ∧ st'.allocs = st.allocs ∧ ∀ p ∈ st'.w.front, OfBuffer st.w p) ∨
        ∃ d, new = [d] ∧ d.pkt.addr = st.allocs ∧ st'.allocs = st.allocs + 1 ∧
          ∀ p ∈ st'.w.front, p = d.pkt ∨ OfBuffer st.w p) := by
  obtain ⟨readings₀, -, hearly | hloop⟩ := mainLoop_cases h
  · obtain ⟨-, rfl, rfl, -⟩ := hearly
    exact ⟨[], [], rfl, nofun, .inl ⟨rfl, rfl, fun p hp => .of_mem hp⟩⟩
  obtain ⟨w₁, loopNow, readings₁, w₂, sent₂, readings₂, hreceive, hretr, hnew⟩ := hloop
  have hresp := response_of_receive_some hinv.standard hreceive
  have hsendable := (hresp.buffered hinv.toBuffered).sendable
  have hsent : ∀ d ∈ sent₂, OfBuffer st.w d.pkt := by
    intro d hd
    rw [show sent₂ = _ from retransmitExpired_sent hsendable hretr] at hd
    exact (ofBuffer_retransmitSent hsendable d hd).1.trans hresp.ofBuffer
  have hfront : ∀ p ∈ w₂.front, OfBuffer st.w p := fun p hp =>
    (ofBuffer_retransmitExpired hsendable hretr p hp).trans hresp.ofBuffer
  obtain ⟨hfull, -, new, hsend, rfl⟩ | ⟨-, rfl, rfl, -⟩ := hnew
  · obtain ⟨now, p, -, -, -, rfl, rfl⟩ := sendNew_spec hfull hsend
    refine ⟨sent₂, _, rfl, hsent, .inr ⟨_, rfl, rfl, rfl, fun q hq => ?_⟩⟩
    exact (List.mem_cons.1 hq).imp id (hfront q)
  · exact ⟨_, [], (List.append_nil _).symm, hsent, .inl ⟨rfl, rfl, hfront⟩⟩

/-! ### The first transmissions -/

/-- Packet `p` has been sent, but for the timestamp. -/
def FirstOf (sent : List Sent) (p : PktPtr) : Prop :=
  ∃ e ∈ firsts sent, ∃ t, p = e.pkt.setTimestamp t

theorem firsts_concat (sent : List Sent) (d : Sent) : firsts (sent ++ [d]) =
    if d.pkt.addr ∈ (firsts sent).map (fun e => e.pkt.addr) then firsts sent
    else firsts sent ++ [d] := by
  rw [firsts, List.foldl_append]
  rfl

theorem firsts_subset (sent : List Sent) : firsts sent ⊆ sent := by
  induction sent using List.reverseRecOn with
  | nil => exact List.Subset.refl _
  | append_singleton sent d ih =>
    rw [firsts_concat]
    split_ifs
    · exact List.Subset.trans ih (List.subset_append_left ..)
    · exact List.append_subset.2
        ⟨List.Subset.trans ih (List.subset_append_left ..), List.subset_append_right ..⟩

/-- Datagrams of packets that have been sent are not first transmissions. -/
theorem firsts_append_of_firstOf {resent : List Sent} (h : ∀ d ∈ resent, FirstOf sent d.pkt) :
    firsts (sent ++ resent) = firsts sent := by
  induction resent using List.reverseRecOn with
  | nil => rw [List.append_nil]
  | append_singleton resent d ih =>
    have hsame := ih fun d hd => h d (List.mem_append_left _ hd)
    obtain ⟨e, he, t, hd⟩ := h d (List.mem_append_right _ (List.mem_singleton_self d))
    have hmem : d.pkt.addr ∈ (firsts sent).map fun e => e.pkt.addr :=
      List.mem_map.2 ⟨e, he, by rw [hd, PktPtr.addr_setTimestamp]⟩
    rw [← List.append_assoc, firsts_concat, hsame, if_pos hmem]

theorem FirstOf.of_first {d : Sent} (hd : d ∈ firsts sent) : FirstOf sent d.pkt :=
  ⟨d, hd, d.pkt.timestamp, (setTimestamp_timestamp _).symm⟩

theorem OfBuffer.firstOf (h : OfBuffer w p) (hw : ∀ q ∈ w.front, FirstOf sent q) :
    FirstOf sent p := by
  obtain ⟨q, hq, t, rfl⟩ := h
  obtain ⟨e, he, t', rfl⟩ := hw q hq
  exact ⟨e, he, t, rfl⟩

theorem FirstOf.of_subset {sent' : List Sent} (h : FirstOf sent p)
    (hsub : firsts sent ⊆ firsts sent') : FirstOf sent' p := by
  obtain ⟨e, he, t, ht⟩ := h
  exact ⟨e, hsub he, t, ht⟩

/-! ### The stream -/

namespace Stream

/-- What holds of the datagrams sent, between two iterations. -/
structure Inv (crc32 : List Byte → BitVec 32) (input : List Chunk) (s : Stream) : Prop where
  sender : Sender.Inv input s.sender
  numbered : (firsts s.sent).map (fun d => d.pkt.addr) = List.range s.sender.allocs
  made : ∀ d ∈ s.sent, d.Ok crc32 input s.sender.allocs
  buffered : ∀ p ∈ s.sender.w.front, FirstOf s.sent p
  firstOf : ∀ d ∈ s.sent, FirstOf s.sent d.pkt

variable {s s' : Stream}

theorem Inv.init (input : List Chunk) : Inv crc32 input (init input) where
  sender := Sender.Inv.init input
  numbered := rfl
  made := nofun
  buffered := nofun
  firstOf := nofun

/-- The datagrams sent so far and those of an iteration. -/
theorem Inv.made_append (hinv : Inv crc32 input s) {sent : List Sent} {n : ℕ}
    (hle : s.sender.allocs ≤ n) (hok : ∀ d ∈ sent, d.Ok crc32 input n) :
    ∀ d ∈ s.sent ++ sent, d.Ok crc32 input n := by
  intro d hd
  rcases List.mem_append.1 hd with hd | hd
  · exact (hinv.made d hd).mono hle
  · exact hok d hd

/-- Packets that are sent again leave the first transmissions as they are. -/
theorem Inv.firstOf_append (hinv : Inv crc32 input s) {resent : List Sent}
    (hresent : ∀ d ∈ resent, OfBuffer s.sender.w d.pkt) :
    firsts (s.sent ++ resent) = firsts s.sent ∧
      ∀ d ∈ s.sent ++ resent, FirstOf s.sent d.pkt := by
  have hof : ∀ d ∈ resent, FirstOf s.sent d.pkt := fun d hd =>
    (hresent d hd).firstOf hinv.buffered
  refine ⟨firsts_append_of_firstOf hof, fun d hd => ?_⟩
  exact (List.mem_append.1 hd).elim (hinv.firstOf d) (hof d)

/-- **An iteration keeps the stream**: what it resends has been sent, and the new packet is the
next one. -/
theorem Inv.step (hinv : Inv crc32 input s) {l : Option (List Byte) × List ℕ}
    (h : (lts crc32).step s l s') : Inv crc32 input s' := by
  obtain ⟨sent, rest, hloop, hlog⟩ := h
  obtain ⟨hsender, _, _, _, -, -, -, hnum, hok⟩ := mainLoop_spec hinv.sender hloop
  obtain ⟨resent, new, rfl, hresent, hnew⟩ := mainLoop_sent hinv.sender hloop
  have hle : s.sender.allocs ≤ s'.sender.allocs := by
    rcases hnum with ⟨heq, -⟩ | ⟨heq, -⟩ <;> omega
  have hmade : ∀ d ∈ s'.sent, d.Ok crc32 input s'.sender.allocs :=
    hlog ▸ hinv.made_append hle fun d hd => (hok d hd).1
  obtain ⟨hsame, hfirstOf⟩ := hinv.firstOf_append hresent
  rw [← List.append_assoc] at hlog
  obtain ⟨rfl, hallocs, hfront⟩ | ⟨d, rfl, haddr, hallocs, hfront⟩ := hnew
  · -- the iteration makes no packet, so the first transmissions are the same
    rw [List.append_nil] at hlog
    have hsub : firsts s.sent ⊆ firsts s'.sent := by
      rw [hlog, hsame]
      exact List.Subset.refl _
    refine ⟨hsender, ?_, hmade, fun p hp => ?_, fun d hd => ?_⟩
    · rw [hlog, hsame, hallocs, hinv.numbered]
    · exact ((hfront p hp).firstOf hinv.buffered).of_subset hsub
    · exact (hfirstOf d (hlog ▸ hd)).of_subset hsub
  · -- the number of the new packet is the next one, which none of them has
    have hnot : d.pkt.addr ∉ (firsts s.sent).map fun e => e.pkt.addr := by
      rw [hinv.numbered, haddr, List.mem_range]
      exact Nat.lt_irrefl _
    have hfirsts : firsts s'.sent = firsts s.sent ++ [d] := by
      rw [hlog, firsts_concat, hsame, if_neg hnot]
    have hsub : firsts s.sent ⊆ firsts s'.sent := hfirsts ▸ List.subset_append_left ..
    have hd : FirstOf s'.sent d.pkt :=
      .of_first (hfirsts ▸ List.mem_append_right _ (List.mem_singleton_self d))
    refine ⟨hsender, ?_, hmade, fun p hp => ?_, fun e he => ?_⟩
    · rw [hfirsts, List.map_append, hinv.numbered, List.map_singleton, haddr, hallocs,
        List.range_succ]
    · rcases hfront p hp with rfl | hof
      · exact hd
      · exact (hof.firstOf hinv.buffered).of_subset hsub
    · rw [hlog] at he
      rcases List.mem_append.1 he with he | he
      · exact (hfirstOf e he).of_subset hsub
      · exact List.mem_singleton.1 he ▸ hd

theorem inv_of_reachable (h : (lts crc32).Reachable (Stream.init input) s) : Inv crc32 input s :=
  h.invariant (Inv.init input) fun _ _ _ hinv hstep => hinv.step hstep

/-! ### The input -/

theorem Inv.length_firsts (h : Inv crc32 input s) :
    (firsts s.sent).length = s.sender.allocs := by
  have hlen := congrArg List.length h.numbered
  rwa [List.length_map, List.length_range] at hlen

/-- The `i`-th first transmission. -/
theorem Inv.first (h : Inv crc32 input s) {i : ℕ} {d : Sent} (hd : (firsts s.sent)[i]? = some d) :
    d.pkt.addr = i ∧ d.Ok crc32 input s.sender.allocs := by
  have hi : i < s.sender.allocs := h.length_firsts ▸ (List.getElem?_eq_some_iff.1 hd).1
  have haddr : ((firsts s.sent).map fun e => e.pkt.addr)[i]? = some d.pkt.addr := by
    rw [List.getElem?_map, hd, Option.map_some]
  rw [h.numbered, List.getElem?_range hi, Option.some.injEq] at haddr
  exact ⟨haddr.symm, h.made d (firsts_subset _ (List.mem_of_getElem? hd))⟩

theorem Inv.map_payloadBytes (h : Inv crc32 input s) :
    (firsts s.sent).map (fun d => d.pkt.pkt.payloadBytes) =
      (List.range s.sender.allocs).map (payload input) := by
  rw [← h.numbered, List.map_map]
  exact List.map_congr_left fun d hd => (h.made d (firsts_subset _ hd)).carries.payload

/-- The payloads, and what has not been read, are the input. -/
theorem Inv.flatten_payloadBytes (h : Inv crc32 input s) :
    ((firsts s.sent).map fun d => d.pkt.pkt.payloadBytes).flatten ++
      (s.sender.infile.map Chunk.bytes).flatten = (input.map Chunk.bytes).flatten := by
  rw [h.map_payloadBytes, h.sender.infile_eq, List.map_drop]
  by_cases hle : s.sender.allocs ≤ input.length
  · rw [map_payload_range hle, ← List.flatten_append, List.take_append_drop]
  · -- the empty packet has been made, and it adds nothing
    have hallocs : s.sender.allocs = input.length + 1 := by
      have := h.sender.allocs_le
      omega
    have hnil : payload input input.length = [] := (payload_eq_nil_iff _).2 le_rfl
    rw [hallocs, List.range_succ, List.map_append, map_payload_range le_rfl, List.map_singleton,
      hnil, List.take_of_length_le (by rw [List.length_map]),
      List.drop_of_length_le (by rw [List.length_map]; omega)]
    simp

/-- An empty first transmission is the last one. -/
theorem Inv.last_of_empty (h : Inv crc32 input s) {i : ℕ} {d : Sent}
    (hd : (firsts s.sent)[i]? = some d) (hempty : d.pkt.pkt.payloadBytes = []) :
    i = input.length ∧ s.sender.infile = [] ∧ i + 1 = (firsts s.sent).length := by
  obtain ⟨haddr, hok⟩ := h.first hd
  have hlt := hok.addr_lt
  rw [hok.carries.payload, payload_eq_nil_iff] at hempty
  have := h.sender.allocs_le
  rw [h.sender.infile_eq, List.drop_eq_nil_iff, h.length_firsts]
  omega

theorem Inv.repeats (h : Inv crc32 input s) {d : Sent} (hd : FirstOf s.sent d.pkt)
    (hbytes : d.bytes = (d.pkt.pkt.sealed crc32).image) : ∃ e ∈ firsts s.sent, d.Repeats e := by
  obtain ⟨e, he, t, ht⟩ := hd
  exact ⟨e, he, .of_setTimestamp ht hbytes (h.made e (firsts_subset _ he)).bytes⟩

/-- **The packet stream is the input**, in every run of the sender.  The first transmissions are
numbered in order, and the `i`-th is what `send_packet` makes of a DATA packet with the `i`-th piece
of the input; an empty one is the last.  Every datagram repeats a first transmission, also those of
an iteration that has not come back. -/
theorem firsts_carry (h : (lts crc32).Reachable (Stream.init input) s) :
    (firsts s.sent).length = s.sender.allocs ∧
    (∀ (i : ℕ) (d : Sent), (firsts s.sent)[i]? = some d →
      d.pkt.addr = i ∧ d.pkt.pkt.Carries (i % 256) (payload input i) ∧
      sendPacket crc32 d.pkt.pkt = .ok d.bytes) ∧
    ((firsts s.sent).map fun d => d.pkt.pkt.payloadBytes).flatten ++
      (s.sender.infile.map Chunk.bytes).flatten = (input.map Chunk.bytes).flatten ∧
    (∀ (i : ℕ) (d : Sent), (firsts s.sent)[i]? = some d → d.pkt.pkt.payloadBytes = [] →
      i = input.length ∧ s.sender.infile = [] ∧ i + 1 = (firsts s.sent).length) ∧
    (∀ d ∈ s.sent, ∃ e ∈ firsts s.sent, d.Repeats e) ∧
    ∀ ready readings w loopNow later,
      receive crc32 s.sender.w ready readings = .ok (some (w, loopNow :: later)) →
      ∀ d ∈ retransmitSent crc32 (BitVec.ofNat 32 loopNow) later w,
        ∃ e ∈ firsts s.sent, d.Repeats e := by
  have hinv := inv_of_reachable h
  refine ⟨hinv.length_firsts, fun i d hd => ?_, hinv.flatten_payloadBytes,
    fun i d => hinv.last_of_empty, fun d hd => hinv.repeats (hinv.firstOf d hd)
      (hinv.made d hd).bytes, ?_⟩
  · obtain ⟨rfl, hok⟩ := hinv.first hd
    refine ⟨rfl, hok.carries, ?_⟩
    rw [sendPacket_eq crc32 hok.carries.type_ne hok.carries.getLength_le, hok.bytes]
  · intro ready readings w loopNow later hreceive d hd
    have hresp := response_of_receive_some hinv.sender.standard hreceive
    have hsendable := (hresp.buffered hinv.sender.toBuffered).sendable
    obtain ⟨hof, hbytes⟩ := ofBuffer_retransmitSent hsendable d hd
    exact hinv.repeats ((hof.trans hresp.ofBuffer).firstOf hinv.buffered) hbytes

/-- A file of one byte, and no response for five seconds: packet 0 is sent twice. -/
theorem firsts_carry_repeated :
    ∃ s, (lts Crc32.crc32).Reachable (init [⟨[0x61], by decide, by decide⟩]) s ∧
      s.sent.length = 2 ∧ (firsts s.sent).length = 1 ∧
      ∀ d ∈ s.sent, ∃ e ∈ firsts s.sent, d.Repeats e := by
  have hrun : ((mainLoop Crc32.crc32 none [0, 1]
      (Sender.init [⟨[0x61], by decide, by decide⟩])).toOption.bind fun x =>
      (mainLoop Crc32.crc32 none [5000000, 5000001, 5000002] x.1).toOption.map fun y =>
        ((x.2.1 ++ y.2.1).length, (firsts (x.2.1 ++ y.2.1)).length)) = some (2, 1) := by
    decide +kernel
  obtain ⟨⟨st₁, sent₁, rest₁⟩, h₁, hrun⟩ := Option.bind_eq_some_iff.1 hrun
  obtain ⟨⟨st₂, sent₂, rest₂⟩, h₂, hlen⟩ := Option.map_eq_some_iff.1 hrun
  obtain ⟨hsent, hfirsts⟩ := Prod.mk.inj hlen
  have hfirst : (lts Crc32.crc32).Reachable (init [⟨[0x61], by decide, by decide⟩])
      ⟨st₁, sent₁⟩ :=
    .tail (.refl _) (l := (none, [0, 1])) ⟨sent₁, rest₁, ok_of_toOption h₁, rfl⟩
  have hreach : (lts Crc32.crc32).Reachable (init [⟨[0x61], by decide, by decide⟩])
      ⟨st₂, sent₁ ++ sent₂⟩ :=
    hfirst.tail (l := (none, [5000000, 5000001, 5000002]))
      ⟨sent₂, rest₂, ok_of_toOption h₂, rfl⟩
  obtain ⟨-, -, -, -, hrepeats, -⟩ := firsts_carry hreach
  exact ⟨_, hreach, hsent, hfirsts, hrepeats⟩

end Stream

end Sender

end LosslessTransport
