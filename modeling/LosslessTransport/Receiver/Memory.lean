import LosslessTransport.Ownership
import LosslessTransport.Receiver.Abort

/-!
# The receiver in memory

`Receiver.InMemory.mainLoop` is one iteration of `main_loop` of `receiver.c` with its calls of
`pkt_new` and `pkt_del`, on a window whose nodes and packets lie in memory.
`InMemory.run_matches` compares its runs with those of `Receiver.mainLoop`: no run follows a null or
a dangling pointer or frees a packet twice, and the replies and the output are the same.

It also says what leaks.  The packet of a datagram whose sequence number is in the buffer already is
never freed; all others are, or are in the buffer.
-/

namespace LosslessTransport

namespace Receiver

namespace InMemory

/-- The state between two iterations. -/
structure State where
  m : Memory
  /-- What each call of `fwrite` has written. -/
  outfile : List (List Byte)

/-- The state in which `main` enters the loop. -/
def init : State where
  m := (Memory.create maxWindowSize maxWindowSize 255).get rfl
  outfile := []

variable (crc32 : List Byte → BitVec 32)

/-- The setter calls for a NACK. -/
def fillNack (w : Window) (seqnum : BitVec 8) (reply : Pkt) : Except Exit Pkt := do
  let reply ← checked (reply.setType (ptypeNack.setWidth 32))
  let reply ← checked (reply.setWindow (BitVec.ofNat 8 w.available))
  checked (reply.setSeqnum seqnum)

/-- The setter calls for an ACK. -/
def fillAck (w : Window) (ackTimestamp : BitVec 32) (reply : Pkt) : Except Exit Pkt := do
  let reply ← checked (reply.setType (ptypeAck.setWidth 32))
  let reply ← checked (reply.setWindow (BitVec.ofNat 8 w.available))
  let reply ← checked (reply.setSeqnum (BitVec.ofNat 8 w.start))
  checked (reply.setTimestamp ackTimestamp)

/-- The reply is filled in where it lies, and sent. -/
def sendReply (m : Memory) (reply : ℕ) (fill : Pkt → Except Exit Pkt) :
    Except Fault (List Byte × Memory) := do
  let r ← live (m.pkts reply)
  let r ← exits (fill r)
  let m ← live (m.write reply r)
  let r ← live (m.pkts reply)
  let datagram ← exits (sendPacket crc32 r)
  pure (datagram, m)

/-- Put the packet in the buffer, unless its sequence number is there already. -/
def addToBuffer (answer : Heap.Answer (Node ℕ)) (m : Memory) (pkt : ℕ) : Except Fault Memory := do
  let p ← live (m.pkts pkt)
  match ← live (m.findSeqnum p.getSeqnum.toNat) with
  | some _ => pure m
  | none =>
    let pushed := m.push answer pkt
    if pushed.1 = -1 then
      if pushed.2.fields.full then pure pushed.2 else throw (couldNotAdd pushed.2)
    else pure pushed.2

/-- The loop that writes out the packets in sequence. -/
def drain : ℕ → Memory × List (List Byte) → Option ℕ → Except Fault (Memory × List (List Byte))
  | _, s, none => pure s
  | 0, _, some _ => throw (.exit .outOfFuel)
  | fuel + 1, (m, outfile), some nextPkt => do
    let p ← live (m.pkts nextPkt)
    let outfile := outfile ++ [p.payloadBytes]
    let (popped, m) ← live (m.popTimestamp p.getTimestamp)
    if popped ≠ some nextPkt then throw (.exit .assertion)
    else do
      let p ← live (m.pkts nextPkt)
      let m := if p.getLength = 0 then m else { m with fields := m.fields.slide }
      let m ← live (m.pktDel (some nextPkt))
      let nextPkt ← live (m.findSeqnum m.fields.start)
      drain fuel (m, outfile) nextPkt

/-- `main_loop`. -/
def mainLoop (C : Calloc) (datagram : List Byte) (st : State) :
    Except Fault (State × Option (List Byte)) := do
  let buf := datagram.take maxPacketSize
  let (pkt, m) ← allocated (st.m.pktNew C.received)
  let p ← live (m.pkts pkt)
  match Pkt.decode crc32 (some buf) buf.length p with
  | none => throw (.exit .outOfBounds)
  | some (decerr, p) => do
    let m ← live (m.write pkt p)
    if decerr ≠ .ok then do
      let m ← live (m.pktDel (some pkt))
      pure ({ st with m := m }, none)
    else if ¬ m.fields.has p.getSeqnum.toNat then do
      let m ← live (m.pktDel (some pkt))
      pure ({ st with m := m }, none)
    else do
      let (reply, m) ← allocated (m.pktNew C.sent)
      let p ← live (m.pkts pkt)
      if p.getTr ≠ 0 then do
        let (datagram, m) ← sendReply crc32 m reply (fillNack m.fields p.getSeqnum)
        let m ← live (m.pktDel (some pkt))
        let m ← live (m.pktDel (some reply))
        pure ({ st with m := m }, some datagram)
      else do
        -- from here on the packet is in the buffer, or nobody frees it
        let m ← addToBuffer C.node m pkt
        let p ← live (m.pkts pkt)
        let nextPkt ← live (m.findSeqnum m.fields.start)
        let (m, outfile) ← drain m.fields.bufsize (m, st.outfile) nextPkt
        let (datagram, m) ← sendReply crc32 m reply (fillAck m.fields p.getTimestamp)
        let m ← live (m.pktDel (some reply))
        pure ({ m := m, outfile := outfile }, some datagram)

/-- The iterations on a list of datagrams, each with what `calloc` answers in it, and the replies in
order. -/
def run : List (Calloc × List Byte) → State → Except Fault (State × List (List Byte))
  | [], st => pure (st, [])
  | (C, d) :: ls, st => do
    let (st, reply) ← mainLoop crc32 C d st
    let (st, replies) ← run ls st
    pure (st, reply.toList ++ replies)

/-- The datagram is of a packet whose sequence number is in the buffer already. -/
def duplicate (st : Receiver.State) (datagram : List Byte) : Bool :=
  match received crc32 datagram with
  | none => false
  | some p =>
    st.w.has p.getSeqnum.toNat && decide (p.getTr = 0) &&
      (st.w.findSeqnum p.getSeqnum.toNat).isSome

/-- How many of the datagrams are. -/
def duplicates : List (List Byte) → Receiver.State → ℕ
  | [], _ => 0
  | d :: ds, st =>
    (if duplicate crc32 st d then 1 else 0) +
      match Receiver.mainLoop crc32 d st with
      | .ok (st, _) => duplicates ds st
      | .error _ => 0

variable {crc32} {C : Calloc} {m m' : Memory} {w w' : Window} {es : List Memory.Entry}
  {others : List ℕ} {a reply : ℕ} {p : Pkt}

open Memory (Entry Owns)

/-- The reply is what the program without memory sends. -/
theorem sendReply_matches (h : m.Owns w es (reply :: others)) (hnew : m.pkts reply = some Pkt.new)
    (fill : Pkt → Except Exit Pkt) :
    Matches (fun r d => r.1 = d ∧ r.2.Owns w es (reply :: others) ∧
        (∀ b ≠ reply, r.2.pkts b = m.pkts b))
      (sendReply crc32 m reply fill) (fill Pkt.new >>= sendPacket crc32) := by
  unfold sendReply
  refine .live hnew (.exits fun r _ => ?_)
  obtain ⟨m', hwrite, howns, hr, hsame, -⟩ := h.write r
  refine .live hwrite (.live hr ?_)
  exact .exits_last fun d _ => .ok ⟨rfl, howns, hsame⟩

theorem sendNack_eq (w : Window) (pkt : PktPtr) :
    sendNack crc32 w pkt = fillNack w pkt.pkt.getSeqnum Pkt.new >>= sendPacket crc32 := by
  simp only [sendNack, fillNack, bind_assoc]

theorem sendAck_eq (w : Window) (t : BitVec 32) :
    sendAck crc32 w t = fillAck w t Pkt.new >>= sendPacket crc32 := by
  simp only [sendAck, fillAck, bind_assoc]

/-- **The drain loop** in memory and without. -/
theorem drain_matches (fuel : ℕ) (h : m.Owns w es others) (outfile : List (List Byte))
    {next : Option Entry} (hnext : ∀ e, next = some e → e ∈ es) :
    Matches (fun r r' => r.2 = r'.2 ∧ (∀ b ∈ others, r.1.pkts b = m.pkts b) ∧
        ∃ es', r.1.Owns r'.1 es' others)
      (drain fuel (m, outfile) (next.map Entry.addr))
      (Receiver.drain fuel (w, outfile) (next.map Entry.ptr)) := by
  induction fuel generalizing m w es outfile next with
  | zero =>
    cases next with
    | none => exact ⟨rfl, fun _ _ => rfl, es, h⟩
    | some e => exact .error .outOfFuel
  | succ fuel ih =>
    cases next with
    | none => exact ⟨rfl, fun _ _ => rfl, es, h⟩
    | some e =>
      have he := hnext e rfl
      simp only [drain, Receiver.drain, Option.map_some]
      refine .live (h.pkts e he) ?_
      obtain ⟨i, hi, hm, hw⟩ := h.popTimestamp e.ptr.timestamp
      change m.popTimestamp e.ptr.pkt.getTimestamp = _ at hm
      rw [hm, hw]
      cases hei : es[i]? with
      | none =>
        obtain ⟨m₁, hpop, hw', -, -⟩ := h.popNode_of_none hei hi
        refine .live hpop ?_
        rw [hw']
        exact .error .assertion
      | some e' =>
        obtain ⟨m₁, hpop, hw', hpkts, h₁⟩ := h.popNode hei
        refine .live hpop ?_
        dsimp only
        rw [hw', Option.map_some]
        have hiff := h.addr_eq_iff (List.mem_of_getElem? hei) he
        by_cases hself : e'.addr = e.addr
        · rw [if_neg (not_not.2 (congrArg some hself)),
            if_neg (not_not.2 (congrArg some (hiff.1 hself)))]
          -- the packet that has been popped is freed
          obtain rfl : e' = e :=
            List.inj_on_of_nodup_map h.nodup (List.mem_of_getElem? hei) he hself
          refine .live (hpkts ▸ h.pkts e' he) ?_
          have h₂ : (if e'.ptr.pkt.getLength = 0 then m₁
              else { m₁ with fields := m₁.fields.slide }).Owns
                (if e'.ptr.pkt.getLength = 0 then (w.popNode i).2 else (w.popNode i).2.slide)
                (es.eraseIdx i) (e'.addr :: others) := by
            split_ifs
            · exact h₁
            · exact h₁.slide
          obtain ⟨m₃, hdel, h₃, hothers, -⟩ := h₂.pktDel
          refine .live hdel ?_
          obtain ⟨hfind, hfind'⟩ := h₃.findSeqnum
            (if e'.ptr.pkt.getLength = 0 then (w.popNode i).2 else (w.popNode i).2.slide).start
          refine .live (by rw [h₃.fields]; exact hfind) ?_
          rw [hfind']
          refine (ih h₃ _ fun e he => List.mem_of_find?_eq_some he).mono ?_
          rintro r r' ⟨hout, hsame, hrest⟩
          refine ⟨hout, fun b hb => ?_, hrest⟩
          rw [hsame b hb, hothers b (ne_of_mem_of_not_mem hb h₁.not_mem.2), ← hpkts]
          split_ifs <;> rfl
        · rw [if_pos fun heq => hself (Option.some.inj heq),
            if_pos fun heq => hself (hiff.2 (Option.some.inj heq))]
          exact .error .assertion

/-- The packet is put into the buffer; or its number is there already, and it stays with the
program. -/
theorem addToBuffer_matches (h : m.Owns w es (a :: others)) (hp : m.pkts a = some p) {n : ℕ}
    (hn : n ∉ w.front.map PktPtr.addr) (hfull : w.full = false) (answer : Heap.Answer (Node ℕ)) :
    Matches (fun m' w' => m'.pkts = m.pkts ∧
        ∃ es', m'.Owns w' es'
          (if (w.findSeqnum p.getSeqnum.toNat).isSome then a :: others else others))
      (addToBuffer answer m a) (Receiver.addToBuffer w ⟨n, p⟩) := by
  refine .live hp ?_
  obtain ⟨hfind, hfind'⟩ := h.findSeqnum p.getSeqnum.toNat
  refine .live hfind ?_
  have hseq : (⟨n, p⟩ : PktPtr).seqnum = p.getSeqnum.toNat := rfl
  rw [Receiver.addToBuffer, hseq, hfind']
  cases es.find? fun e => decide (e.ptr.seqnum = p.getSeqnum.toNat) with
  | some e => exact .ok ⟨rfl, es, h⟩
  | none =>
    have hw := Window.push_of_not_full ⟨n, p⟩ hfull
    rcases h.push (p := ⟨n, p⟩) hfull hp hn answer with hpush | ⟨m', k, hpush, hpkts, hrep⟩
    · have hfields : m.fields.full = false := h.full_eq.trans hfull
      simp only [Option.map_none, hpush, hfields]
      exact .couldNotAdd hfields
    · simp only [Option.map_none, hpush, hw]
      exact .ok ⟨hpkts, _, hrep⟩

/-- The state in memory and the one without; the program has `n` packets that it will not free. -/
structure Sim (n : ℕ) (s : State) (st : Receiver.State) : Prop where
  owns : ∃ es others, s.m.Owns st.w es others ∧ others.length = n
  outfile : s.outfile = st.outfile
  inv : Inv st

/-- The answer to a truncated packet. -/
theorem nack_matches {pkt : ℕ} (h : m.Owns w es (reply :: pkt :: others))
    (hnew : m.pkts reply = some Pkt.new) (q : PktPtr) {s : State} {st : Receiver.State} :
    Matches (fun r r' => r.2 = r'.2 ∧ r.1.outfile = s.outfile ∧ r'.1 = st ∧
        r.1.m.Owns w es others)
      (do
        let (datagram, m) ← sendReply crc32 m reply (fillNack m.fields q.pkt.getSeqnum)
        let m ← live (m.pktDel (some pkt))
        let m ← live (m.pktDel (some reply))
        pure ({ s with m := m }, some datagram))
      (do
        let reply ← sendNack crc32 w q
        pure (st, some reply)) := by
  have hfill : fillNack m.fields q.pkt.getSeqnum = fillNack w q.pkt.getSeqnum := by
    rw [h.fields]
    rfl
  rw [hfill, sendNack_eq]
  refine (sendReply_matches h hnew _).bind ?_
  rintro ⟨d, m'⟩ d' ⟨rfl, h', -⟩
  obtain ⟨m₁, hdel, h₁, -, -⟩ := (h'.perm (.swap ..)).pktDel
  refine .live hdel ?_
  obtain ⟨m₂, hdel', h₂, -, -⟩ := h₁.pktDel
  exact .live hdel' (.ok ⟨rfl, rfl, rfl, h₂⟩)

variable (crc32 C) in
/-- The answer to a packet that was not truncated. -/
theorem ack_matches {pkt : ℕ} (h : m.Owns w es (reply :: pkt :: others))
    (hnew : m.pkts reply = some Pkt.new) (hp : m.pkts pkt = some p) {s : State}
    (st : Receiver.State) (hout : s.outfile = st.outfile) {n : ℕ}
    (hn : n ∉ w.front.map PktPtr.addr) (hfull : w.full = false) :
    Matches (fun r r' => r.2 = r'.2 ∧ r.1.outfile = r'.1.outfile ∧ ∃ es', r.1.m.Owns r'.1.w es'
        (if (w.findSeqnum p.getSeqnum.toNat).isSome then pkt :: others else others))
      (do
        let m ← addToBuffer C.node m pkt
        let p ← live (m.pkts pkt)
        let nextPkt ← live (m.findSeqnum m.fields.start)
        let (m, outfile) ← drain m.fields.bufsize (m, s.outfile) nextPkt
        let (datagram, m) ← sendReply crc32 m reply (fillAck m.fields p.getTimestamp)
        let m ← live (m.pktDel (some reply))
        pure (({ m := m, outfile := outfile } : State), some datagram))
      (do
        let w ← Receiver.addToBuffer w ⟨n, p⟩
        let (w, outfile) ← Receiver.drain w.front.length (w, st.outfile) (w.findSeqnum w.start)
        let reply ← sendAck crc32 w (⟨n, p⟩ : PktPtr).timestamp
        pure ({ st with w := w, outfile := outfile }, some reply)) := by
  refine (addToBuffer_matches (h.perm (.swap ..)) hp hn hfull C.node).bind ?_
  rintro m₁ w₁ ⟨hpkts, es₁, h₁⟩
  have h₁ : m₁.Owns w₁ es₁ (reply ::
      if (w.findSeqnum p.getSeqnum.toNat).isSome then pkt :: others else others) := by
    split_ifs at h₁ ⊢
    · exact h₁.perm (.swap ..)
    · exact h₁
  generalize (if (w.findSeqnum p.getSeqnum.toNat).isSome then pkt :: others else others) = rest
    at h₁ ⊢
  refine .live (hpkts ▸ hp) ?_
  obtain ⟨hfind, hfind'⟩ := h₁.findSeqnum w₁.start
  refine .live (by rw [h₁.fields]; exact hfind) ?_
  have hfuel : m₁.fields.bufsize = w₁.front.length := by
    rw [h₁.fields]
    exact h₁.wf.bufsize_eq
  rw [hfuel, hfind', hout]
  refine (drain_matches _ h₁ _ fun e he => List.mem_of_find?_eq_some he).bind ?_
  rintro ⟨m₂, outfile⟩ ⟨w₂, outfile'⟩ ⟨rfl, hsame, es₂, h₂⟩
  have hfill : fillAck m₂.fields p.getTimestamp = fillAck w₂ p.getTimestamp := by
    rw [h₂.fields]
    rfl
  dsimp only
  rw [hfill, sendAck_eq]
  have hreply : m₂.pkts reply = some Pkt.new := by
    rw [hsame reply (List.mem_cons_self ..), hpkts, hnew]
  refine (sendReply_matches h₂ hreply _).bind ?_
  rintro ⟨d, m₃⟩ d' ⟨rfl, h₃, -⟩
  obtain ⟨m₄, hdel, h₄, -, -⟩ := h₃.pktDel
  exact .live hdel (.ok ⟨rfl, rfl, es₂, h₄⟩)

/-- **One iteration** in memory and without. -/
theorem mainLoop_matches {s : State} {st : Receiver.State} {n : ℕ} (h : Sim n s st)
    (datagram : List Byte) :
    Matches (fun r r' => r.2 = r'.2 ∧
        Sim (n + if duplicate crc32 st datagram then 1 else 0) r.1 r'.1)
      (mainLoop crc32 C datagram s) (Receiver.mainLoop crc32 datagram st) := by
  obtain ⟨⟨es, others, howns, rfl⟩, hout, hinv⟩ := h
  suffices hmatch : Matches (fun r r' => r.2 = r'.2 ∧ r.1.outfile = r'.1.outfile ∧
      ∃ es' others', r.1.m.Owns r'.1.w es' others' ∧ others'.length =
        others.length + if duplicate crc32 st datagram then 1 else 0)
      (mainLoop crc32 C datagram s) (Receiver.mainLoop crc32 datagram st) by
    refine (hmatch.and_right (Q := fun r => Inv r.1) fun r hr => hinv.mainLoop hr).mono ?_
    rintro r r' ⟨⟨hreply, hout, hrest⟩, hinv'⟩
    exact ⟨hreply, hrest, hout, hinv'⟩
  unfold mainLoop Receiver.mainLoop
  refine .allocated fun ⟨pkt, m₁⟩ hnew => ?_
  obtain ⟨h₁, hp₁, -, -⟩ := howns.pktNew hnew
  refine .live hp₁ ?_
  dsimp only
  cases hdec : Pkt.decode crc32 (some (datagram.take maxPacketSize))
      (datagram.take maxPacketSize).length Pkt.new with
  | none => exact .error .outOfBounds
  | some r =>
    obtain ⟨decerr, p⟩ := r
    obtain ⟨m₂, hwrite, h₂, hp₂, -, -⟩ := h₁.write p
    refine .live hwrite ?_
    have hdup : duplicate crc32 st datagram = true ↔ decerr = .ok ∧
        st.w.has p.getSeqnum.toNat ∧ p.getTr = 0 ∧ (st.w.findSeqnum p.getSeqnum.toNat).isSome := by
      rw [duplicate, received_of_decode hdec]
      cases decerr <;> simp [and_assoc]
    by_cases herr : decerr ≠ .ok
    · obtain ⟨m₃, hdel, h₃, -, -⟩ := h₂.pktDel
      simp only [if_pos herr]
      refine .live hdel (.ok ⟨rfl, hout, es, others, h₃, ?_⟩)
      rw [if_neg fun hd => herr (hdup.1 hd).1, Nat.add_zero]
    simp only [if_neg herr]
    change Matches _ _ (if ¬ st.w.has p.getSeqnum.toNat then _ else _)
    have hfields : m₂.fields.has p.getSeqnum.toNat = st.w.has p.getSeqnum.toNat := by
      rw [h₂.fields]
      rfl
    rw [hfields]
    by_cases hhas : ¬ st.w.has p.getSeqnum.toNat = true
    · obtain ⟨m₃, hdel, h₃, -, -⟩ := h₂.pktDel
      rw [if_pos hhas, if_pos hhas]
      refine .live hdel (.ok ⟨rfl, hout, es, others, h₃, ?_⟩)
      rw [if_neg fun hd => hhas (hdup.1 hd).2.1, Nat.add_zero]
    rw [if_neg hhas, if_neg hhas]
    refine .allocated fun ⟨reply, m₃⟩ hnew => ?_
    obtain ⟨h₃, hreply, hkeep, -⟩ := h₂.pktNew hnew
    refine .live (hkeep pkt p hp₂) ?_
    by_cases htr : p.getTr ≠ 0
    · rw [if_pos htr, if_pos htr]
      refine (nack_matches h₃ hreply ⟨st.allocs, p⟩).mono ?_
      rintro r r' ⟨hreply, hout', hst, h'⟩
      refine ⟨hreply, ?_, es, others, hst ▸ h', ?_⟩
      · rw [hout', hst, hout]
      · rw [if_neg fun hd => htr (hdup.1 hd).2.2.1, Nat.add_zero]
    · rw [if_neg htr, if_neg htr]
      have hn : st.allocs ∉ st.w.front.map PktPtr.addr := fun hmem => by
        obtain ⟨q, hq, heq⟩ := List.mem_map.1 hmem
        exact Nat.ne_of_lt (hinv.addr_lt q hq) heq
      refine (ack_matches crc32 C h₃ hreply (hkeep pkt p hp₂)
        { st with allocs := st.allocs + 1 } hout hn hinv.not_full).mono ?_
      rintro r r' ⟨hreply, hout', es', h'⟩
      refine ⟨hreply, hout', es', _, h', ?_⟩
      have hiff : duplicate crc32 st datagram = true ↔
          (st.w.findSeqnum p.getSeqnum.toNat).isSome :=
        hdup.trans ⟨fun hd => hd.2.2.2, fun hd =>
          ⟨not_not.1 herr, not_not.1 hhas, not_not.1 htr, hd⟩⟩
      simp only [hiff]
      split_ifs
      · rfl
      · rfl

theorem Sim.init : Sim 0 init Receiver.init where
  owns := ⟨[], [], ⟨⟨rfl, .empty, rfl, nofun, .nil, .nil, Inv.init.standard.toWf⟩,
    fun _ => ⟨nofun, nofun⟩, .nil⟩, rfl⟩
  outfile := rfl
  inv := Inv.init

variable (crc32) in
/-- A run in memory and without. -/
theorem run_matches {s : State} {st : Receiver.State} {n : ℕ} (h : Sim n s st)
    (ls : List (Calloc × List Byte)) :
    Matches (fun r r' => r.2 = r'.2 ∧ Sim (n + duplicates crc32 (ls.map Prod.snd) st) r.1 r'.1)
      (run crc32 ls s) (Receiver.run crc32 (ls.map Prod.snd) st) := by
  induction ls generalizing s st n with
  | nil => exact .ok ⟨rfl, h⟩
  | cons l ls ih =>
    obtain ⟨C, d⟩ := l
    rw [List.map_cons]
    unfold run Receiver.run
    refine ((mainLoop_matches h d).and_right
      (Q := fun r => Receiver.mainLoop crc32 d st = .ok r) fun _ hr => hr).bind ?_
    rintro ⟨s', reply⟩ ⟨st', reply'⟩ ⟨⟨rfl, h'⟩, hloop⟩
    refine (ih h').bind ?_
    rintro ⟨s'', replies⟩ ⟨st'', replies'⟩ ⟨rfl, h''⟩
    refine .ok ⟨rfl, ?_⟩
    rw [duplicates, hloop]
    rwa [Nat.add_assoc] at h''

/-- **The receiver in memory**: whatever datagrams come, and whatever `calloc` answers to each call,
no iteration follows a null or a dangling pointer, frees a packet twice or goes on for ever: if one
does not come back, `calloc` has failed or the assertion of the drain loop has.  Otherwise the
receiver answers and writes what it does without memory; and the packets that are live are those in
the buffer, and one for each datagram whose packet was there already. -/
theorem run_leaks_duplicates (ls : List (Calloc × List Byte)) :
    (∀ e, run crc32 ls init = .error e →
      e = .noMemory ∨ e = .exit .assertion) ∧
    ∀ s replies, run crc32 ls init = .ok (s, replies) →
      ∃ st es leaked, Receiver.run crc32 (ls.map Prod.snd) Receiver.init = .ok (st, replies) ∧
        s.outfile = st.outfile ∧ s.m.Owns st.w es leaked ∧
        leaked.length = duplicates crc32 (ls.map Prod.snd) Receiver.init := by
  have hmatch := run_matches crc32 Sim.init ls
  constructor
  · intro e he
    rw [he] at hmatch
    rcases hmatch.of_error with rfl | ⟨e', rfl, he'⟩
    · exact .inl rfl
    · have hlist : (∃ r, Receiver.run crc32 (ls.map Prod.snd) Receiver.init = .ok r) ∨
          Receiver.run crc32 (ls.map Prod.snd) Receiver.init = .error .assertion :=
        run_ok_or_assertion Inv.init _
      rcases hlist with ⟨r, hr⟩ | hr
      · rw [hr] at he'
        cases he'
      · rw [hr] at he'
        cases he'
        exact .inr rfl
  · intro s replies hrun
    rw [hrun] at hmatch
    obtain ⟨⟨st, replies'⟩, hrun', rfl, hsim⟩ := hmatch.of_ok
    obtain ⟨es, leaked, howns, hlen⟩ := hsim.owns
    exact ⟨st, es, leaked, hrun', hsim.outfile, howns, hlen.trans (Nat.zero_add _)⟩

/-- Packet 1 comes early, and once more.  The second copy is put where the first reply was; there
would be no memory for a second node. -/
def twice : List (Calloc × List Byte) :=
  [(⟨.place 0, .place 1, .place 5⟩,
    [0x40, 1, 0, 1, 0, 0, 0, 7, 0x49, 0xCC, 0xAA, 0x23, 0x61, 0xE8, 0xB7, 0xBE, 0x43]),
   (⟨.place 1, .place 8, .null⟩,
    [0x40, 1, 0, 1, 0, 0, 0, 7, 0x49, 0xCC, 0xAA, 0x23, 0x61, 0xE8, 0xB7, 0xBE, 0x43])]

/-- The second copy is never freed. -/
theorem run_leaks_duplicates_twice :
    ∃ s replies st es leaked, run Crc32.crc32 twice init = .ok (s, replies) ∧
      s.m.Owns st es leaked ∧ leaked.length = 1 := by
  have hok : (run Crc32.crc32 twice init).toOption.isSome = true := by decide +kernel
  obtain ⟨⟨s, replies⟩, hr⟩ := Option.isSome_iff_exists.1 hok
  have hrun := ok_of_toOption hr
  obtain ⟨st, es, leaked, -, -, howns, hlen⟩ := (run_leaks_duplicates twice).2 s replies hrun
  have hdup : duplicates Crc32.crc32 (twice.map Prod.snd) Receiver.init = 1 := by decide +kernel
  exact ⟨s, replies, st.w, es, leaked, hrun, howns, hlen.trans hdup⟩

end InMemory

end Receiver

end LosslessTransport
