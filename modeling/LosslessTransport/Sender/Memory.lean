import LosslessTransport.Ownership
import LosslessTransport.Sender.Robust

/-!
# The sender in memory

`Sender.InMemory.mainLoop` is one iteration of `main_loop` of `sender.c` with its calls of `pkt_new`
and `pkt_del`, on a window whose nodes and packets lie in memory, and `InMemory.run` the loop of
`main`.  `InMemory.run_matches` compares its runs with those of `Sender.mainLoop`, whatever is
received and whatever the clock says: no run follows a null or a dangling pointer or frees a packet
twice, and the same datagrams are sent.

What leaks is the response when it is a DATA packet: the iteration returns before it is freed.
Every other response is freed, and so is every packet that has been taken out of the buffer.
-/

namespace LosslessTransport

namespace Sender

variable (crc32 : List Byte → BitVec 32)

/-- The loop of `main`, on what is received and read in each iteration, with the datagrams sent. -/
def run : List (Option (List Byte) × List ℕ) → State → Except Exit (State × List Sent)
  | [], st => pure (st, [])
  | (ready, readings) :: ls, st =>
    if st.running then do
      let (st, sent, _) ← mainLoop crc32 ready readings st
      let (st, rest) ← run ls st
      pure (st, sent ++ rest)
    else pure (st, [])

namespace InMemory

/-- The state between two iterations. -/
structure State where
  m : Memory
  next : ℕ
  sentEof : Bool
  infile : List Chunk

/-- The state in which `main` enters the loop. -/
def init (infile : List Chunk) : State where
  m := (Memory.create 1 maxWindowSize 255).get rfl
  next := 0
  sentEof := false
  infile := infile

/-- The condition of the loop in `main`. -/
def State.running (st : State) : Bool := !st.sentEof || !st.m.fields.empty

/-- `get_timeout`. -/
def getTimeout (st : State) (readings : List ℕ) : Except Fault (BitVec 32 × List ℕ) :=
  if (st.m.fields.full && !st.m.fields.empty) || st.sentEof then do
    let pkt ← live st.m.peekMinTimestamp
    let p ← live (pkt.bind st.m.pkts)
    let (now, readings) ← exits (getMonotime readings)
    pure (if p.getTimestamp > now then p.getTimestamp - now else 0, readings)
  else pure (0, readings)

/-- The loop of `handle_ack`. -/
def popAcked (ack : ℕ) (fuel : ℕ) (m : Memory) (poppedTimestamp : Bool) :
    Except Fault (Memory × Bool) := do
  match ← live m.peekMinSeqnum with
  | none => pure (m, poppedTimestamp)
  | some minSeqnum => do
    let p ← live (m.pkts minSeqnum)
    let a ← live (m.pkts ack)
    if p.getSeqnum.toNat < a.getSeqnum.toNat then
      match fuel with
      | 0 => throw (.exit .outOfFuel)
      | fuel + 1 => do
        let (popped, m) ← live m.popMinSeqnum
        if popped ≠ some minSeqnum then throw (.exit .assertion)
        else do
          let p ← live (m.pkts minSeqnum)
          let m ← live (m.pktDel (some minSeqnum))
          popAcked ack fuel m (poppedTimestamp || decide (p.getTimestamp = a.getTimestamp))
    else pure (m, poppedTimestamp)

/-- `handle_ack`. -/
def handleAck (m : Memory) (ack : ℕ) : Except Fault Memory := do
  let (m, poppedTimestamp) ← popAcked ack m.fields.bufsize m false
  let a ← live (m.pkts ack)
  match m.fields.slideTo a.getSeqnum.toNat with
  | none => throw (.exit .assertion)
  | some fields => do
    let m := { m with fields := fields }
    if poppedTimestamp then pure m
    else do
      let (last, m) ← live (m.popTimestamp a.getTimestamp)
      live (m.pktDel last)

/-- `handle_nack`. -/
def handleNack (m : Memory) (nack : ℕ) (readings : List ℕ) : Except Fault (Memory × List ℕ) := do
  let p ← live (m.pkts nack)
  if ¬ m.fields.has p.getSeqnum.toNat then pure (m, readings)
  else do
    match ← live (m.findSeqnum p.getSeqnum.toNat) with
    | none => pure (m, readings)
    | some found => do
      let (now, readings) ← exits (getMonotime readings)
      let q ← live (m.pkts found)
      let m ← live (m.write found (q.setTimestamp now).2)
      pure (m, readings)

/-- The end of the response handling. -/
def resizeTo (m : Memory) (resp : ℕ) : Except Fault Memory := do
  let p ← live (m.pkts resp)
  let swin := m.fields.getMaxSize
  let rwin := p.getWindow.toNat
  let resized := m.fields.resize (if swin < rwin then swin else rwin)
  if resized.1 ≠ 0 then throw (.exit .assertion) else pure { m with fields := resized.2 }

/-- The handling of a datagram that was received; without readings left it is the early return. -/
def handleResponse (C : Calloc) (m : Memory) (datagram : List Byte) (readings : List ℕ) :
    Except Fault (Memory × Option (List ℕ)) := do
  let buf := datagram.take maxPacketSize
  let (resp, m) ← allocated (m.pktNew C.received)
  let p ← live (m.pkts resp)
  match Pkt.decode crc32 (some buf) buf.length p with
  | none => throw (.exit .outOfBounds)
  | some (err, p) => do
    let m ← live (m.write resp p)
    if err ≠ .ok then do
      let m ← live (m.pktDel (some resp))
      pure (m, some readings)
    -- this return leaves the response behind
    else if p.getType = ptypeData then pure (m, none)
    else if p.getType = ptypeAck then do
      let m ← handleAck m resp
      let m ← resizeTo m resp
      let m ← live (m.pktDel (some resp))
      pure (m, some readings)
    else do
      let (m, readings) ← handleNack m resp readings
      let m ← resizeTo m resp
      let m ← live (m.pktDel (some resp))
      pure (m, some readings)

/-- The loop of `retransmit_packets`. -/
def retransmitExpired (loopNow : BitVec 32) (readings : List ℕ) (m : Memory) :
    Except Fault (Memory × List (List Byte) × List ℕ) := do
  match ← live m.peekMinTimestamp with
  | none => pure (m, [], readings)
  | some pkt => do
    let p ← live (m.pkts pkt)
    if p.getTimestamp ≤ loopNow then
      match readings with
      | [] => throw (.exit .blocked)
      | now :: readings => do
        let updated ← live (m.updateTimestamp p.getTimestamp (BitVec.ofNat 32 now + timer))
        if updated.1 = -1 then throw (.exit .cannotUpdateTimestamp)
        else do
          let p ← live (updated.2.pkts pkt)
          let datagram ← exits (sendPacket crc32 p)
          let (m, sent, readings) ← retransmitExpired loopNow readings updated.2
          pure (m, datagram :: sent, readings)
    else pure (m, [], readings)

/-- `retransmit_packets`. -/
def retransmitPackets (m : Memory) (readings : List ℕ) :
    Except Fault (Memory × List (List Byte) × List ℕ) := do
  let (loopNow, readings) ← exits (getMonotime readings)
  retransmitExpired crc32 loopNow readings m

/-- What the next call of `fread` returns. -/
def State.data (st : State) : List Byte :=
  match st.infile with
  | [] => []
  | chunk :: _ => chunk.bytes

/-- The setter calls for a new packet, up to its timestamp. -/
def fillHead (next : ℕ) (pkt : Pkt) : Except Exit Pkt := do
  let pkt ← checked (pkt.setType (ptypeData.setWidth 32))
  let pkt ← checked (pkt.setSeqnum (BitVec.ofNat 8 next))
  checked (pkt.setWindow 0)

/-- The last setter call. -/
def fillPayload (data : List Byte) (pkt : Pkt) : Except Exit Pkt :=
  match pkt.setPayload (some (data ++ List.replicate (maxPayloadSize - data.length) 0))
    (BitVec.ofNat 16 data.length) with
  | none => throw .outOfBounds
  | some r => checked r

/-- The end of the iteration: read from the file, send and buffer a new packet. -/
def sendNew (C : Calloc) (st : State) (readings : List ℕ) :
    Except Fault (State × List Byte × List ℕ) := do
  let (pkt, m) ← allocated (st.m.pktNew C.sent)
  let p ← live (m.pkts pkt)
  let p ← exits (fillHead st.next p)
  let (now, readings) ← exits (getMonotime readings)
  let p ← exits (checked (p.setTimestamp (now + timer)))
  let p ← exits (fillPayload st.data p)
  let m ← live (m.write pkt p)
  let p ← live (m.pkts pkt)
  let datagram ← exits (sendPacket crc32 p)
  let pushed := m.push C.node pkt
  if pushed.1 = -1 then throw (couldNotAdd pushed.2)
  else
    pure ({ m := pushed.2
            next := (st.next + 1) % 256
            sentEof := st.sentEof || decide (st.data.length = 0)
            infile := st.infile.tail }, datagram, readings)

/-- The call of `select`. -/
def await (ready : Option (List Byte)) (readings : List ℕ) (st : State) :
    Except Fault (List ℕ) :=
  if !st.sentEof && st.m.fields.bufferSize = 0 && st.m.fields.getSize = 0 then
    if ready.isNone then throw (.exit .blocked) else pure readings
  else do
    let (_, readings) ← getTimeout st readings
    pure readings

/-- The part of the iteration that receives a response, if there is one. -/
def receive (C : Calloc) (m : Memory) (ready : Option (List Byte)) (readings : List ℕ) :
    Except Fault (Memory × Option (List ℕ)) :=
  match ready with
  | none => pure (m, some readings)
  | some datagram => handleResponse crc32 C m datagram readings

/-- `main_loop`. -/
def mainLoop (C : Calloc) (ready : Option (List Byte)) (readings : List ℕ) (st : State) :
    Except Fault (State × List (List Byte) × List ℕ) := do
  let readings ← await ready readings st
  match ← receive crc32 C st.m ready readings with
  | (m, none) => pure ({ st with m := m }, [], readings)
  | (m, some readings) => do
    let (m, sent, readings) ← retransmitPackets crc32 m readings
    let st := { st with m := m }
    if ¬ m.fields.full ∧ ¬ st.sentEof then do
      let (st, new, readings) ← sendNew crc32 C st readings
      pure (st, sent ++ [new], readings)
    else pure (st, sent, readings)

/-- The loop of `main`, on what `calloc` answers and what is received and read in each iteration. -/
def run : List (Calloc × Option (List Byte) × List ℕ) → State →
    Except Fault (State × List (List Byte))
  | [], st => pure (st, [])
  | (C, ready, readings) :: ls, st =>
    if st.running then do
      let (st, sent, _) ← mainLoop crc32 C ready readings st
      let (st, rest) ← run ls st
      pure (st, sent ++ rest)
    else pure (st, [])

/-- The datagram is a DATA packet. -/
def isData (ready : Option (List Byte)) : Bool :=
  ready.any fun d => (received crc32 d).any fun p => p.getType = ptypeData

variable {crc32} {C : Calloc} {m m' : Memory} {w w' : Window} {es : List Memory.Entry}
  {others : List ℕ} {ack resp : ℕ} {a : Pkt} {st : Sender.State} {s : State} {input : List Chunk}

open Memory (Entry Owns)

/-- The state in memory is that of the program without; the program has these packets. -/
structure Holds (s : State) (st : Sender.State) (es : List Entry) (others : List ℕ) : Prop where
  owns : s.m.Owns st.w es others
  next : s.next = st.next
  sentEof : s.sentEof = st.sentEof
  infile : s.infile = st.infile

/-! ### The parts of an iteration -/

theorem getTimeout_matches (h : Holds s st es others) (hw : st.w.Standard) (hrun : st.running)
    (readings : List ℕ) :
    Matches (fun r r' => r = r') (getTimeout s readings) (Sender.getTimeout st readings) := by
  have hcond : ((s.m.fields.full && !s.m.fields.empty) || s.sentEof) =
      ((st.w.full && !st.w.empty) || st.sentEof) := by
    rw [h.owns.fields, h.sentEof]
    rfl
  unfold getTimeout Sender.getTimeout
  rw [hcond]
  by_cases htimer : ((st.w.full && !st.w.empty) || st.sentEof) = true
  · rw [if_pos htimer, if_pos htimer]
    obtain ⟨hpeek, hpeek'⟩ := h.owns.peekMinTimestamp
    refine .live hpeek ?_
    obtain ⟨p, hp⟩ := exists_peekMinTimestamp hw hrun htimer
    rw [hpeek']
    cases he : es[st.w.findMinTimestamp]? with
    | none =>
      rw [hpeek', he] at hp
      cases hp
    | some e =>
      refine .live (h.owns.pkts e (List.mem_of_getElem? he)) ?_
      exact .exits fun r _ => .ok rfl
  · rw [if_neg htimer, if_neg htimer]
    exact .ok rfl

/-- **The loop of `handle_ack`** in memory and without. -/
theorem popAcked_matches (fuel : ℕ) (h : m.Owns w es (ack :: others)) (ha : m.pkts ack = some a)
    (popped : Bool) :
    Matches (fun r r' => r.2 = r'.2 ∧ r.1.pkts ack = some a ∧
        ∃ es', r.1.Owns r'.1 es' (ack :: others))
      (popAcked ack fuel m popped) (Sender.popAcked a fuel w popped) := by
  induction fuel generalizing m w es popped with
  | zero =>
    unfold popAcked Sender.popAcked
    obtain ⟨hpeek, hpeek'⟩ := h.peekMinSeqnum
    refine .live hpeek ?_
    rw [hpeek']
    cases he : es[w.findMinSeqnum]? with
    | none => exact .ok ⟨rfl, ha, es, h⟩
    | some e =>
      refine .live (h.pkts e (List.mem_of_getElem? he)) (.live ha ?_)
      change Matches _ _ (if e.ptr.pkt.getSeqnum.toNat < a.getSeqnum.toNat then _ else _)
      split_ifs
      · exact .error .outOfFuel
      · exact .ok ⟨rfl, ha, es, h⟩
  | succ fuel ih =>
    unfold popAcked Sender.popAcked
    obtain ⟨hpeek, hpeek'⟩ := h.peekMinSeqnum
    refine .live hpeek ?_
    rw [hpeek']
    cases he : es[w.findMinSeqnum]? with
    | none => exact .ok ⟨rfl, ha, es, h⟩
    | some e =>
      refine .live (h.pkts e (List.mem_of_getElem? he)) (.live ha ?_)
      change Matches _ _ (if e.ptr.pkt.getSeqnum.toNat < a.getSeqnum.toNat then _ else _)
      split_ifs
      · obtain ⟨m₁, hpop, hpop', hpkts, h₁⟩ := h.popNode he
        have hmin : m.popMinSeqnum = some (some e.addr, m₁) := by
          rw [Memory.popMinSeqnum, h.findMinSeqnum, Option.bind_some, hpop]
        refine .live hmin ?_
        have hsame : w.popMinSeqnum.1.map PktPtr.addr = some e.ptr.addr := by
          rw [Window.popMinSeqnum, hpop']
          rfl
        dsimp only [Option.map_some]
        rw [if_neg (not_not.2 rfl), if_neg (not_not.2 hsame)]
        refine .live (hpkts ▸ h.pkts e (List.mem_of_getElem? he)) ?_
        obtain ⟨m₂, hdel, h₂, hothers, -⟩ := h₁.pktDel
        have hne : ack ≠ e.addr := ne_of_mem_of_not_mem (List.mem_cons_self ..) h₁.not_mem.2
        exact .live hdel (ih h₂ (by rw [hothers ack hne, hpkts, ha]) _)
      · exact .ok ⟨rfl, ha, es, h⟩

theorem handleAck_matches (h : m.Owns w es (ack :: others)) (ha : m.pkts ack = some a) :
    Matches (fun m' w' => m'.pkts ack = some a ∧ ∃ es', m'.Owns w' es' (ack :: others))
      (handleAck m ack) (Sender.handleAck w a) := by
  have hfuel : m.fields.bufsize = w.front.length := by
    rw [h.fields]
    exact h.wf.bufsize_eq
  unfold handleAck Sender.handleAck
  rw [hfuel]
  refine (popAcked_matches _ h ha false).bind ?_
  rintro ⟨m₁, popped⟩ ⟨w₁, popped'⟩ ⟨rfl, ha₁, es₁, h₁⟩
  refine .live ha₁ ?_
  dsimp only
  rcases h₁.slideTo a.getSeqnum.toNat with ⟨hm, hw⟩ | ⟨fields, w₂, hm, hw, hfields, hfront, hwf⟩
  · rw [hm, hw]
    exact .error .assertion
  · rw [hm, hw]
    have h₂ := h₁.withFields hfields hfront hwf
    dsimp only
    split_ifs
    · exact .ok ⟨ha₁, es₁, h₂⟩
    obtain ⟨i, hi, hpop, hpop'⟩ := h₂.popTimestamp a.getTimestamp
    rw [hpop']
    cases he : es₁[i]? with
    | none =>
      obtain ⟨m₃, hpop₃, hw₃, hpkts, h₃⟩ := h₂.popNode_of_none he hi
      refine .live (hpop.trans hpop₃) ?_
      rw [hw₃]
      exact .ok ⟨hpkts ▸ ha₁, es₁, h₃⟩
    | some e =>
      obtain ⟨m₃, hpop₃, -, hpkts, h₃⟩ := h₂.popNode he
      refine .live (hpop.trans hpop₃) ?_
      obtain ⟨m₄, hdel, h₄, hothers, -⟩ := h₃.pktDel
      dsimp only
      rw [hdel]
      have hne : ack ≠ e.addr := ne_of_mem_of_not_mem (List.mem_cons_self ..) h₃.not_mem.2
      refine .ok ⟨?_, _, h₄⟩
      rw [hothers ack hne, hpkts]
      exact ha₁

theorem handleNack_matches (h : m.Owns w es (ack :: others)) (ha : m.pkts ack = some a)
    (readings : List ℕ) :
    Matches (fun r r' => r.2 = r'.2 ∧ r.1.pkts ack = some a ∧
        ∃ es', r.1.Owns r'.1 es' (ack :: others))
      (handleNack m ack readings) (Sender.handleNack w a readings) := by
  have hhas : m.fields.has a.getSeqnum.toNat = w.has a.getSeqnum.toNat := by
    rw [h.fields]
    rfl
  unfold handleNack Sender.handleNack
  refine .live ha ?_
  rw [hhas]
  split_ifs
  · obtain ⟨hfind, hfind'⟩ := h.findSeqnum a.getSeqnum.toNat
    refine .live hfind ?_
    rw [hfind']
    cases he : es.find? fun e => decide (e.ptr.seqnum = a.getSeqnum.toNat) with
    | none => exact .ok ⟨rfl, ha, es, h⟩
    | some e =>
      have hmem := List.mem_of_find?_eq_some he
      refine .exits ?_
      rintro ⟨now, readings⟩ -
      refine .live (h.pkts e hmem) ?_
      obtain ⟨m', hwrite, es', h', hothers⟩ := h.write_entry hmem (e.ptr.pkt.setTimestamp now).2
      refine .live hwrite (.ok ⟨rfl, ?_, es', h'⟩)
      rw [hothers ack (List.mem_cons_self ..), ha]
  · exact .ok ⟨rfl, ha, es, h⟩

theorem resizeTo_matches (h : m.Owns w es (ack :: others)) (ha : m.pkts ack = some a) :
    Matches (fun m' w' => ∃ es', m'.Owns w' es' (ack :: others))
      (resizeTo m ack) (Sender.resizeTo w a) := by
  unfold resizeTo Sender.resizeTo
  refine .live ha ?_
  have hmax : m.fields.getMaxSize = w.getMaxSize := by
    rw [h.fields]
    rfl
  dsimp only
  rw [hmax]
  generalize (if w.getMaxSize < a.getWindow.toNat then w.getMaxSize else a.getWindow.toNat) = n
  obtain ⟨hstatus, h'⟩ := h.resize n
  rw [hstatus]
  split_ifs
  · exact .error .assertion
  · exact .ok ⟨es, h'⟩

/-- **A response** in memory and without: the early return leaves it behind. -/
theorem handleResponse_matches (h : m.Owns w es others) (d : List Byte) (readings : List ℕ) :
    Matches (fun r r' => match r' with
        | none => r.2 = none ∧ isData crc32 (some d) = true ∧ ∃ resp, r.1.Owns w es (resp :: others)
        | some (w', rest) => r.2 = some rest ∧ isData crc32 (some d) = false ∧
          ∃ es', r.1.Owns w' es' others)
      (handleResponse crc32 C m d readings) (Sender.handleResponse crc32 w d readings) := by
  unfold handleResponse Sender.handleResponse
  refine .allocated fun ⟨resp, m₁⟩ hnew => ?_
  obtain ⟨h₁, hp₁, -, -⟩ := h.pktNew hnew
  refine .live hp₁ ?_
  dsimp only
  cases hdec : Pkt.decode crc32 (some (d.take maxPacketSize)) (d.take maxPacketSize).length
      Pkt.new with
  | none => exact .error .outOfBounds
  | some r =>
    obtain ⟨err, p⟩ := r
    obtain ⟨m₂, hwrite, h₂, hp₂, -, -⟩ := h₁.write p
    refine .live hwrite ?_
    have hdata : isData crc32 (some d) = true ↔ err = .ok ∧ p.getType = ptypeData := by
      rw [isData, Option.any_some, received_of_decode hdec]
      cases err <;> simp
    dsimp only
    by_cases herr : err ≠ .ok
    · rw [if_pos herr, if_pos herr]
      obtain ⟨m₃, hdel, h₃, -, -⟩ := h₂.pktDel
      exact .live hdel (.ok ⟨rfl, Bool.eq_false_iff.2 fun hd => herr (hdata.1 hd).1, es, h₃⟩)
    rw [if_neg herr, if_neg herr]
    by_cases htype : p.getType = ptypeData
    · rw [if_pos htype, if_pos htype]
      exact .ok ⟨rfl, hdata.2 ⟨not_not.1 herr, htype⟩, resp, h₂⟩
    rw [if_neg htype, if_neg htype]
    have hfalse : isData crc32 (some d) = false :=
      Bool.eq_false_iff.2 fun hd => htype (hdata.1 hd).2
    -- the window is resized and the response freed, after an ACK and after a NACK
    have hend : ∀ {m₃ : Memory} {w₃ : Window} {es₃ : List Entry} {rest : List ℕ},
        m₃.Owns w₃ es₃ (resp :: others) → m₃.pkts resp = some p →
        Matches (fun r r' => match r' with
            | none => r.2 = none ∧ isData crc32 (some d) = true ∧
              ∃ resp, r.1.Owns w es (resp :: others)
            | some (w', rest) => r.2 = some rest ∧ isData crc32 (some d) = false ∧
              ∃ es', r.1.Owns w' es' others)
          (do
            let m ← resizeTo m₃ resp
            let m ← live (m.pktDel (some resp))
            pure (m, some rest))
          (do
            let w ← Sender.resizeTo w₃ p
            pure (some (w, rest))) := by
      intro m₃ w₃ es₃ rest h₃ hp₃
      refine (resizeTo_matches h₃ hp₃).bind ?_
      rintro m₄ w₄ ⟨es₄, h₄⟩
      obtain ⟨m₅, hdel, h₅, -, -⟩ := h₄.pktDel
      exact .live hdel (.ok ⟨rfl, hfalse, es₄, h₅⟩)
    by_cases hack : p.getType = ptypeAck
    · rw [if_pos hack, if_pos hack]
      refine (handleAck_matches h₂ hp₂).bind ?_
      rintro m₃ w₃ ⟨hp₃, es₃, h₃⟩
      exact hend h₃ hp₃
    · rw [if_neg hack, if_neg hack]
      refine (handleNack_matches h₂ hp₂ readings).bind ?_
      rintro ⟨m₃, rest⟩ ⟨w₃, rest'⟩ ⟨rfl, hp₃, es₃, h₃⟩
      exact hend h₃ hp₃

/-- **The loop of `retransmit_packets`** in memory and without. -/
theorem retransmitExpired_matches (h : m.Owns w es others) (loopNow : BitVec 32)
    (readings : List ℕ) :
    Matches (fun r r' => r.2.1 = r'.2.1.map Sent.bytes ∧ r.2.2 = r'.2.2 ∧
        ∃ es', r.1.Owns r'.1 es' others)
      (retransmitExpired crc32 loopNow readings m)
      (Sender.retransmitExpired crc32 loopNow readings w) := by
  induction readings generalizing m w es with
  | nil =>
    unfold retransmitExpired Sender.retransmitExpired
    obtain ⟨hpeek, hpeek'⟩ := h.peekMinTimestamp
    refine .live hpeek ?_
    rw [hpeek']
    cases he : es[w.findMinTimestamp]? with
    | none => exact .ok ⟨rfl, rfl, es, h⟩
    | some e =>
      refine .live (h.pkts e (List.mem_of_getElem? he)) ?_
      change Matches _ _ (if e.ptr.pkt.getTimestamp ≤ loopNow then _ else _)
      split_ifs
      · exact .error .blocked
      · exact .ok ⟨rfl, rfl, es, h⟩
  | cons now readings ih =>
    unfold retransmitExpired Sender.retransmitExpired
    obtain ⟨hpeek, hpeek'⟩ := h.peekMinTimestamp
    refine .live hpeek ?_
    rw [hpeek']
    cases he : es[w.findMinTimestamp]? with
    | none => exact .ok ⟨rfl, rfl, es, h⟩
    | some e =>
      have hmem := List.mem_of_getElem? he
      refine .live (h.pkts e hmem) ?_
      change Matches _ _ (if e.ptr.pkt.getTimestamp ≤ loopNow then _ else _)
      split_ifs
      · rcases h.updateTimestamp e.ptr.timestamp (BitVec.ofNat 32 now + timer) with
          ⟨hm, hw⟩ | ⟨m', w', es', hm, hw, h', hids⟩
        · refine .live hm ?_
          dsimp only
          rw [hw]
          exact .error .cannotUpdateTimestamp
        · refine .live hm ?_
          dsimp only
          have hzero : ¬ (0 : ℤ) = -1 := by decide
          rw [hw, if_neg hzero, if_neg hzero]
          -- the pointer leads to the packet with its new timestamp
          obtain ⟨e', he', heq⟩ := List.mem_map.1 (hids ▸ List.mem_map_of_mem (f := Entry.ids) hmem)
          obtain ⟨haddr, hptr⟩ := Prod.mk.inj heq
          refine .live (haddr ▸ h'.pkts e' he') ?_
          dsimp only
          rw [h'.deref he' hptr.symm]
          refine .exits fun datagram _ => ?_
          refine (ih h').bind ?_
          rintro ⟨m'', sent, rest⟩ ⟨w'', sent', rest'⟩ ⟨hsent, rfl, hrest⟩
          refine .ok ⟨?_, rfl, hrest⟩
          rw [List.map_cons, hsent]
      · exact .ok ⟨rfl, rfl, es, h⟩

variable (crc32) in
theorem retransmitPackets_matches (h : m.Owns w es others) (readings : List ℕ) :
    Matches (fun r r' => r.2.1 = r'.2.1.map Sent.bytes ∧ r.2.2 = r'.2.2 ∧
        ∃ es', r.1.Owns r'.1 es' others)
      (retransmitPackets crc32 m readings) (Sender.retransmitPackets crc32 w readings) :=
  .exits fun r _ => retransmitExpired_matches h r.1 r.2

theorem sendNew_eq_fill (st : Sender.State) (readings : List ℕ) :
    Sender.sendNew crc32 st readings = (do
      let pkt ← fillHead st.next Pkt.new
      let (now, readings) ← getMonotime readings
      let pkt ← checked (pkt.setTimestamp (now + timer))
      let pkt ← fillPayload st.data pkt
      let datagram ← sendPacket crc32 pkt
      let ptr : PktPtr := { addr := st.allocs, pkt := pkt }
      let pushed := st.w.push ptr
      if pushed.1 = -1 then throw .couldNotAdd
      else
        pure ({ w := pushed.2
                next := (st.next + 1) % 256
                sentEof := st.sentEof || decide (st.data.length = 0)
                infile := st.infile.tail
                allocs := st.allocs + 1 }, ⟨ptr, datagram⟩, readings)) := by
  unfold Sender.sendNew fillHead fillPayload
  simp only [bind_assoc]
  refine bind_congr fun _ => bind_congr fun _ => bind_congr fun _ => bind_congr fun r =>
    bind_congr fun pkt => ?_
  cases pkt.setPayload (some (st.data ++ List.replicate (maxPayloadSize - st.data.length) 0))
    (BitVec.ofNat 16 st.data.length) <;> rfl

variable (crc32 C) in
/-- **A new packet** in memory and without. -/
theorem sendNew_matches (h : Holds s st es others) (hfull : st.w.full = false)
    (hn : st.allocs ∉ st.w.front.map PktPtr.addr) (readings : List ℕ) :
    Matches (fun r r' => r.2.1 = r'.2.1.bytes ∧ r.2.2 = r'.2.2 ∧ ∃ es', Holds r.1 r'.1 es' others)
      (sendNew crc32 C s readings) (Sender.sendNew crc32 st readings) := by
  rw [sendNew_eq_fill]
  unfold sendNew
  refine .allocated fun ⟨pkt, m₁⟩ hnew => ?_
  obtain ⟨h₁, hp₁, -, -⟩ := h.owns.pktNew hnew
  refine .live hp₁ ?_
  rw [h.next]
  refine .exits fun p₁ _ => .exits fun r _ => .exits fun p₂ _ => ?_
  have hdata : s.data = st.data := by
    rw [State.data, h.infile]
    rfl
  rw [hdata]
  refine .exits fun p₃ _ => ?_
  obtain ⟨m₂, hwrite, h₂, hp₂, -, -⟩ := h₁.write p₃
  refine .live hwrite (.live hp₂ (.exits fun datagram _ => ?_))
  rcases h₂.push (p := ⟨st.allocs, p₃⟩) hfull hp₂ hn C.node with
    hpush | ⟨m₃, k, hpush, -, h₃⟩
  · rw [hpush]
    exact .couldNotAdd (h₂.full_eq.trans hfull)
  · dsimp only
    rw [hpush, Window.push_of_not_full _ hfull]
    refine .ok ⟨rfl, rfl, _, h₃, ?_, ?_, ?_⟩
    · rfl
    · rw [h.sentEof]
    · rw [h.infile]

theorem await_matches (h : Holds s st es others) (hw : st.w.Standard) (hrun : st.running)
    (ready : Option (List Byte)) (readings : List ℕ) :
    Matches (fun r r' => r = r') (await ready readings s) (Sender.await ready readings st) := by
  have hcond : (!s.sentEof && s.m.fields.bufferSize = 0 && s.m.fields.getSize = 0) =
      (!st.sentEof && st.w.bufferSize = 0 && st.w.getSize = 0) := by
    rw [h.owns.fields, h.sentEof]
    rfl
  unfold await Sender.await
  rw [hcond]
  split_ifs
  · exact .error .blocked
  · exact .ok rfl
  · refine (getTimeout_matches h hw hrun readings).bind ?_
    rintro ⟨t, rest⟩ r' rfl
    exact .ok rfl

variable (crc32 C) in
theorem receive_matches (h : m.Owns w es others) (ready : Option (List Byte))
    (readings : List ℕ) :
    Matches (fun r r' => match r' with
        | none => r.2 = none ∧ isData crc32 ready = true ∧ ∃ resp, r.1.Owns w es (resp :: others)
        | some (w', rest) => r.2 = some rest ∧ isData crc32 ready = false ∧
          ∃ es', r.1.Owns w' es' others)
      (receive crc32 C m ready readings) (Sender.receive crc32 w ready readings) := by
  cases ready with
  | none => exact .ok ⟨rfl, rfl, es, h⟩
  | some d => exact handleResponse_matches h d readings

/-- **One iteration** in memory and without. -/
theorem mainLoop_matches (h : Holds s st es others) (hinv : Inv input st) (hrun : st.running)
    (ready : Option (List Byte)) (readings : List ℕ) :
    Matches (fun r r' => r.2.1 = r'.2.1.map Sent.bytes ∧ r.2.2 = r'.2.2 ∧
        ∃ es' others', Holds r.1 r'.1 es' others' ∧
          others'.length = others.length + if isData crc32 ready then 1 else 0)
      (mainLoop crc32 C ready readings s) (Sender.mainLoop crc32 ready readings st) := by
  unfold mainLoop Sender.mainLoop
  refine (await_matches h hinv.standard hrun ready readings).bind ?_
  rintro readings₀ _ rfl
  refine ((receive_matches crc32 C h.owns ready readings₀).and_right
    (Q := fun r => Sender.receive crc32 st.w ready readings₀ = .ok r) fun _ hr => hr).bind ?_
  rintro ⟨m₁, left⟩ (_ | ⟨w₁, readings₁⟩) ⟨hmatch, hreceive⟩
  · obtain ⟨rfl, hdata, resp, h₁⟩ := hmatch
    refine .ok ⟨rfl, rfl, es, _, ⟨h₁, h.next, h.sentEof, h.infile⟩, ?_⟩
    rw [hdata]
    rfl
  obtain ⟨rfl, hdata, es₁, h₁⟩ := hmatch
  have hbuf := (response_of_receive_some hinv.standard hreceive).buffered hinv.toBuffered
  rw [hdata]
  refine ((retransmitPackets_matches crc32 h₁ readings₁).and_right
    (Q := fun r => Sender.retransmitPackets crc32 w₁ readings₁ = .ok r) fun _ hr => hr).bind ?_
  rintro ⟨m₂, sent, readings₂⟩ ⟨w₂, sent', _⟩ ⟨⟨hsent, rfl, es₂, h₂⟩, hretr⟩
  obtain ⟨loopNow, -, hretr⟩ := bind_eq_ok.1 hretr
  have hbuf₂ := (retransmitExpired_spec hbuf hretr).1
  have hcond : (¬ m₂.fields.full = true ∧ ¬ s.sentEof = true) ↔
      (¬ w₂.full = true ∧ ¬ st.sentEof = true) := by
    rw [h₂.fields, h.sentEof]
    rfl
  dsimp only
  by_cases hnew : ¬ w₂.full = true ∧ ¬ st.sentEof = true
  · rw [if_pos (hcond.2 hnew), if_pos hnew]
    have hn : st.allocs ∉ w₂.front.map PktPtr.addr := fun hmem => by
      obtain ⟨q, hq, heq⟩ := List.mem_map.1 hmem
      exact Nat.ne_of_lt (hbuf₂.addr_lt q hq) heq
    have hholds : Holds { s with m := m₂ } { st with w := w₂ } es₂ others :=
      ⟨h₂, h.next, h.sentEof, h.infile⟩
    refine (sendNew_matches crc32 C hholds (Bool.eq_false_iff.2 hnew.1) hn readings₂).bind ?_
    rintro ⟨s₃, new, readings₃⟩ ⟨st₃, new', _⟩ ⟨hnew', rfl, es₃, h₃⟩
    refine .ok ⟨?_, rfl, es₃, others, h₃, rfl⟩
    change sent ++ [new] = (sent' ++ [new']).map Sent.bytes
    rw [List.map_append]
    exact congrArg₂ (· ++ ·) hsent (congrArg (fun d => [d]) hnew')
  · rw [if_neg fun hc => hnew (hcond.1 hc), if_neg hnew]
    exact .ok ⟨hsent, rfl, es₂, others, ⟨h₂, h.next, h.sentEof, h.infile⟩, rfl⟩

/-! ### Runs -/

variable (crc32) in
/-- How many iterations of a run receive a DATA packet. -/
def dataResponses : List (Option (List Byte) × List ℕ) → Sender.State → ℕ
  | [], _ => 0
  | (ready, readings) :: ls, st =>
    if st.running then
      (if isData crc32 ready then 1 else 0) +
        match Sender.mainLoop crc32 ready readings st with
        | .ok (st, _, _) => dataResponses ls st
        | .error _ => 0
    else 0

theorem Holds.init (input : List Chunk) : Holds (init input) (Sender.init input) [] [] where
  owns := ⟨⟨rfl, .empty, rfl, nofun, .nil, .nil, (Inv.init input).standard.toWf⟩,
    fun _ => ⟨nofun, nofun⟩, .nil⟩
  next := rfl
  sentEof := rfl
  infile := rfl

theorem Holds.running (h : Holds s st es others) : s.running = st.running := by
  rw [State.running, h.sentEof, h.owns.fields]
  rfl

variable (crc32) in
/-- A run in memory and without. -/
theorem run_matches (h : Holds s st es others) (hinv : Inv input st)
    (ls : List (Calloc × Option (List Byte) × List ℕ)) :
    Matches (fun r r' => r.2 = r'.2.map Sent.bytes ∧ ∃ es' others', Holds r.1 r'.1 es' others' ∧
          others'.length = others.length + dataResponses crc32 (ls.map Prod.snd) st)
      (run crc32 ls s) (Sender.run crc32 (ls.map Prod.snd) st) := by
  induction ls generalizing s st es others with
  | nil => exact .ok ⟨rfl, es, others, h, rfl⟩
  | cons l ls ih =>
    obtain ⟨C, ready, readings⟩ := l
    rw [List.map_cons]
    unfold run Sender.run
    rw [h.running, dataResponses]
    by_cases hrun : st.running = true
    · rw [if_pos hrun, if_pos hrun, if_pos hrun]
      refine ((mainLoop_matches h hinv hrun ready readings).and_right
        (Q := fun r => Sender.mainLoop crc32 ready readings st = .ok r) fun _ hr => hr).bind ?_
      rintro ⟨s', sent, rest⟩ ⟨st', sent', rest'⟩ ⟨⟨hsent, -, es', others', h', hlen⟩, hloop⟩
      refine (ih h' (mainLoop_spec hinv hloop).1).bind ?_
      rintro ⟨s'', sents⟩ ⟨st'', sents'⟩ ⟨hsents, es'', others'', h'', hlen'⟩
      refine .ok ⟨?_, es'', others'', h'', ?_⟩
      · change sent ++ sents = (sent' ++ sents').map Sent.bytes
        rw [List.map_append]
        exact congrArg₂ (· ++ ·) hsent hsents
      · rw [hlen', hlen, hloop, Nat.add_assoc]
    · rw [if_neg hrun, if_neg hrun, if_neg hrun]
      exact .ok ⟨rfl, es, others, h, rfl⟩

/-- A run without memory is over or still waiting. -/
theorem waits_run (hinv : Inv input st) (ls : List (Option (List Byte) × List ℕ)) :
    Waits (Sender.run crc32 ls st) := by
  induction ls generalizing st with
  | nil => exact waits_ok _
  | cons l ls ih =>
    obtain ⟨ready, readings⟩ := l
    unfold Sender.run
    split_ifs with hrun
    · refine (mainLoop_waits hinv hrun readings).bind fun r hloop => ?_
      exact (ih (mainLoop_spec hinv hloop).1).bind fun _ _ => waits_ok _
    · exact waits_ok _

/-- **The sender in memory**: whatever it receives, whatever the clock says and whatever `calloc`
answers to each call, no iteration follows a null or a dangling pointer, frees a packet twice or
goes on for ever: if one does not come back, `calloc` has failed or it is still waiting.
Otherwise the sender sends what it does without memory; the packets that are live are those in the
buffer, and one for each DATA packet received; and at the end no node is left to `window_free`. -/
theorem run_leaks_data (input : List Chunk) (ls : List (Calloc × Option (List Byte) × List ℕ)) :
    (∀ e, run crc32 ls (init input) = .error e →
      e = .noMemory ∨ e = .exit .blocked) ∧
    ∀ s sent, run crc32 ls (init input) = .ok (s, sent) →
      ∃ st sent' es leaked,
        Sender.run crc32 (ls.map Prod.snd) (Sender.init input) = .ok (st, sent') ∧
        sent = sent'.map Sent.bytes ∧ s.m.Owns st.w es leaked ∧
        leaked.length = dataResponses crc32 (ls.map Prod.snd) (Sender.init input) ∧
        (s.running = false → ∀ a, s.m.buffer.nodes a = none) := by
  have hinv := Inv.init input
  have hmatch := run_matches crc32 (Holds.init input) hinv ls
  constructor
  · intro e he
    rw [he] at hmatch
    rcases hmatch.of_error with rfl | ⟨e', rfl, he'⟩
    · exact .inl rfl
    · rw [waits_run hinv _ e' he']
      exact .inr rfl
  · intro s sent hrun
    rw [hrun] at hmatch
    obtain ⟨⟨st, sent'⟩, hrun', hsent, es, leaked, hholds, hlen⟩ := hmatch.of_ok
    refine ⟨st, sent', es, leaked, hrun', hsent, hholds.owns, hlen.trans (Nat.zero_add _), ?_⟩
    intro hend a
    rw [hholds.running, running_eq_false_iff hholds.owns.wf] at hend
    have hnil : es = [] := by
      rw [← List.length_eq_zero_iff, ← hholds.owns.length_front, hend.2]
      rfl
    have hlive := hholds.owns.buffer.live a
    rw [hnil] at hlive
    exact Option.not_isSome_iff_eq_none.1 fun hsome => nomatch hlive.1 hsome

/-- The sender of an empty file hears a DATA packet, and then the ACK of the one it has sent.  Its
second new packet would find no memory. -/
def foreign : List (Calloc × Option (List Byte) × List ℕ) :=
  [(⟨.null, .place 0, .place 5⟩, none, [0, 1]),
   (⟨.place 1, .null, .null⟩,
    some [0x40, 1, 0, 1, 0, 0, 0, 7, 0x49, 0xCC, 0xAA, 0x23, 0x61, 0xE8, 0xB7, 0xBE, 0x43], [2]),
   (⟨.place 7, .null, .null⟩,
    some [0x9F, 0, 0, 0, 0, 0x44, 0xAA, 0x21, 0xFC, 0x90, 0x18, 0x15], [3, 4])]

/-- It quits, and the DATA packet has not been freed. -/
theorem run_leaks_data_foreign :
    ∃ s sent st es leaked,
      run Crc32.crc32 foreign (init []) = .ok (s, sent) ∧ s.running = false ∧
      s.m.Owns st es leaked ∧ leaked.length = 1 ∧ s.m.buffer.nodes 0 = none := by
  have hok : (run Crc32.crc32 foreign (init [])).toOption.map (fun r => r.1.running) =
      some false := by decide +kernel
  obtain ⟨⟨s, sent⟩, hr, hend⟩ := Option.map_eq_some_iff.1 hok
  have hrun := ok_of_toOption hr
  obtain ⟨st, sent', es, leaked, -, -, howns, hlen, hnodes⟩ :=
    (run_leaks_data [] foreign).2 s sent hrun
  have hdata : dataResponses Crc32.crc32 (foreign.map Prod.snd) (Sender.init []) = 1 := by
    decide +kernel
  exact ⟨s, sent, st.w, es, leaked, hrun, hend, howns, hlen.trans hdata, hnodes hend 0⟩

end InMemory

end Sender

end LosslessTransport
