import LosslessTransport.Sender.Spec

/-!
# What the sender keeps, whatever it receives

The DATA packets are numbered in the order in which they are made, and the number of a packet is
its address.  `Sender.Inv input st` says that packet `i` carries sequence number `i % 256` and the
`i`-th piece of the input, or nothing after the last piece, and that this goes on until the empty
packet has been made.

`Sender.mainLoop_spec` is the lemma about an iteration that the later files use: it names the
response (`Response`), says what happens to the numbers in the buffer, and what is sent.
-/

namespace LosslessTransport

namespace Sender

/-- The payload of packet `i`. -/
def payload (input : List Chunk) (i : ℕ) : List Byte :=
  match input[i]? with
  | none => []
  | some chunk => chunk.bytes

/-- The numbers of the packets in the buffer. -/
def addrs (w : Window) : List ℕ := w.front.map PktPtr.addr

/-- A buffer of packets with numbers less than `n`. -/
structure Buffered (input : List Chunk) (n : ℕ) (w : Window) : Prop where
  standard : w.Standard
  sorted : (addrs w).Pairwise fun i j => j < i
  addr_lt : ∀ p ∈ w.front, p.addr < n
  carries : ∀ p ∈ w.front, p.pkt.Carries (p.addr % 256) (payload input p.addr)

/-- What holds between two iterations of the main loop. -/
structure Inv (input : List Chunk) (st : State) : Prop extends
    Buffered input st.allocs st.w where
  next_eq : st.next = st.allocs % 256
  infile_eq : st.infile = input.drop st.allocs
  sentEof_iff : st.sentEof = true ↔ input.length < st.allocs
  allocs_le : st.allocs ≤ input.length + 1

variable {crc32 : List Byte → BitVec 32} {input : List Chunk} {n : ℕ} {w w' : Window}

theorem payload_eq_nil_iff (i : ℕ) : payload input i = [] ↔ input.length ≤ i := by
  unfold payload
  cases h : input[i]? with
  | none => simpa using h
  | some chunk =>
    obtain ⟨hi, -⟩ := List.getElem?_eq_some_iff.1 h
    have := chunk.length_pos
    refine ⟨fun hnil => ?_, fun hle => by omega⟩
    change chunk.bytes = [] at hnil
    rw [hnil] at this
    cases this

/-- The first payloads are those of the first pieces of the input. -/
theorem map_payload_range {k : ℕ} (hk : k ≤ input.length) :
    (List.range k).map (payload input) = (input.map Chunk.bytes).take k := by
  refine List.ext_getElem (by simpa using hk) fun i hi _ => ?_
  have hik : i < input.length := by
    rw [List.length_map, List.length_range] at hi
    omega
  simp [payload, List.getElem?_eq_getElem hik]

theorem addrs_store (w : Window) (p : PktPtr) : addrs (w.store p) = addrs w :=
  Window.map_addr_store p

theorem Buffered.sendable (h : Buffered input n w) : Sendable w where
  type_ne p hp := (h.carries p hp).type_ne
  length_le p hp := (h.carries p hp).getLength_le

theorem Buffered.inj (h : Buffered input n w) {p q : PktPtr} (hp : p ∈ w.front)
    (hq : q ∈ w.front) (heq : p.addr = q.addr) : p = q := by
  obtain ⟨i, hi, rfl⟩ := List.getElem_of_mem hp
  obtain ⟨j, hj, rfl⟩ := List.getElem_of_mem hq
  have hsort := List.pairwise_iff_getElem.1 (List.pairwise_map.1 h.sorted)
  rcases Nat.lt_trichotomy i j with hij | rfl | hij
  · have := hsort i j hi hj hij
    omega
  · rfl
  · have := hsort j i hj hi hij
    omega

theorem Buffered.sublist (h : Buffered input n w) (hstd : w'.Standard)
    (hsub : w'.front.Sublist w.front) : Buffered input n w' where
  standard := hstd
  sorted := h.sorted.sublist (hsub.map _)
  addr_lt p hp := h.addr_lt p (hsub.subset hp)
  carries p hp := h.carries p (hsub.subset hp)

theorem Buffered.store (h : Buffered input n w) {p : PktPtr} (hp : p ∈ w.front) (t : BitVec 32) :
    Buffered input n (w.store (p.setTimestamp t)) where
  standard := h.standard.store _
  sorted := (addrs_store w _).symm ▸ h.sorted
  addr_lt q hq := by
    rcases Window.mem_store hq with rfl | ⟨hq, -⟩
    · exact h.addr_lt p hp
    · exact h.addr_lt q hq
  carries q hq := by
    rcases Window.mem_store hq with rfl | ⟨hq, -⟩
    · exact (h.carries p hp).setTimestamp t
    · exact h.carries q hq

/-! ### Responses -/

/-- What a response does to the window, and to the readings left. -/
inductive Response (crc32 : List Byte → BitVec 32) (w : Window) (ready : Option (List Byte))
    (readings : List ℕ) : Window → List ℕ → Prop
  /-- There is none, or it is not accepted, or it is DATA. -/
  | ignored : Response crc32 w ready readings w readings
  /-- An ACK. -/
  | acked {d : List Byte} {ack : Pkt} : ready = some d → received crc32 d = some ack →
      ack.getType = ptypeAck →
      Response crc32 w ready readings { acked w ack with size := ack.getWindow.toNat } readings
  /-- A NACK that names no packet in the buffer. -/
  | nacked {d : List Byte} {nack : Pkt} : ready = some d → received crc32 d = some nack →
      nack.getType ≠ ptypeAck →
      Response crc32 w ready readings { w with size := nack.getWindow.toNat } readings
  /-- A NACK that names packet `p`. -/
  | restamped {d : List Byte} {nack : Pkt} {p q : PktPtr} {now : ℕ} {readings' : List ℕ} :
      ready = some d → received crc32 d = some nack → nack.getType ≠ ptypeAck → p ∈ w.front →
      readings = now :: readings' → q = p.setTimestamp (BitVec.ofNat 32 now) →
      Response crc32 w ready readings { w.store q with size := nack.getWindow.toNat } readings'

theorem sublist_acked (w : Window) (ack : Pkt) : (acked w ack).front.Sublist w.front := by
  unfold acked
  dsimp only
  split_ifs
  · exact List.filter_sublist
  · refine List.Sublist.trans ?_ (List.filter_sublist (p := fun p : PktPtr =>
      decide (ack.getSeqnum.toNat ≤ p.seqnum)))
    unfold Window.popTimestamp Window.popNode
    split
    · exact List.Sublist.refl _
    · exact List.eraseIdx_sublist ..

theorem Buffered.nodup (h : Buffered input n w) : w.front.Nodup := by
  refine (List.pairwise_map.1 h.sorted).imp ?_
  intro p q hlt heq
  subst heq
  exact Nat.lt_irrefl _ hlt

/-- An ACK names its packet: a packet in the buffer carries its timestamp, or none is left when
those with smaller sequence numbers are gone. -/
def TimestampFound (w : Window) (ack : Pkt) : Prop :=
  (∃ p ∈ w.front, p.timestamp = ack.getTimestamp) ∨
    ∀ p ∈ w.front, p.seqnum < ack.getSeqnum.toNat

instance (w : Window) (ack : Pkt) : Decidable (TimestampFound w ack) :=
  inferInstanceAs (Decidable (_ ∨ _))

theorem mem_dropBelow {a : ℕ} {q : PktPtr} :
    q ∈ (dropBelow w a).front ↔ q ∈ w.front ∧ a ≤ q.seqnum := by
  rw [dropBelow, List.mem_filter, decide_eq_true_iff]

/-- **What an ACK that names its packet removes**: the packets with smaller sequence numbers and
the one with its timestamp. -/
theorem mem_acked (h : Buffered input n w)
    (hts : ∀ p ∈ w.front, ∀ q ∈ w.front, p.timestamp = q.timestamp → p = q) {ack : Pkt}
    (hfound : TimestampFound w ack) {q : PktPtr} :
    q ∈ (acked w ack).front ↔
      q ∈ w.front ∧ ack.getSeqnum.toNat ≤ q.seqnum ∧ q.timestamp ≠ ack.getTimestamp := by
  set a := ack.getSeqnum.toNat with ha
  let w' : Window := { dropBelow w a with pos := a }
  have hmem : ∀ q, q ∈ w'.front ↔ q ∈ w.front ∧ a ≤ q.seqnum := fun q => mem_dropBelow
  by_cases hany : (w.front.any fun p => p.seqnum < a ∧ p.timestamp = ack.getTimestamp) = true
  · -- the packet with the timestamp was among those with smaller sequence numbers
    obtain ⟨r, hr, hra⟩ := List.any_eq_true.1 hany
    obtain ⟨hlt, hrt⟩ := of_decide_eq_true hra
    rw [show acked w ack = w' from if_pos hany, hmem]
    constructor
    · rintro ⟨hq, hle⟩
      refine ⟨hq, hle, fun hqt => ?_⟩
      rw [hts q hq r hr (hqt.trans hrt.symm)] at hle
      omega
    · rintro ⟨hq, hle, -⟩
      exact ⟨hq, hle⟩
  rw [show acked w ack = (w'.popTimestamp ack.getTimestamp).2 from if_neg hany]
  by_cases hex : ∃ p ∈ w.front, p.timestamp = ack.getTimestamp
  · obtain ⟨p, hp, hpt⟩ := hex
    have hle : a ≤ p.seqnum := by
      by_contra hlt
      exact hany (List.any_eq_true.2 ⟨p, hp, decide_eq_true ⟨Nat.lt_of_not_le hlt, hpt⟩⟩)
    rw [Window.mem_popTimestamp (h.nodup.filter _)
      (fun p hp q hq => hts p ((hmem p).1 hp).1 q ((hmem q).1 hq).1)
      ⟨p, (hmem p).2 ⟨hp, hle⟩, hpt⟩, hmem, and_assoc]
  · -- nobody has the timestamp, so nobody is left
    have hall := hfound.resolve_left hex
    have hnil : w'.front = [] := by
      rw [List.eq_nil_iff_forall_not_mem]
      intro r hr
      obtain ⟨hr, hle⟩ := (hmem r).1 hr
      have := hall r hr
      omega
    rw [Window.popTimestamp_of_nil hnil, hmem]
    constructor
    · rintro ⟨hq, hle⟩
      have := hall q hq
      omega
    · rintro ⟨hq, hle, -⟩
      exact ⟨hq, hle⟩

theorem standard_resized {m : ℕ} (h : w.Standard) (hm : m ≤ 31) :
    ({ w with size := m } : Window).Standard :=
  { h with size_le := h.capacity_eq.symm ▸ hm }

theorem Response.buffered (h : Buffered input n w) {ready : Option (List Byte)}
    {readings readings' : List ℕ} (hr : Response crc32 w ready readings w' readings') :
    Buffered input n w' := by
  cases hr with
  | ignored => exact h
  | @acked d ack _ _ _ =>
    exact h.sublist (standard_resized (standard_acked h.standard ack)
      (Nat.le_of_lt_succ ack.getWindow.isLt)) (sublist_acked w ack)
  | @nacked d nack _ _ _ =>
    exact h.sublist (standard_resized h.standard (Nat.le_of_lt_succ nack.getWindow.isLt))
      (List.Sublist.refl _)
  | @restamped d nack p q now _ _ _ _ hp _ hq =>
    have hs := h.store hp (BitVec.ofNat 32 now)
    rw [← hq] at hs
    exact hs.sublist (standard_resized hs.standard (Nat.le_of_lt_succ nack.getWindow.isLt))
      (List.Sublist.refl _)

theorem response_of_receive (hw : w.Standard) {ready : Option (List Byte)}
    {readings : List ℕ} {r : Option (Window × List ℕ)}
    (h : receive crc32 w ready readings = .ok r) :
    r = none ∨ ∃ w₁ readings₁, r = some (w₁, readings₁) ∧
      Response crc32 w ready readings w₁ readings₁ := by
  cases ready with
  | none =>
    cases h
    exact .inr ⟨_, _, rfl, .ignored⟩
  | some d =>
    rcases handleResponse_cases hw h with ⟨-, rfl⟩ | ⟨p, -, -, rfl⟩ | ⟨ack, hrec, htype, rfl⟩ |
      ⟨nack, hrec, -, htype, w', readings', hnack, rfl⟩
    · exact .inr ⟨_, _, rfl, .ignored⟩
    · exact .inl rfl
    · exact .inr ⟨_, _, rfl, .acked rfl hrec htype⟩
    · rcases handleNack_cases hnack with ⟨rfl, rfl⟩ | ⟨p, hp, now, hnow, rfl⟩
      · exact .inr ⟨_, _, rfl, .nacked rfl hrec htype⟩
      · exact .inr ⟨_, _, rfl, .restamped rfl hrec htype hp hnow rfl⟩

/-- The iteration goes on after a reply. -/
theorem response_of_receive_some (hw : w.Standard) {ready : Option (List Byte)}
    {readings readings' : List ℕ}
    (h : receive crc32 w ready readings = .ok (some (w', readings'))) :
    Response crc32 w ready readings w' readings' := by
  obtain hnone | ⟨w₁, readings₁, heq, hresp⟩ := response_of_receive hw h
  · cases hnone
  · cases heq
    exact hresp

/-! ### Retransmission -/

/-- A datagram made of packet `d.pkt`, which has number less than `n`. -/
structure Sent.Ok (crc32 : List Byte → BitVec 32) (input : List Chunk) (n : ℕ) (d : Sent) :
    Prop where
  bytes : d.bytes = (d.pkt.pkt.sealed crc32).image
  carries : d.pkt.pkt.Carries (d.pkt.addr % 256) (payload input d.pkt.addr)
  addr_lt : d.pkt.addr < n

theorem Sent.ok_mk {q : PktPtr} (hq : q.pkt.Carries (q.addr % 256) (payload input q.addr))
    (hlt : q.addr < n) : Sent.Ok crc32 input n ⟨q, (q.pkt.sealed crc32).image⟩ := ⟨rfl, hq, hlt⟩

theorem Sent.Ok.mono {m : ℕ} {d : Sent} (h : d.Ok crc32 input n) (hle : n ≤ m) :
    d.Ok crc32 input m :=
  { h with addr_lt := h.addr_lt.trans_le hle }

/-- Retransmission keeps the numbers in the buffer, and sends packets of the buffer. -/
theorem retransmitExpired_spec (h : Buffered input n w) {loopNow : BitVec 32} {readings : List ℕ}
    {r : Window × List Sent × List ℕ}
    (hr : retransmitExpired crc32 loopNow readings w = .ok r) :
    Buffered input n r.1 ∧ addrs r.1 = addrs w ∧ r.1.pos = w.pos ∧ r.1.size = w.size ∧
      ∀ d ∈ r.2.1, d.Ok crc32 input n ∧ d.pkt.addr ∈ addrs w := by
  refine retransmitExpired_induction
    (motive := fun _ w r => Buffered input n w → Buffered input n r.1 ∧ addrs r.1 = addrs w ∧
      r.1.pos = w.pos ∧ r.1.size = w.size ∧
      ∀ d ∈ r.2.1, d.Ok crc32 input n ∧ d.pkt.addr ∈ addrs w) ?_ ?_ h.sendable hr h
  · intro readings w _ h
    exact ⟨h, rfl, rfl, rfl, nofun⟩
  · intro now readings w p q r hp _ hq ih h
    have hstore := h.store hp (BitVec.ofNat 32 now + timer)
    rw [← hq] at hstore
    obtain ⟨hbuf, haddrs, hpos, hsize, hsent⟩ := ih hstore
    have hsame := addrs_store w q
    have hmem : q ∈ (w.store q).front := Window.mem_store_self hp <| by
      rw [hq, PktPtr.addr_setTimestamp]
    refine ⟨hbuf, haddrs.trans hsame, hpos, hsize, fun d hd => ?_⟩
    rcases List.mem_cons.1 hd with rfl | hd
    · exact ⟨Sent.ok_mk (hstore.carries q hmem) (hstore.addr_lt q hmem),
        hsame ▸ List.mem_map_of_mem hmem⟩
    · obtain ⟨hok, hmem⟩ := hsent d hd
      exact ⟨hok, hsame ▸ hmem⟩

/-! ### The iteration -/

variable {st st' : State} {ready : Option (List Byte)} {readings rest : List ℕ} {sent : List Sent}

theorem Inv.data_eq (h : Inv input st) : st.data = payload input st.allocs := by
  unfold State.data payload
  rw [h.infile_eq]
  cases hx : input[st.allocs]? with
  | none =>
    rw [List.drop_eq_nil_of_le (by simpa using hx)]
  | some chunk =>
    obtain ⟨hlt, rfl⟩ := List.getElem?_eq_some_iff.1 hx
    rw [List.drop_eq_getElem_cons hlt]

theorem Inv.added (h : Inv input st) (hfull : st.w.full = false) (heof : st.sentEof = false)
    {p : Pkt} (hp : p.Carries (st.next % 256) st.data) : Inv input (st.added p) := by
  have hle : st.allocs ≤ input.length := by
    by_contra hlt
    have := h.sentEof_iff.2 (by omega)
    rw [heof] at this
    cases this
  rw [h.next_eq, Nat.mod_mod, h.data_eq] at hp
  have hstd := h.standard.push ⟨st.allocs, p⟩
  rw [Window.push_of_not_full _ hfull] at hstd
  refine ⟨⟨hstd, ?_, ?_, ?_⟩, ?_, ?_, ?_, ?_⟩
  · refine List.pairwise_cons.2 ⟨?_, h.sorted⟩
    intro i hi
    obtain ⟨q, hq, rfl⟩ := List.mem_map.1 hi
    exact h.addr_lt q hq
  · intro q hq
    rcases List.mem_cons.1 hq with rfl | hq
    · exact Nat.lt_succ_self _
    · exact Nat.lt_succ_of_lt (h.addr_lt q hq)
  · intro q hq
    rcases List.mem_cons.1 hq with rfl | hq
    · exact hp
    · exact h.carries q hq
  · change (st.next + 1) % 256 = (st.allocs + 1) % 256
    rw [h.next_eq]
    omega
  · change st.infile.tail = input.drop (st.allocs + 1)
    rw [h.infile_eq, List.tail_drop]
  · change (st.sentEof || decide (st.data.length = 0)) = true ↔ input.length < st.allocs + 1
    rw [heof, h.data_eq, Bool.false_or, decide_eq_true_eq, List.length_eq_zero_iff,
      payload_eq_nil_iff]
    omega
  · exact Nat.succ_le_succ hle

/-- **What an iteration does.**  After the response the numbers in the buffer stay, but for the one
of a new packet, which is made exactly when the window is not full and the end of the file has not
been sent; every datagram sent is made of a packet that is in the buffer afterwards. -/
theorem mainLoop_spec (hinv : Inv input st)
    (h : mainLoop crc32 ready readings st = .ok (st', sent, rest)) :
    Inv input st' ∧ ∃ w₁ readings₀ readings₁, Response crc32 st.w ready readings₀ w₁ readings₁ ∧
      st'.w.pos = w₁.pos ∧ st'.w.size = w₁.size ∧
      ((st'.allocs = st.allocs ∧ addrs st'.w = addrs w₁) ∨
        (st'.allocs = st.allocs + 1 ∧ addrs st'.w = st.allocs :: addrs w₁ ∧
          (addrs w₁).length < w₁.size ∧ st.sentEof = false)) ∧
      ∀ d ∈ sent, d.Ok crc32 input st'.allocs ∧ d.pkt.addr ∈ addrs st'.w := by
  obtain ⟨readings₀, -, hearly | hloop⟩ := mainLoop_cases h
  · obtain ⟨-, rfl, rfl, -⟩ := hearly
    exact ⟨hinv, _, [], [], .ignored, rfl, rfl, .inl ⟨rfl, rfl⟩, nofun⟩
  obtain ⟨w₁, loopNow, readings₁, w₂, sent₂, readings₂, hreceive, hretr, hnew⟩ := hloop
  have hresp := response_of_receive_some hinv.standard hreceive
  obtain ⟨hbuf, haddrs, hpos, hsize, hsent⟩ :=
    retransmitExpired_spec (hresp.buffered hinv.toBuffered) hretr
  have hinv₂ : Inv input { st with w := w₂ } := { hinv with toBuffered := hbuf }
  obtain ⟨hfull, heof, new, hsend, rfl⟩ | ⟨-, rfl, rfl, -⟩ := hnew
  · obtain ⟨now, p, -, hp, -, rfl, rfl⟩ := sendNew_spec hfull hsend
    have hinv' := hinv₂.added hfull heof hp
    have hlen : (addrs w₁).length < w₁.size := by
      rw [← haddrs, ← hsize, addrs, List.length_map]
      exact (Window.full_eq_false_iff hbuf.standard.toWf).1 hfull
    refine ⟨hinv', w₁, _, _, hresp, hpos, hsize,
      .inr ⟨rfl, congrArg (st.allocs :: ·) haddrs, hlen, heof⟩, fun d hd => ?_⟩
    rcases List.mem_append.1 hd with hd | hd
    · obtain ⟨hok, hmem⟩ := hsent d hd
      rw [← haddrs] at hmem
      exact ⟨hok.mono (Nat.le_succ _), List.mem_cons_of_mem _ hmem⟩
    · obtain rfl := List.mem_singleton.1 hd
      exact ⟨Sent.ok_mk (hinv'.carries _ (List.mem_cons_self ..)) (Nat.lt_succ_self _),
        List.mem_cons_self ..⟩
  · refine ⟨hinv₂, w₁, _, _, hresp, hpos, hsize, .inl ⟨rfl, haddrs⟩, fun d hd => ?_⟩
    rw [← haddrs] at hsent
    exact hsent d hd

theorem Inv.init (input : List Chunk) : Inv input (init input) := by
  have hnil : (Sender.init input).w.front = [] := rfl
  refine ⟨⟨Window.Standard.create 1 rfl, ?_, ?_, ?_⟩, rfl, rfl, ?_, ?_⟩ <;>
    simp [Sender.init, addrs, Window.create]

end Sender

end LosslessTransport
