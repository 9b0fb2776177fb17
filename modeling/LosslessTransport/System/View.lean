import LosslessTransport.Lib.SelectiveRepeat
import LosslessTransport.Receiver.Refinement
import LosslessTransport.System.Invariant

/-!
# What the receiver has of the sender's stream

`Receiver.State.view` is what the receiver has got, in the numbers of the sender's packets: those it
has written, those in its buffer, and the packet that signals the end of the file once it has been
consumed.  `System.Reads` says that the receiver reads the stream as it was made: what it has
written are the first payloads, and each packet it holds stands at the index of the packet that owns
its timestamp.

`Inv.reads_receive` is the lemma about an iteration of the receiver on a datagram that does not lag
far behind: what it has read stays right, it gets nothing but the packet of the datagram, and its
reply tells the sender no more than it has got.
-/

namespace LosslessTransport

open Circular SelectiveRepeat

namespace Receiver

/-- The number of payloads written. -/
def State.next (st : State) : ℕ := (st.outfile.filter (· ≠ [])).length

/-- What the receiver has got of a stream of `len` payloads. -/
def State.view (len : ℕ) (st : State) : View where
  next := st.next
  early := (st.w.front.map fun q => lift 256 st.next q.seqnum).toFinset ∪
    if [] ∈ st.outfile then {len} else ∅

variable {st : State} {m : Reassembler} {len i : ℕ} {w : Window} {outfile : List (List Byte)}

theorem got_iff : (st.view len).Got i ↔ i < st.next ∨
    (∃ q ∈ st.w.front, lift 256 st.next q.seqnum = i) ∨ ([] ∈ st.outfile ∧ i = len) := by
  unfold View.Got State.view
  rw [Finset.mem_union, List.mem_toFinset, List.mem_map]
  split_ifs with h <;> simp [h]

variable (len) in
/-- Until the end of the file has been consumed, the early packets are the ones in the buffer. -/
theorem card_early_le (h : [] ∉ st.outfile) : (st.view len).early.card ≤ st.w.front.length := by
  unfold State.view
  rw [if_neg h, Finset.union_empty]
  refine (List.toFinset_card_le _).trans ?_
  rw [List.length_map]

theorem Represents.next_eq (h : Represents st.w st.outfile m) : st.next = m.next := by
  rw [State.next, h.output, h.length]

/-- The view in terms of the reassembler. -/
theorem Represents.got_iff (h : Represents st.w st.outfile m) :
    (st.view len).Got i ↔
      i < m.next ∨ (∃ x, m.held i = some x) ∨ ([] ∈ st.outfile ∧ i = len) := by
  rw [Receiver.got_iff, h.next_eq]
  refine or_congr_right (or_congr_left ?_)
  constructor
  · rintro ⟨q, hq, rfl⟩
    exact ⟨q.pkt, h.held_of_mem hq⟩
  · rintro ⟨x, hx⟩
    obtain ⟨q, hq, -, hi⟩ := (h.held i x).1 hx
    exact ⟨q, hq, hi⟩

/-- Storing a packet adds its index to what the receiver has got, and nothing else. -/
theorem Represents.got_offer {st' : State} (h : Represents st.w st.outfile m) {k : ℕ} {p : Pkt}
    (h' : Represents st'.w st'.outfile (m.offer k p)) (hout : st'.outfile = st.outfile) :
    ((st.view len).Got i → (st'.view len).Got i) ∧
      ((st'.view len).Got i → (st.view len).Got i ∨ i = k) := by
  have hnext : (m.offer k p).next = m.next := Reassembly.Machine.next_offer
  rw [h.got_iff, h'.got_iff, hnext, hout]
  constructor
  · refine Or.imp_right (Or.imp_left ?_)
    rintro ⟨x, hx⟩
    exact ⟨x, Reassembly.Machine.held_offer_of_some hx⟩
  · rintro (hlt | ⟨x, hx⟩ | heof)
    · exact .inl (.inl hlt)
    · rcases Reassembly.Machine.held_or_offered hx with hx | ⟨rfl, -⟩
      · exact .inl (.inr (.inl ⟨x, hx⟩))
      · exact .inr rfl
    · exact .inl (.inr (.inr heof))

/-- What the drain loop has written stays, and it writes nothing only for an empty packet. -/
theorem drain_outfile (h : Buffered w) {fuel : ℕ} {s : Window × List (List Byte)}
    (hs : drain fuel (w, outfile) (w.findSeqnum w.pos) = .ok s) :
    outfile <+: s.2 ∧ ([] ∈ s.2 → [] ∈ outfile ∨ ∃ q ∈ w.front, q.pkt.payloadBytes = []) := by
  refine drain_induction
    (motive := fun s s' => s.2 <+: s'.2 ∧
      ([] ∈ s'.2 → [] ∈ s.2 ∨ ∃ q ∈ s.1.front, q.pkt.payloadBytes = [])) ?_ ?_ h hs
  · exact fun w outfile _ _ => ⟨List.prefix_rfl, .inl⟩
  · rintro w outfile p s h hp - ⟨hpre, hnil⟩
    refine ⟨(List.prefix_append ..).trans hpre, fun hmem => ?_⟩
    rcases hnil hmem with hnil | ⟨q, hq, hqnil⟩
    · rcases List.mem_append.1 hnil with hnil | hnil
      · exact .inl hnil
      · exact .inr ⟨p, (Window.mem_of_findSeqnum hp).1, (List.mem_singleton.1 hnil).symm⟩
    · exact .inr ⟨q, (h.mem_consume.1 hq).2, hqnil⟩

variable {st' : State}

/-- What the drain loop takes from the buffer it writes, or consumes as the end of the file. -/
theorem Represents.got_of_held (h : Represents st.w st.outfile m)
    (hnil : ∀ j x, m.held j = some x → x.payloadBytes = [] → j = len) (hbuf : Buffered st.w)
    {fuel : ℕ} (hs : Receiver.drain fuel (st.w, st.outfile) (st.w.findSeqnum st.w.pos) =
      .ok (st'.w, st'.outfile)) {j : ℕ} {x : Pkt} (hx : m.held j = some x) :
    (st'.view len).Got j := by
  have h' : Represents st'.w st'.outfile (m.drain content) := h.drain hbuf hs
  obtain ⟨q, hq, rfl, rfl⟩ := (h.held j x).1 hx
  rw [h'.got_iff]
  rcases h.fate hbuf hs hq with ⟨-, hout⟩ | ⟨heof, hlast⟩ | hheld
  · left
    rw [← h'.length]
    exact (List.getElem?_eq_some_iff.1 hout).1
  · right; right
    exact ⟨List.mem_of_getLast? hlast, hnil _ _ hx ((payloadBytes_eq_nil_iff q.pkt).2 heof)⟩
  · right; left
    exact ⟨_, hheld⟩

/-- **The drain loop** changes nothing in what the receiver has got, if the only empty packet of the
stream is the last one. -/
theorem Represents.got_drain_iff (h : Represents st.w st.outfile m)
    (hnil : ∀ j x, m.held j = some x → x.payloadBytes = [] → j = len) (hbuf : Buffered st.w)
    {fuel : ℕ} (hs : Receiver.drain fuel (st.w, st.outfile) (st.w.findSeqnum st.w.pos) =
      .ok (st'.w, st'.outfile)) {j : ℕ} :
    (st'.view len).Got j ↔ (st.view len).Got j := by
  have h' : Represents st'.w st'.outfile (m.drain content) := h.drain hbuf hs
  obtain ⟨hpre, hempty⟩ := drain_outfile hbuf hs
  constructor
  · intro hj
    rw [h.got_iff]
    rcases h'.got_iff.1 hj with hlt | ⟨x, hx⟩ | ⟨heof, rfl⟩
    · rcases Nat.lt_or_ge j m.next with hlt' | hge
      · exact .inl hlt'
      · exact .inr (.inl (Option.isSome_iff_exists.1
          (Reassembly.Machine.isSome_of_lt_drain m j hge hlt)))
    · exact .inr (.inl ⟨x, Reassembly.Machine.held_of_held_drain m j x hx⟩)
    · rcases hempty heof with heof | ⟨q, hq, hqnil⟩
      · exact .inr (.inr ⟨heof, rfl⟩)
      · have hx := h.held_of_mem hq
        rw [hnil _ _ hx hqnil] at hx
        exact .inr (.inl ⟨_, hx⟩)
  · intro hj
    rcases h.got_iff.1 hj with hlt | ⟨x, hx⟩ | ⟨heof, rfl⟩
    · exact h'.got_iff.2 (.inl (hlt.trans_le (Reassembly.Machine.next_le_drain m)))
    · exact h.got_of_held hnil hbuf hs hx
    · exact h'.got_iff.2 (.inr (.inr ⟨hpre.subset heof, rfl⟩))

end Receiver

namespace System

open Sender (Chunk Sent payload Old)
open Receiver (Reassembler Refines ackPkt nackPkt content)

variable (crc32 : List Byte → BitVec 32) (input : List Chunk) (owner : BitVec 32 → ℕ)

/-- The receiver reads the stream as it was made. -/
structure Reads (st : Receiver.State) (m : Reassembler) : Prop extends Refines st m where
  /-- Each packet held stands at its own index. -/
  own : ∀ i x, m.held i = some x → owner x.getTimestamp = i
  /-- The payloads written are the first ones. -/
  written : m.output = (List.range m.next).map (payload input)

/-- Each packet that the machine holds is the one of the stream at its index. -/
structure Owned (n : ℕ) (m : Reassembler) : Prop where
  own : ∀ j x, m.held j = some x → owner x.getTimestamp = j
  payload_eq : ∀ j x, m.held j = some x → x.payloadBytes = payload input j
  lt : ∀ j x, m.held j = some x → j < n

/-- A reply tells the sender no more than the receiver has got: its window is what the buffer leaves
free, and an ACK carries the next index and the timestamp of a packet it has. -/
structure Answers (clock : ℕ) (r : Reply) : Prop where
  inv : Receiver.Inv r.snap
  pos : r.snap.w.pos = r.snap.next % 256
  bytes : (∃ t, Old clock t ∧ (r.snap.view input.length).Got (owner t) ∧
      r.bytes = ((ackPkt r.snap.w.available r.snap.w.pos t).sealed crc32).image) ∨
    ∃ seqnum, r.bytes = ((nackPkt r.snap.w.available seqnum).sealed crc32).image

variable {crc32 input owner} {s : System} {m : Reassembler} {c c' : ℕ}
  {owner' : BitVec 32 → ℕ}

theorem Answers.mono {r : Reply} (h : Answers crc32 input owner c r) (hc : c ≤ c')
    (hext : Sender.Extends c owner owner') : Answers crc32 input owner' c' r := by
  refine { h with bytes := h.bytes.imp_left ?_ }
  rintro ⟨t, ht, hgot, hb⟩
  exact ⟨t, ht.mono hc, (hext t ht).symm ▸ hgot, hb⟩

/-- A datagram that lies in the receiver's window, and does not lag far behind, has the index that
the receiver takes it for. -/
theorem lift_of_has {k i : ℕ} (hhas : dist 256 (k % 256) (i % 256) < 31) (hlag : k ≤ i + 64)
    (hnear : i ≤ k + 30) : lift 256 k (i % 256) = i := by
  refine lift_of_mod (Nat.le_of_not_lt fun hlt => ?_) (by omega)
  have hdist := dist_mod (M := 256) (k := k) (i := i + 256) (by omega) (by omega)
  rw [Nat.add_mod_right] at hdist
  omega

theorem Reads.init : Reads input owner Receiver.init Reassembly.Machine.init where
  toRefines := Receiver.Refines.init
  own := nofun
  written := rfl

variable {d : Sent} {receiver : Receiver.State} {reply : Option (List Byte)} {n : ℕ}
  {st st' : Receiver.State}

/-- An empty packet signals the end of the file. -/
theorem Owned.eq_length (h : Owned input owner n m) (hn : n ≤ input.length + 1) {j : ℕ} {x : Pkt}
    (hx : m.held j = some x) (hnil : x.payloadBytes = []) : j = input.length := by
  have hlt := h.lt j x hx
  rw [h.payload_eq j x hx] at hnil
  have := (Sender.payload_eq_nil_iff j).1 hnil
  omega

/-- The loop of the reassembler writes the payloads of the stream. -/
theorem Owned.output_drain (h : Owned input owner n m)
    (hout : m.output = (List.range m.next).map (payload input)) :
    (m.drain content).output = (List.range (m.drain content).next).map (payload input) := by
  refine Reassembly.Machine.output_drain (payload input) m ?_ hout
  intro j x b hx hb
  rw [← h.payload_eq j x hx]
  unfold content at hb
  split_ifs at hb
  exact (Option.some.inj hb).symm

/-- What the drain loop takes from the buffer it writes, or consumes as the end of the file. -/
theorem Owned.got_of_held (h : Owned input owner n m) (hn : n ≤ input.length + 1)
    (hrep : Receiver.Represents st.w st.outfile m) (hbuf : Receiver.Buffered st.w) {fuel : ℕ}
    (hs : Receiver.drain fuel (st.w, st.outfile) (st.w.findSeqnum st.w.pos) =
      .ok (st'.w, st'.outfile)) {j : ℕ} {x : Pkt} (hx : m.held j = some x) :
    (st'.view input.length).Got j :=
  hrep.got_of_held (fun _ _ => h.eq_length hn) hbuf hs hx

/-- **The drain loop** changes nothing in what the receiver has got. -/
theorem Owned.got_drain_iff (h : Owned input owner n m) (hn : n ≤ input.length + 1)
    (hrep : Receiver.Represents st.w st.outfile m) (hbuf : Receiver.Buffered st.w) {fuel : ℕ}
    (hs : Receiver.drain fuel (st.w, st.outfile) (st.w.findSeqnum st.w.pos) =
      .ok (st'.w, st'.outfile)) {j : ℕ} :
    (st'.view input.length).Got j ↔ (st.view input.length).Got j :=
  hrep.got_drain_iff (fun _ _ => h.eq_length hn) hbuf hs

/-- A datagram that the receiver stores is taken for the packet it was made from. -/
theorem Inv.lift_eq_addr (h : Inv crc32 input owner s) (hm : Reads input owner s.receiver m)
    (hlag : m.next ≤ d.pkt.addr + 64) (hnear : d.pkt.addr ≤ m.next + 30) {p : Pkt}
    (hseq : p.getSeqnum.toNat = d.pkt.addr % 256)
    (hhas : s.receiver.w.has p.getSeqnum.toNat = true) :
    dist 256 s.receiver.w.pos p.getSeqnum.toNat < 31 ∧
      lift 256 m.next p.getSeqnum.toNat = d.pkt.addr := by
  have hdist := (h.receiver.standard.has_iff p.getSeqnum.isLt).1 hhas
  rw [h.receiver.size_eq] at hdist
  refine ⟨hdist, ?_⟩
  rw [hseq]
  rw [hseq, hm.pos] at hdist
  exact lift_of_has hdist hlag hnear

/-- With the new packet, the buffer still holds packets of the stream. -/
theorem Inv.owned_offer (h : Inv crc32 input owner s) (hm : Reads input owner s.receiver m)
    (hd : Carried crc32 input owner s.clock s.sender.allocs d) {p : Pkt}
    (hp : received crc32 d.bytes = some p) (htr : p.getTr = 0)
    (hown : owner p.getTimestamp = d.pkt.addr)
    (hrep : Receiver.Represents (Receiver.arrive s.receiver.w (s.receiver.alloc p))
      s.receiver.outfile (m.offer d.pkt.addr p)) :
    Owned input owner s.sender.allocs (m.offer d.pkt.addr p) := by
  have hown₁ : ∀ j x, (m.offer d.pkt.addr p).held j = some x → owner x.getTimestamp = j := by
    intro j x hx
    rcases Reassembly.Machine.held_or_offered hx with hx | ⟨rfl, rfl⟩
    · exact hm.own j x hx
    · exact hown
  have hstored : ∀ j x, (m.offer d.pkt.addr p).held j = some x →
      x.payloadBytes = payload input j ∧ j < s.sender.allocs := by
    intro j x hx
    obtain ⟨q, hq, rfl, -⟩ := (hrep.held j x).1 hx
    obtain ⟨-, hlt, hcarries⟩ := h.stored_arrive hd hp htr q hq
    rw [show owner q.timestamp = j from hown₁ j q.pkt hx] at hlt hcarries
    exact ⟨hcarries.payload, hlt⟩
  exact ⟨hown₁, fun j x hx => (hstored j x hx).1, fun j x hx => (hstored j x hx).2⟩

/-- **An iteration of the receiver** on a datagram of the system that does not lag far behind. -/
theorem Inv.reads_receive (h : Inv crc32 input owner s) (hm : Reads input owner s.receiver m)
    (hd : Carried crc32 input owner s.clock s.sender.allocs d)
    (hlag : m.next ≤ d.pkt.addr + 64) (hnear : d.pkt.addr ≤ m.next + 30)
    (hloop : Receiver.mainLoop crc32 d.bytes s.receiver = .ok (receiver, reply)) :
    (∃ m', Reads input owner receiver m') ∧
    s.receiver.view input.length ≤ receiver.view input.length ∧
    (∀ j, (receiver.view input.length).Got j →
      (s.receiver.view input.length).Got j ∨ j = d.pkt.addr) ∧
    ∀ bytes, reply = some bytes → Answers crc32 input owner s.clock ⟨bytes, receiver⟩ := by
  have hinv' := h.receiver.mainLoop hloop
  obtain ⟨rfl, rfl, -⟩ | ⟨p, -, -, -, rfl, rfl⟩ | ⟨p, hp, hhas, htr, hbuf, hs, -, rfl⟩ :=
    Receiver.mainLoop_cases h.receiver hloop
  · exact ⟨⟨m, { hm with }⟩, le_refl (s.receiver.view _), fun _ => .inl, nofun⟩
  · refine ⟨⟨m, { hm with }⟩, le_refl (s.receiver.view _), fun _ => .inl, fun bytes hb => ?_⟩
    exact ⟨hinv', hm.pos.trans (by rw [← hm.next_eq]; rfl), .inr ⟨_, (Option.some.inj hb).symm⟩⟩
  -- the packet is taken for its own index
  obtain ⟨p', hp', hseq, hwhole⟩ := hd.received
  obtain rfl := Option.some.inj (hp.symm.trans hp')
  obtain ⟨-, -, hts⟩ := hwhole htr
  obtain ⟨hdist, hlift⟩ := h.lift_eq_addr hm hlag hnear hseq hhas
  have hown : owner p.getTimestamp = d.pkt.addr := by
    rw [hts]
    exact hd.stamped.2
  -- the state with the packet in the buffer, before the drain loop
  let st : Receiver.State := { s.receiver with
    w := Receiver.arrive s.receiver.w (s.receiver.alloc p) }
  have hrep : Receiver.Represents st.w st.outfile (m.offer d.pkt.addr p) :=
    hlift ▸ hm.toRepresents.arrive hdist
  have hrep' := hrep.drain hbuf hs
  have howned := h.owned_offer hm hd hp htr hown hrep
  have hnext : (m.offer d.pkt.addr p).next = m.next := Reassembly.Machine.next_offer
  have hgot : ∀ j, (receiver.view input.length).Got j ↔ (st.view input.length).Got j :=
    fun _ => howned.got_drain_iff h.sender.allocs_le hrep hbuf hs
  refine ⟨⟨_, { hrep' with
    drained := Reassembly.Machine.held_next_drain _
    own := fun j x hx => howned.own j x (Reassembly.Machine.held_of_held_drain _ j x hx)
    written := ?_ }⟩, ⟨?_, fun j hj => (hgot j).2 ((hm.got_offer hrep rfl).1 hj)⟩,
    fun j hj => (hm.got_offer hrep rfl).2 ((hgot j).1 hj), fun bytes hb => ?_⟩
  · refine howned.output_drain ?_
    rw [hnext, Reassembly.Machine.output_offer]
    exact hm.written
  · show s.receiver.next ≤ receiver.next
    rw [hm.next_eq, hrep'.next_eq, ← hnext]
    exact Reassembly.Machine.next_le_drain _
  · refine ⟨hinv', hrep'.pos.trans (by rw [hrep'.next_eq]),
      .inl ⟨p.getTimestamp, hts ▸ hd.stamped.1, ?_, (Option.some.inj hb).symm⟩⟩
    obtain ⟨q, hq, hqs, -⟩ := Receiver.exists_mem_arrive (w := s.receiver.w)
      (p := s.receiver.alloc p)
    have hx := hrep.held_of_mem hq
    rw [hqs, hnext] at hx
    rw [hown]
    exact howned.got_of_held h.sender.allocs_le hrep hbuf hs (hlift ▸ hx)

end System

end LosslessTransport
