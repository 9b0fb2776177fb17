import LosslessTransport.Lib.Crc32
import LosslessTransport.Lib.Reassembly
import LosslessTransport.Receiver.Step

/-!
# The receiver is an in-order reassembler

`Receiver.Reassembler` is what the receiver is for: a machine that numbers the packets of the
stream with natural numbers, holds those that come early and outputs the payloads in order.  The
receiver knows of an index only its last 8 bits, keeps the packets in a list and removes them by
timestamp; `Receiver.Refines` relates the two, and `Receiver.run_refines` shows that it holds after
every run that the process survives.
-/

namespace LosslessTransport

open Circular

namespace Receiver

/-- A reassembler of packets with the receiver's window of 31. -/
abbrev Reassembler := Reassembly.Machine Pkt (List Byte) 31

/-- The payload of a packet; an empty packet has none and only signals the end of the file. -/
def content (p : Pkt) : Option (List Byte) :=
  if p.getLength = 0 then none else some p.payloadBytes

variable (crc32 : List Byte → BitVec 32)

/-- The reassembler on a datagram: an accepted packet that is not truncated is offered at the index
that its sequence number stands for, and then the loop runs. -/
def reassemble (m : Reassembler) (datagram : List Byte) : Reassembler :=
  match received crc32 datagram with
  | none => m
  | some p =>
    if p.getTr = 0 then (m.offer (lift 256 m.next p.getSeqnum.toNat) p).drain content else m

/-- The window and the file represent the reassembler. -/
structure Represents (w : Window) (outfile : List (List Byte)) (m : Reassembler) : Prop where
  pos : w.pos = m.next % 256
  /-- The buffered packets are the ones held, at the index their sequence number stands for. -/
  held : ∀ i x, m.held i = some x ↔ ∃ q ∈ w.front, q.pkt = x ∧ lift 256 m.next q.seqnum = i
  /-- Each payload is written once, in order; the other writes are empty. -/
  output : outfile.filter (· ≠ []) = m.output
  /-- One payload for each index before the next. -/
  length : m.output.length = m.next

/-- The relation between the states of the receiver and of the reassembler. -/
structure Refines (st : State) (m : Reassembler) : Prop extends
    Represents st.w st.outfile m where
  drained : m.held m.next = none

/-- What became of a packet that an iteration from `st` to `st'` received, and that the reassembler,
now `m`, takes for index `i`: it has been written, or it is the end of the file, which was next, and
its empty payload is all that has been written, or a packet with its number is in the buffer. -/
def Accounted (st st' : State) (m : Reassembler) (i : ℕ) (p : Pkt) : Prop :=
  (p.getLength ≠ 0 ∧ m.output[i]? = some p.payloadBytes) ∨
    (p.getLength = 0 ∧ i = m.next ∧ st'.outfile = st.outfile ++ [p.payloadBytes]) ∨
    ∃ q ∈ st'.w.front, q.seqnum = p.getSeqnum.toNat

variable {crc32} {w : Window} {outfile : List (List Byte)} {m : Reassembler} {p : PktPtr}

theorem payloadBytes_eq_nil_iff (p : Pkt) : p.payloadBytes = [] ↔ p.getLength = 0 := by
  have hcells : p.payload.cells ≠ [] := by
    intro h
    have := p.payload.length_cells
    rw [h] at this
    cases this
  have hz : p.getLength = 0 ↔ p.getLength.toNat = 0 := BitVec.toNat_inj.symm
  rw [Pkt.payloadBytes, List.take_eq_nil_iff, hz]
  exact ⟨fun h => h.resolve_right hcells, .inl⟩

theorem content_of_eof {p : Pkt} (h : p.getLength = 0) : content p = none := if_pos h

theorem content_of_payload {p : Pkt} (h : p.getLength ≠ 0) : content p = some p.payloadBytes :=
  if_neg h

theorem Represents.lift_eq_next_iff (h : Represents w outfile m) :
    lift 256 m.next p.seqnum = m.next ↔ p.seqnum = w.pos := by
  rw [h.pos, lift_unique p.seqnum_lt]
  constructor
  · rintro ⟨-, -, heq⟩
    exact heq.symm
  · intro heq
    exact ⟨le_rfl, by omega, heq.symm⟩

/-- A packet in the buffer is held. -/
theorem Represents.held_of_mem (h : Represents w outfile m) (hp : p ∈ w.front) :
    m.held (lift 256 m.next p.seqnum) = some p.pkt :=
  (h.held _ _).2 ⟨p, hp, rfl, rfl⟩

/-! ### The drain loop -/

theorem Represents.held_next (h : Represents w outfile m) (hp : w.findSeqnum w.pos = some p) :
    m.held m.next = some p.pkt := by
  obtain ⟨hmem, hs⟩ := Window.mem_of_findSeqnum hp
  have := h.held_of_mem hmem
  rwa [h.lift_eq_next_iff.2 hs] at this

theorem Represents.held_next_eq_none (h : Represents w outfile m)
    (hp : w.findSeqnum w.pos = none) : m.held m.next = none := by
  rw [Option.eq_none_iff_forall_ne_some]
  intro x hx
  obtain ⟨q, hq, -, hlift⟩ := (h.held _ _).1 hx
  exact Window.findSeqnum_eq_none_iff.1 hp q hq (h.lift_eq_next_iff.1 hlift)

/-- A turn on the packet that signals the end of the file. -/
theorem Represents.consume_eof (h : Represents w outfile m) (hbuf : Buffered w)
    (hp : w.findSeqnum w.pos = some p) (heof : p.pkt.getLength = 0) :
    Represents (consume w p) (outfile ++ [p.pkt.payloadBytes]) m.drop := by
  obtain ⟨hpmem, hps⟩ := Window.mem_of_findSeqnum hp
  refine ⟨?_, fun i x => ?_, ?_, h.length⟩
  · rw [pos_consume hbuf, if_pos heof]
    exact h.pos
  · by_cases hi : i = m.next
    · subst hi
      rw [Reassembly.Machine.held_next_drop]
      refine ⟨nofun, fun ⟨q, hq, _, hlift⟩ => ?_⟩
      obtain ⟨hqp, hqmem⟩ := hbuf.mem_consume.1 hq
      have hqs := h.lift_eq_next_iff.1 hlift
      exact absurd (hbuf.inj q hqmem p hpmem (hqs.trans hps.symm)) hqp
    · rw [Reassembly.Machine.held_drop_of_ne hi, h.held]
      refine exists_congr fun q => ⟨fun ⟨hq, hx, hlift⟩ => ⟨hbuf.mem_consume.2 ⟨?_, hq⟩, hx, hlift⟩,
        fun ⟨hq, hx, hlift⟩ => ⟨(hbuf.mem_consume.1 hq).2, hx, hlift⟩⟩
      rintro rfl
      exact hi (hlift.symm.trans (h.lift_eq_next_iff.2 hps))
  · rw [List.filter_append, h.output, (payloadBytes_eq_nil_iff p.pkt).2 heof]
    simp [Reassembly.Machine.drop]

/-- A turn on a packet with a payload. -/
theorem Represents.consume_payload (h : Represents w outfile m) (hbuf : Buffered w)
    (hp : w.findSeqnum w.pos = some p) (hpay : p.pkt.getLength ≠ 0) :
    Represents (consume w p) (outfile ++ [p.pkt.payloadBytes])
      (m.deliver p.pkt.payloadBytes) := by
  obtain ⟨hpmem, hps⟩ := Window.mem_of_findSeqnum hp
  -- the packets behind the first keep their index
  have hlift : ∀ q ∈ w.front, q ≠ p → lift 256 (m.next + 1) q.seqnum = lift 256 m.next q.seqnum :=
    fun q hq hqp => lift_succ q.seqnum_lt fun heq =>
      hqp (hbuf.inj q hq p hpmem (heq.trans (h.pos.symm.trans hps.symm)))
  refine ⟨?_, fun i x => ?_, ?_, by simp [Reassembly.Machine.deliver, h.length]⟩
  · rw [pos_consume hbuf, if_neg hpay, h.pos]
    exact Nat.mod_add_mod ..
  · change (m.deliver _).held i = some x ↔
      ∃ q ∈ (consume w p).front, q.pkt = x ∧ lift 256 (m.next + 1) q.seqnum = i
    by_cases hi : i = m.next
    · subst hi
      rw [Reassembly.Machine.held_next_deliver]
      refine ⟨fun hx => (by cases hx), ?_⟩
      rintro ⟨q, -, -, hq⟩
      have : m.next + 1 ≤ lift 256 (m.next + 1) q.seqnum := le_lift
      omega
    · rw [Reassembly.Machine.held_deliver_of_ne hi, h.held]
      refine exists_congr fun q => ?_
      constructor
      · rintro ⟨hq, hx, hqi⟩
        have hqp : q ≠ p := by
          rintro rfl
          exact hi (hqi.symm.trans (h.lift_eq_next_iff.2 hps))
        exact ⟨hbuf.mem_consume.2 ⟨hqp, hq⟩, hx, by rw [hlift q hq hqp, hqi]⟩
      · rintro ⟨hq, hx, hqi⟩
        obtain ⟨hqp, hqmem⟩ := hbuf.mem_consume.1 hq
        exact ⟨hqmem, hx, by rw [← hlift q hqmem hqp, hqi]⟩
  · have hne := (payloadBytes_eq_nil_iff p.pkt).not.2 hpay
    rw [List.filter_append, h.output]
    simp [Reassembly.Machine.deliver, hne]

/-- The drain loop is the loop of the reassembler. -/
theorem Represents.drain (h : Represents w outfile m) (hbuf : Buffered w) {fuel : ℕ}
    {s : Window × List (List Byte)}
    (hs : drain fuel (w, outfile) (w.findSeqnum w.pos) = .ok s) :
    Represents s.1 s.2 (m.drain content) := by
  refine drain_induction
    (motive := fun s s' => ∀ m, Represents s.1 s.2 m → Represents s'.1 s'.2 (m.drain content))
    ?_ ?_ hbuf hs m h
  · intro w outfile _ hp m h
    rwa [Reassembly.Machine.drain_of_none (h.held_next_eq_none hp)]
  · intro w outfile p s hbuf hp _ ih m h
    have hx := h.held_next hp
    by_cases heof : p.pkt.getLength = 0
    · have := ih m.drop (h.consume_eof hbuf hp heof)
      rw [Reassembly.Machine.drain_of_none Reassembly.Machine.held_next_drop] at this
      rwa [Reassembly.Machine.drain_of_drop hx (content_of_eof heof)]
    · rw [Reassembly.Machine.drain_of_deliver hx (content_of_payload heof)]
      exact ih _ (h.consume_payload hbuf hp heof)

/-- When the loop is through, a packet that was in the buffer still is, or it has a payload, or it
was the end of the file, and was the last one consumed. -/
theorem mem_or_consumed_of_drain (hbuf : Buffered w) {fuel : ℕ} {s : Window × List (List Byte)}
    (hs : Receiver.drain fuel (w, outfile) (w.findSeqnum w.pos) = .ok s) :
    ∀ q ∈ w.front, q ∈ s.1.front ∨ q.pkt.getLength ≠ 0 ∨
      (q.pkt.getLength = 0 ∧ s.2.getLast? = some []) := by
  refine drain_induction
    (motive := fun s s' => (s.1.findSeqnum s.1.pos = none → s' = s) ∧
      ∀ q ∈ s.1.front, q ∈ s'.1.front ∨ q.pkt.getLength ≠ 0 ∨
        (q.pkt.getLength = 0 ∧ s'.2.getLast? = some []))
    ?_ ?_ hbuf hs |>.2
  · exact fun w outfile _ _ => ⟨fun _ => rfl, fun q hq => .inl hq⟩
  · rintro w outfile p s hbuf hp - ⟨hstop, ih⟩
    refine ⟨fun hnone => absurd (hp.symm.trans hnone) nofun, fun q hq => ?_⟩
    by_cases hqp : q = p
    · subst hqp
      by_cases heof : q.pkt.getLength = 0
      · right; right
        rw [hstop (hbuf.findSeqnum_consume hp heof), (payloadBytes_eq_nil_iff q.pkt).2 heof]
        exact ⟨heof, by simp⟩
      · exact .inr (.inl heof)
    · exact ih q (hbuf.mem_consume.2 ⟨hqp, hq⟩)

/-- The fate of a packet in the buffer. -/
theorem Represents.fate (h : Represents w outfile m) (hbuf : Buffered w) {fuel : ℕ}
    {s : Window × List (List Byte)}
    (hs : Receiver.drain fuel (w, outfile) (w.findSeqnum w.pos) = .ok s) (hp : p ∈ w.front) :
    (p.pkt.getLength ≠ 0 ∧
      (m.drain content).output[lift 256 m.next p.seqnum]? = some p.pkt.payloadBytes) ∨
    (p.pkt.getLength = 0 ∧ s.2.getLast? = some []) ∨
    (m.drain content).held (lift 256 m.next p.seqnum) = some p.pkt := by
  have hfate := Reassembly.Machine.fate content h.length (h.held_of_mem hp)
  by_cases heof : p.pkt.getLength = 0
  · rcases mem_or_consumed_of_drain hbuf hs p hp with hstay | hpay | hlast
    · right; right
      -- the packet is held at some index, and a number has one index
      have hheld := (h.drain hbuf hs).held_of_mem hstay
      obtain ⟨q, hq, hqp, hqi⟩ := (h.held _ _).1 (Reassembly.Machine.held_of_held_drain m _ _ hheld)
      have hqs : q.seqnum = p.seqnum := congrArg (fun p : Pkt => p.getSeqnum.toNat) hqp
      rw [hqs] at hqi
      rw [hqi]
      exact hheld
    · exact absurd heof hpay
    · exact .inr (.inl hlast)
  · rcases hfate with ⟨b, hb, hout⟩ | ⟨hnone, -⟩ | hheld
    · rw [content_of_payload heof, Option.some.injEq] at hb
      exact .inl ⟨heof, hb ▸ hout⟩
    · rw [content_of_payload heof] at hnone
      cases hnone
    · exact .inr (.inr hheld)

/-- **The packet that signals the end, when it is next**: the loop consumes it, makes its empty
write, and stops. -/
theorem drain_of_eof (hbuf : Buffered w) {fuel : ℕ} {s : Window × List (List Byte)}
    (hs : Receiver.drain fuel (w, outfile) (w.findSeqnum w.pos) = .ok s)
    (hp : w.findSeqnum w.pos = some p) (heof : p.pkt.getLength = 0) :
    s = (consume w p, outfile ++ [p.pkt.payloadBytes]) := by
  rw [hp] at hs
  cases fuel with
  | zero => cases hs
  | succ fuel =>
    obtain ⟨hpops, hfails⟩ := drain_succ hbuf hp fuel outfile
    by_cases hself : PopsItself w p
    · rw [hpops hself, hbuf.findSeqnum_consume hp heof, drain_none] at hs
      exact (Except.ok.inj hs).symm
    · rw [hfails hself] at hs
      cases hs

/-- The packet that signals the end is in the buffer when the loop starts, and no other packet is
next: it is consumed, or stays in the buffer. -/
theorem Represents.fate_eof (h : Represents w outfile m) (hbuf : Buffered w) {fuel : ℕ}
    {s : Window × List (List Byte)}
    (hs : Receiver.drain fuel (w, outfile) (w.findSeqnum w.pos) = .ok s) (hp : p ∈ w.front)
    (heof : p.pkt.getLength = 0) (honly : ∀ q ∈ w.front, q.seqnum = w.pos → q = p) :
    (lift 256 m.next p.seqnum = (m.drain content).next ∧
      s.2 = outfile ++ [p.pkt.payloadBytes]) ∨ p ∈ s.1.front := by
  cases hfind : w.findSeqnum w.pos with
  | none =>
    rw [hfind, drain_none] at hs
    cases hs
    exact .inr hp
  | some q =>
    obtain ⟨hq, hqs⟩ := Window.mem_of_findSeqnum hfind
    obtain rfl := honly q hq hqs
    rw [drain_of_eof hbuf hs hfind heof,
      Reassembly.Machine.drain_of_drop (h.held_next hfind) (content_of_eof heof)]
    exact .inl ⟨h.lift_eq_next_iff.2 hqs, rfl⟩

/-! ### The iteration -/

/-- Pushing a packet at an index that no packet has is an offer that is taken. -/
theorem Represents.push (h : Represents w outfile m)
    (hreach : m.next ≤ lift 256 m.next p.seqnum ∧ lift 256 m.next p.seqnum < m.next + 31)
    (hlift : ∀ q ∈ w.front, lift 256 m.next q.seqnum ≠ lift 256 m.next p.seqnum)
    (hpos : w'.pos = w.pos) (hfront : w'.front = p :: w.front) :
    Represents w' outfile (m.offer (lift 256 m.next p.seqnum) p.pkt) := by
  have hfree : m.held (lift 256 m.next p.seqnum) = none := by
    rw [Option.eq_none_iff_forall_ne_some]
    intro x hx
    obtain ⟨q, hq, -, hqi⟩ := (h.held _ _).1 hx
    exact hlift q hq hqi
  refine ⟨by simpa [hpos] using h.pos, fun j x => ?_, by simpa using h.output,
    by simpa using h.length⟩
  rw [Reassembly.Machine.next_offer, hfront]
  by_cases hj : j = lift 256 m.next p.seqnum
  · subst hj
    rw [Reassembly.Machine.held_offer_self hreach hfree]
    constructor
    · intro hx
      exact ⟨p, List.mem_cons_self, Option.some.inj hx, rfl⟩
    · rintro ⟨q, hq, rfl, hqi⟩
      rcases List.mem_cons.1 hq with rfl | hq
      · rfl
      · exact absurd hqi (hlift q hq)
  · rw [Reassembly.Machine.held_offer_of_ne hj, h.held]
    constructor
    · rintro ⟨q, hq, hx, hqj⟩
      exact ⟨q, List.mem_cons_of_mem _ hq, hx, hqj⟩
    · rintro ⟨q, hq, hx, hqj⟩
      rcases List.mem_cons.1 hq with rfl | hq
      · exact absurd hqj.symm hj
      · exact ⟨q, hq, hx, hqj⟩

theorem Represents.arrive {st : State} {p : Pkt} (h : Represents st.w outfile m)
    (hhas : dist 256 st.w.pos p.getSeqnum.toNat < 31) :
    Represents (arrive st.w (st.alloc p)) outfile
      (m.offer (lift 256 m.next p.getSeqnum.toNat) p) := by
  have hreach : m.next ≤ lift 256 m.next p.getSeqnum.toNat ∧
      lift 256 m.next p.getSeqnum.toNat < m.next + 31 := by
    rw [h.pos] at hhas
    exact ⟨le_lift, by rw [lift]; omega⟩
  cases hf : st.w.findSeqnum (st.alloc p).seqnum with
  | some q =>
    obtain ⟨hq, hqs⟩ := Window.mem_of_findSeqnum hf
    have htaken : m.held (lift 256 m.next p.getSeqnum.toNat) = some q.pkt := by
      have := h.held_of_mem hq
      rwa [hqs] at this
    rw [Reassembly.Machine.offer_of_taken htaken]
    simp only [Receiver.arrive, hf, Option.isSome_some, if_true]
    exact h
  | none =>
    have hne := Window.findSeqnum_eq_none_iff.1 hf
    simp only [Receiver.arrive, hf, Option.isSome_none, Bool.false_eq_true, if_false]
    refine h.push (p := st.alloc p) hreach (fun q hq heq => ?_) rfl rfl
    -- packets with one index have one sequence number
    have hmod := lift_mod (k := m.next) q.seqnum_lt
    rw [heq, lift_mod (st.alloc p).seqnum_lt] at hmod
    exact hne q hq hmod.symm

variable {st st' : State} {d : List Byte} {reply : Option (List Byte)}

/-- **One iteration refines one step of the reassembler.** -/
theorem Refines.mainLoop (h : Refines st m) (hinv : Inv st)
    (hloop : mainLoop crc32 d st = .ok (st', reply)) :
    Refines st' (reassemble crc32 m d) := by
  obtain ⟨rfl, -, hnot⟩ | ⟨p, hrec, -, htr, rfl, -⟩ |
    ⟨p, hrec, hhas, htr, hbuf, hs, -, -⟩ := mainLoop_cases hinv hloop
  · have hsame : reassemble crc32 m d = m := by
      unfold reassemble
      cases hrec : received crc32 d with
      | none => rfl
      | some p =>
        have hout : ¬ (m.next ≤ lift 256 m.next p.getSeqnum.toNat ∧
            lift 256 m.next p.getSeqnum.toNat < m.next + 31) := by
          intro hin
          refine hnot p hrec ((hinv.standard.has_iff p.getSeqnum.isLt).2 ?_)
          rw [h.pos, hinv.size_eq]
          have := hin.2
          rw [lift] at this
          omega
        simp only [Reassembly.Machine.offer_of_not_mem hout,
          Reassembly.Machine.drain_of_none h.drained, ite_self]
    rw [hsame]
    exact { h with }
  · have hsame : reassemble crc32 m d = m := by simp only [reassemble, hrec, if_neg htr]
    rw [hsame]
    exact { h with }
  · have hdist := (hinv.standard.has_iff p.getSeqnum.isLt).1 hhas
    rw [hinv.size_eq] at hdist
    have hrep := (h.toRepresents.arrive hdist).drain hbuf hs
    have hstep : reassemble crc32 m d =
        (m.offer (lift 256 m.next p.getSeqnum.toNat) p).drain content := by
      simp only [reassemble, hrec, if_pos htr]
    rw [hstep]
    exact { hrep with drained := Reassembly.Machine.held_next_drain _ }

/-- A packet that has just been received is accounted for. -/
theorem Refines.accounted (h : Refines st m) (hinv : Inv st)
    (hloop : Receiver.mainLoop crc32 d st = .ok (st', reply)) {p : Pkt}
    (hrec : received crc32 d = some p) (hhas : st.w.has p.getSeqnum.toNat) (htr : p.getTr = 0) :
    Accounted st st' (reassemble crc32 m d) (lift 256 m.next p.getSeqnum.toNat) p := by
  obtain ⟨-, -, hnot⟩ | ⟨p', hrec', -, htr', -, -⟩ | ⟨p', hrec', -, -, hbuf, hs, -, -⟩ :=
    mainLoop_cases hinv hloop
  · exact absurd hhas (hnot p hrec)
  · exact absurd htr (Option.some.inj (hrec'.symm.trans hrec) ▸ htr')
  obtain rfl := Option.some.inj (hrec'.symm.trans hrec)
  have hdist := (hinv.standard.has_iff p'.getSeqnum.isLt).1 hhas
  rw [hinv.size_eq] at hdist
  have hrep := h.toRepresents.arrive hdist
  have hstep : reassemble crc32 m d =
      (m.offer (lift 256 m.next p'.getSeqnum.toNat) p').drain content := by
    simp only [reassemble, hrec, if_pos htr]
  rw [hstep]
  obtain ⟨q, hq, hqs, rfl | hfound⟩ := exists_mem_arrive (w := st.w) (p := st.alloc p')
  · -- the packet itself is in the buffer when the loop starts
    by_cases heof : p'.getLength = 0
    · -- and no other is next, or the last iteration would have written it
      have honly : ∀ x ∈ (Receiver.arrive st.w (st.alloc p')).front,
          x.seqnum = (Receiver.arrive st.w (st.alloc p')).pos → x = st.alloc p' := by
        intro x hx hxs
        rw [pos_arrive] at hxs
        exact (mem_arrive hx).resolve_left fun hx => hinv.ne_start x hx hxs
      rcases hrep.fate_eof hbuf hs hq heof honly with ⟨hnext, hout⟩ | hstay
      · rw [Reassembly.Machine.next_offer] at hnext
        exact .inr (.inl ⟨heof, hnext, hout⟩)
      · exact .inr (.inr ⟨_, hstay, rfl⟩)
    · have hfate := hrep.fate hbuf hs hq
      have hrep' := hrep.drain hbuf hs
      rw [Reassembly.Machine.next_offer] at hfate
      rcases hfate with hout | ⟨hzero, -⟩ | hheld
      · exact .inl hout
      · exact absurd hzero heof
      · obtain ⟨x, hx, hxp, -⟩ := (hrep'.held _ _).1 hheld
        exact .inr (.inr ⟨x, hx, congrArg (fun p : Pkt => p.getSeqnum.toNat) hxp⟩)
  · -- an earlier packet has the number, and nothing was in sequence, so the loop does nothing
    have hsame : Receiver.arrive st.w (st.alloc p') = st.w := by
      simp only [Receiver.arrive, hfound, Option.isSome_some, if_true]
    rw [hsame, Window.findSeqnum_eq_none_iff.2 hinv.ne_start, drain_none, Except.ok.injEq,
      Prod.mk.injEq] at hs
    exact .inr (.inr ⟨q, hs.1 ▸ hsame ▸ hq, hqs⟩)

theorem Refines.init : Refines Receiver.init Reassembly.Machine.init where
  pos := rfl
  held := fun i x => ⟨nofun, fun ⟨q, hq, _⟩ => by cases hq⟩
  output := rfl
  length := rfl
  drained := rfl

theorem Refines.run {ds : List (List Byte)} {replies : List (List Byte)} (h : Refines st m)
    (hinv : Inv st) (hrun : run crc32 ds st = .ok (st', replies)) :
    Refines st' (ds.foldl (reassemble crc32) m) := by
  induction ds generalizing st m replies with
  | nil =>
    cases hrun
    exact h
  | cons d ds ih =>
    obtain ⟨st₁, reply, replies₁, hd, hds, -⟩ := mainLoop_of_run_cons hrun
    exact ih (h.mainLoop hinv hd) (hinv.mainLoop hd) hds

/-- **The receiver refines an unbounded in-order reassembler.**  After any datagrams that the
process survives it represents the state of the reassembler, and has written its output; and
the ACK to the next datagram carries the next index and the timestamp of the packet in that
datagram, which is accounted for. -/
theorem run_refines {ds : List (List Byte)} {replies : List (List Byte)}
    (h : Receiver.run crc32 ds Receiver.init = .ok (st, replies)) :
    Refines st (ds.foldl (reassemble crc32) .init) ∧
    st.outfile.flatten = (ds.foldl (reassemble crc32) .init).output.flatten ∧
    ∀ d st' reply a, Receiver.mainLoop crc32 d st = .ok (st', some reply) →
      received crc32 reply = some a → a.getType = ptypeAck →
      a.getSeqnum.toNat = (reassemble crc32 (ds.foldl (reassemble crc32) .init) d).next % 256 ∧
      ∃ p, received crc32 d = some p ∧ a.getTimestamp = p.getTimestamp ∧
        Accounted st st' (reassemble crc32 (ds.foldl (reassemble crc32) .init) d)
          (lift 256 (ds.foldl (reassemble crc32) .init).next p.getSeqnum.toNat) p := by
  have hinv := Inv.init.run h
  have href := Refines.init.run Inv.init h
  refine ⟨href, ?_, fun d st' reply a hloop ha hack => ?_⟩
  · rw [← href.output]
    exact List.flatten_filter_ne_nil.symm
  obtain ⟨-, hnone, -⟩ | ⟨p, -, -, -, -, hreply⟩ | ⟨p, hrec, hhas, htr, -, -, -, hreply⟩ :=
    mainLoop_cases hinv hloop
  · cases hnone
  · obtain ⟨b, hb, hagree⟩ := received_nackPkt crc32 st.w.available p.getSeqnum
    rw [← Option.some.inj hreply, ha, Option.some.injEq] at hb
    subst hb
    exact absurd (hack.symm.trans hagree.type) (show ptypeAck ≠ ptypeNack by decide)
  · obtain ⟨b, hb, hagree⟩ :=
      received_ackPkt crc32 st'.w.available st'.w.pos p.getTimestamp
    rw [← Option.some.inj hreply, ha, Option.some.injEq] at hb
    subst hb
    have hpos := (href.mainLoop hinv hloop).pos
    refine ⟨?_, p, hrec, ?_, href.accounted hinv hloop hrec hhas htr⟩
    · rw [hagree.seqnum, ← hpos]
      exact Nat.mod_eq_of_lt (hinv.mainLoop hloop).standard.pos_lt
    · rw [hagree.timestamp]
      exact ntohl_htonl _

/-- Packet 1, then packet 0: both are written. -/
theorem run_refines_reordered :
    ∃ st replies,
      Receiver.run Crc32.crc32
        [[0x40, 1, 0, 1, 0, 0, 0, 7, 0x49, 0xCC, 0xAA, 0x23, 0x61, 0xE8, 0xB7, 0xBE, 0x43],
         [0x40, 0, 0, 1, 0, 0, 0, 1, 0x06, 0xD8, 0x04, 0xA2, 0x60, 0x9F, 0xB0, 0x8E, 0xD5]]
        Receiver.init = .ok (st, replies) ∧
      st.outfile = [[0x60], [0x61]] ∧
      st.outfile.flatten = (List.foldl (reassemble Crc32.crc32) .init
        [[0x40, 1, 0, 1, 0, 0, 0, 7, 0x49, 0xCC, 0xAA, 0x23, 0x61, 0xE8, 0xB7, 0xBE, 0x43],
         [0x40, 0, 0, 1, 0, 0, 0, 1, 0x06, 0xD8, 0x04, 0xA2, 0x60, 0x9F, 0xB0, 0x8E, 0xD5]]
        ).output.flatten := by
  have hrun : (Receiver.run Crc32.crc32
        [[0x40, 1, 0, 1, 0, 0, 0, 7, 0x49, 0xCC, 0xAA, 0x23, 0x61, 0xE8, 0xB7, 0xBE, 0x43],
         [0x40, 0, 0, 1, 0, 0, 0, 1, 0x06, 0xD8, 0x04, 0xA2, 0x60, 0x9F, 0xB0, 0x8E, 0xD5]]
        Receiver.init).toOption.map (fun r => r.1.outfile) = some [[0x60], [0x61]] := by
    decide +kernel
  obtain ⟨⟨st, replies⟩, hr, hout⟩ := Option.map_eq_some_iff.1 hrun
  exact ⟨st, replies, ok_of_toOption hr, hout, (run_refines (ok_of_toOption hr)).2.1⟩

end Receiver

end LosslessTransport
