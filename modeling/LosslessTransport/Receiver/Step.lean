import LosslessTransport.Receiver.Invariant

/-!
# One iteration of the receiver

An iteration does one of three things (`mainLoop_cases`): it ignores a datagram that is refused or
outside the window (`mainLoop_of_not_received`, `mainLoop_of_not_has`), answers a truncated packet
with a NACK (`mainLoop_of_truncated`), or stores the packet, drains the buffer and answers with an
ACK (`mainLoop_of_data`).  The replies are given as packets: `nackPkt` and `ackPkt`.

`drain_induction` is the rule for the drain loop: what holds when nothing is in sequence and is
carried back over a turn holds between the start and the end of the loop.
-/

namespace LosslessTransport

open Circular

namespace Receiver

/-- The packet `sendNack` sends. -/
def nackPkt (available : ℕ) (seqnum : BitVec 8) : Pkt :=
  { Pkt.new with type := ptypeNack, window := BitVec.ofNat 5 available, seqnum := seqnum }

/-- The packet `sendAck` sends. -/
def ackPkt (available start : ℕ) (timestamp : BitVec 32) : Pkt :=
  { Pkt.new with
    type := ptypeAck
    window := BitVec.ofNat 5 available
    seqnum := BitVec.ofNat 8 start
    timestamp := htonl timestamp }

/-- The window once the packet is in the buffer. -/
def arrive (w : Window) (pkt : PktPtr) : Window :=
  if (w.findSeqnum pkt.seqnum).isSome then w
  else { w with front := pkt :: w.front, bufsize := w.bufsize + 1 }

variable {crc32 : List Byte → BitVec 32} {w : Window} {p q : PktPtr} {st st' : State}

/-! ### Replies -/

theorem getLength_new : Pkt.new.getLength = 0 := by decide

theorem setWindow_of_le {p : Pkt} {n : ℕ} (h : n ≤ 31) :
    p.setWindow (BitVec.ofNat 8 n) = (.ok, { p with window := BitVec.ofNat 5 n }) := by
  have hn : (BitVec.ofNat 8 n).toNat = n := by
    rw [BitVec.toNat_ofNat, Nat.mod_eq_of_lt (by omega)]
  have hw : (BitVec.ofNat 8 n).setWidth 5 = BitVec.ofNat 5 n := by
    apply BitVec.eq_of_toNat_eq
    rw [BitVec.toNat_setWidth, hn, BitVec.toNat_ofNat]
  rw [Pkt.setWindow, hn, if_neg (by simp; omega), hw]

variable (crc32) in
theorem sendNack_eq (h : w.available ≤ 31) :
    sendNack crc32 w p = .ok ((nackPkt w.available p.pkt.getSeqnum).sealed crc32).image := by
  have htype := Pkt.new.setType_of_ne (t := ptypeNack) (by decide)
  have hsend := sendPacket_eq crc32 (p := nackPkt w.available p.pkt.getSeqnum)
    (by simp [nackPkt, Pkt.getType, ptypeNack]) (by
      rw [show (nackPkt w.available p.pkt.getSeqnum).getLength = 0 from getLength_new]
      simp)
  simp only [sendNack, htype, setWindow_of_le h, checked, Pkt.setSeqnum]
  exact hsend

variable (crc32) in
theorem sendAck_eq (h : w.available ≤ 31) (timestamp : BitVec 32) :
    sendAck crc32 w timestamp =
      .ok ((ackPkt w.available w.start timestamp).sealed crc32).image := by
  have htype := Pkt.new.setType_of_ne (t := ptypeAck) (by decide)
  have hsend := sendPacket_eq crc32 (p := ackPkt w.available w.start timestamp)
    (by simp [ackPkt, Pkt.getType, ptypeAck]) (by
      rw [show (ackPkt w.available w.start timestamp).getLength = 0 from getLength_new]
      simp)
  simp only [sendAck, htype, setWindow_of_le h, checked, Pkt.setSeqnum, Pkt.setTimestamp]
  exact hsend

variable (crc32) in
/-- The sender receives the NACK as it was sent. -/
theorem received_nackPkt (n : ℕ) (s : BitVec 8) :
    ∃ a, received crc32 ((nackPkt n s).sealed crc32).image = some a ∧ a.Agree (nackPkt n s) :=
  received_image crc32 (by simp [nackPkt, Pkt.getType, ptypeNack]) (by
    rw [show (nackPkt n s).getLength = 0 from getLength_new]
    simp) (.inr rfl)

variable (crc32) in
/-- The sender receives the ACK as it was sent. -/
theorem received_ackPkt (n s : ℕ) (t : BitVec 32) :
    ∃ a, received crc32 ((ackPkt n s t).sealed crc32).image = some a ∧ a.Agree (ackPkt n s t) :=
  received_image crc32 (by simp [ackPkt, Pkt.getType, ptypeAck]) (by
    rw [show (ackPkt n s t).getLength = 0 from getLength_new]
    simp) (.inr rfl)

/-! ### Storing a packet -/

theorem Buffered.available_le (h : Buffered w) : w.available ≤ 31 := by
  rw [Window.available_eq h.standard.toWf, h.size_eq]
  omega

theorem mem_arrive (hq : q ∈ (arrive w p).front) : q ∈ w.front ∨ q = p := by
  unfold arrive at hq
  split_ifs at hq
  · exact .inl hq
  · exact (List.mem_cons.1 hq).symm

theorem pos_arrive : (arrive w p).pos = w.pos := by
  unfold arrive
  split_ifs <;> rfl

/-- After `arrive` the buffer has a packet with the sequence number. -/
theorem exists_mem_arrive : ∃ q ∈ (arrive w p).front, q.seqnum = p.seqnum ∧
    (q = p ∨ w.findSeqnum p.seqnum = some q) := by
  unfold arrive
  cases h : w.findSeqnum p.seqnum with
  | none => exact ⟨p, by simp, rfl, .inl rfl⟩
  | some q =>
    obtain ⟨hq, hs⟩ := Window.mem_of_findSeqnum h
    exact ⟨q, by simpa using hq, hs, .inr rfl⟩

/-- The packet of an iteration: it gets the next address. -/
def State.alloc (st : State) (p : Pkt) : PktPtr := { addr := st.allocs, pkt := p }

theorem Inv.not_full (h : Inv st) : st.w.full = false := by
  have := h.length_le
  rw [Window.full_eq_false_iff h.standard.toWf, h.size_eq]
  omega

theorem Inv.addToBuffer (h : Inv st) (p : PktPtr) :
    addToBuffer st.w p = .ok (arrive st.w p) := by
  unfold Receiver.addToBuffer arrive
  cases hf : st.w.findSeqnum p.seqnum with
  | some q => simp only [Option.isSome_some, if_true]; rfl
  | none => simp only [Window.push_of_not_full p h.not_full]; rfl

/-- A packet in the window is stored, unless one with its number is in the buffer. -/
theorem Inv.arrive {p : Pkt} (h : Inv st) (hhas : st.w.has p.getSeqnum.toNat) (htr : p.getTr = 0) :
    Buffered (arrive st.w (st.alloc p)) := by
  have hdist : dist 256 st.w.pos p.getSeqnum.toNat < 31 :=
    ((h.standard.has_iff p.getSeqnum.isLt).1 hhas).trans_le h.size_eq.le
  cases hf : st.w.findSeqnum (st.alloc p).seqnum with
  | some q =>
    simp only [Receiver.arrive, hf, Option.isSome_some, if_true]
    exact h.toBuffered
  | none =>
    have hstd := h.standard.push (st.alloc p)
    rw [Window.push_of_not_full _ h.not_full] at hstd
    have hne := Window.findSeqnum_eq_none_iff.1 hf
    simp only [Receiver.arrive, hf, Option.isSome_none, Bool.false_eq_true, if_false]
    refine ⟨hstd, h.size_eq, ?_, ?_, ?_, ?_⟩
    · exact List.forall_mem_cons.2 ⟨htr, h.tr⟩
    · exact List.forall_mem_cons.2 ⟨hdist, h.has⟩
    · intro x hx y hy hxy
      rcases List.mem_cons.1 hx with rfl | hx <;> rcases List.mem_cons.1 hy with rfl | hy
      · rfl
      · exact absurd hxy.symm (hne y hy)
      · exact absurd hxy (hne x hx)
      · exact h.inj x hx y hy hxy
    · exact List.pairwise_cons.2 ⟨h.addr_lt, h.sorted⟩

/-! ### The drain loop -/

theorem drain_none (fuel : ℕ) (s : Window × List (List Byte)) : drain fuel s none = .ok s := by
  cases fuel <;> rfl

/-- The rule for the drain loop. -/
theorem drain_induction {motive : Window × List (List Byte) → Window × List (List Byte) → Prop}
    (stop : ∀ w outfile, Buffered w → w.findSeqnum w.pos = none →
      motive (w, outfile) (w, outfile))
    (turn : ∀ w outfile p s, Buffered w → w.findSeqnum w.pos = some p → PopsItself w p →
      motive (consume w p, outfile ++ [p.pkt.payloadBytes]) s → motive (w, outfile) s)
    {fuel : ℕ} {outfile : List (List Byte)} {s : Window × List (List Byte)} (h : Buffered w)
    (hs : drain fuel (w, outfile) (w.findSeqnum w.pos) = .ok s) : motive (w, outfile) s := by
  induction fuel generalizing w outfile with
  | zero =>
    cases hp : w.findSeqnum w.pos with
    | none =>
      rw [hp] at hs
      cases hs
      exact stop w outfile h hp
    | some p =>
      rw [hp] at hs
      cases hs
  | succ fuel ih =>
    cases hp : w.findSeqnum w.pos with
    | none =>
      rw [hp] at hs
      cases hs
      exact stop w outfile h hp
    | some p =>
      rw [hp] at hs
      obtain ⟨hok, herr⟩ := drain_succ h hp fuel outfile
      by_cases hself : PopsItself w p
      · rw [hok hself] at hs
        exact turn w outfile p s h hp hself (ih (h.consume hp) hs)
      · rw [herr hself] at hs
        cases hs

/-- With the length of the buffer as fuel the loop ends, or fails its assertion. -/
theorem drain_ok_or_assertion {fuel : ℕ} {outfile : List (List Byte)} (h : Buffered w)
    (hfuel : w.front.length ≤ fuel) :
    (∃ s, drain fuel (w, outfile) (w.findSeqnum w.pos) = .ok s) ∨
      drain fuel (w, outfile) (w.findSeqnum w.pos) = .error .assertion := by
  induction fuel generalizing w outfile with
  | zero =>
    have hnil : w.front = [] := List.length_eq_zero_iff.1 (by omega)
    exact .inl ⟨_, by rw [Window.findSeqnum_of_nil hnil]; rfl⟩
  | succ fuel ih =>
    cases hp : w.findSeqnum w.pos with
    | none => exact .inl ⟨_, rfl⟩
    | some p =>
      obtain ⟨hok, herr⟩ := drain_succ h hp fuel outfile
      by_cases hself : PopsItself w p
      · have hmem := (Window.mem_of_findSeqnum hp).1
        rw [hok hself]
        refine ih (h.consume hp) ?_
        rw [length_front_consume hmem]
        omega
      · exact .inr (herr hself)

theorem drain_buffered {fuel : ℕ} {outfile : List (List Byte)} {s : Window × List (List Byte)}
    (h : Buffered w) (hs : drain fuel (w, outfile) (w.findSeqnum w.pos) = .ok s) :
    Buffered s.1 ∧ s.1.front ⊆ w.front ∧ ∀ p ∈ s.1.front, p.seqnum ≠ s.1.pos := by
  refine drain_induction
    (motive := fun s s' => Buffered s'.1 ∧ s'.1.front ⊆ s.1.front ∧
      ∀ p ∈ s'.1.front, p.seqnum ≠ s'.1.pos) ?_ ?_ h hs
  · intro w outfile h hnone
    exact ⟨h, List.Subset.refl _, Window.findSeqnum_eq_none_iff.1 hnone⟩
  · rintro w outfile p s h hp - ⟨hbuf, hsub, hne⟩
    exact ⟨hbuf, fun q hq => (h.mem_consume.1 (hsub hq)).2, hne⟩

/-! ### The iteration -/

variable {d : List Byte} {p : Pkt} {reply : Option (List Byte)}

theorem mainLoop_of_not_received (h : received crc32 d = none) :
    mainLoop crc32 d st = .ok ({ st with allocs := st.allocs + 1 }, none) := by
  obtain ⟨⟨err, p⟩, hdec⟩ := Pkt.exists_decode crc32 (d.take maxPacketSize) Pkt.new
  have herr : err ≠ .ok := by
    rintro rfl
    rw [received] at h
    simp only [hdec] at h
    cases h
  simp only [mainLoop, hdec, if_pos herr]
  rfl

theorem mainLoop_of_not_has (h : received crc32 d = some p)
    (hhas : ¬ st.w.has p.getSeqnum.toNat) :
    mainLoop crc32 d st = .ok ({ st with allocs := st.allocs + 1 }, none) := by
  have hhas' : ¬ st.w.has (PktPtr.seqnum ⟨st.allocs, p⟩) := hhas
  simp only [mainLoop, decode_of_received h, ne_eq, not_true_eq_false, if_false, if_pos hhas']
  rfl

theorem mainLoop_of_truncated (hst : Inv st) (h : received crc32 d = some p)
    (hhas : st.w.has p.getSeqnum.toNat) (htr : p.getTr ≠ 0) :
    mainLoop crc32 d st = .ok ({ st with allocs := st.allocs + 1 },
      some ((nackPkt st.w.available p.getSeqnum).sealed crc32).image) := by
  have hhas' : ¬ ¬ st.w.has (PktPtr.seqnum ⟨st.allocs, p⟩) := not_not.2 hhas
  have hnack := sendNack_eq crc32 (p := ⟨st.allocs, p⟩) hst.available_le
  simp only [mainLoop, decode_of_received h, ne_eq, not_true_eq_false, if_false, if_neg hhas',
    if_pos htr, hnack]
  rfl

/-- The drain loop decides the result of an iteration that stores a packet. -/
theorem mainLoop_of_data (hst : Inv st) (h : received crc32 d = some p)
    (hhas : st.w.has p.getSeqnum.toNat) (htr : p.getTr = 0) :
    let w := arrive st.w (st.alloc p)
    mainLoop crc32 d st =
      (drain w.front.length (w, st.outfile) (w.findSeqnum w.pos)).map fun s =>
        ({ w := s.1, outfile := s.2, allocs := st.allocs + 1 },
          some ((ackPkt s.1.available s.1.pos p.getTimestamp).sealed crc32).image) := by
  intro w
  have hhas' : ¬ ¬ st.w.has (PktPtr.seqnum ⟨st.allocs, p⟩) := not_not.2 hhas
  have hbuf : Buffered w := hst.arrive hhas htr
  have hadd : addToBuffer st.w ⟨st.allocs, p⟩ = .ok w := hst.addToBuffer _
  simp only [mainLoop, decode_of_received h, ne_eq, not_true_eq_false, if_false, if_neg hhas',
    if_neg (not_not.2 htr)]
  change (addToBuffer st.w ⟨st.allocs, p⟩).bind _ = _
  rw [hadd]
  change (drain w.front.length (w, st.outfile) (w.findSeqnum w.pos)).bind _ = _
  cases hs : drain w.front.length (w, st.outfile) (w.findSeqnum w.pos) with
  | error e => rfl
  | ok s =>
    have hack := sendAck_eq crc32 (drain_buffered hbuf hs).1.available_le
      p.getTimestamp
    change (sendAck crc32 s.1 p.getTimestamp).bind _ = _
    rw [hack]
    rfl

/-- The next packet of the stream, when the buffer is empty, is consumed at once. -/
theorem mainLoop_of_next (hst : Inv st) (hnil : st.w.front = []) (h : received crc32 d = some p)
    (hseq : p.getSeqnum.toNat = st.w.pos) (htr : p.getTr = 0) {w' : Window}
    (hconsume : consume { st.w with front := [st.alloc p], bufsize := 1 } (st.alloc p) = w')
    (hnil' : w'.front = []) :
    mainLoop crc32 d st = .ok
      ({ w := w', outfile := st.outfile ++ [p.payloadBytes], allocs := st.allocs + 1 },
        some ((ackPkt w'.available w'.pos p.getTimestamp).sealed crc32).image) := by
  set q := st.alloc p with hq
  have hdist : dist 256 st.w.pos p.getSeqnum.toNat < 31 := by
    rw [hseq, dist_self hst.standard.pos_lt]
    decide
  have hhas : st.w.has p.getSeqnum.toNat :=
    (hst.standard.has_iff p.getSeqnum.isLt).2 (hst.size_eq.symm ▸ hdist)
  have harrive : arrive st.w q = { st.w with front := [q], bufsize := 1 } := by
    rw [arrive, Window.findSeqnum_of_nil hnil, hnil, hst.standard.bufsize_eq, hnil]
    rfl
  have hbuf := hst.arrive hhas htr
  have hfind : (arrive st.w q).findSeqnum (arrive st.w q).pos = some q := by
    rw [harrive, Window.findSeqnum]
    exact List.find?_cons_of_pos (decide_eq_true hseq)
  have hself : PopsItself (arrive st.w q) q := by
    intro x hx _
    rw [harrive] at hx
    rw [List.mem_singleton.1 hx]
  have hlength : (arrive st.w q).front.length = 1 := by rw [harrive]; rfl
  rw [← harrive] at hconsume
  rw [mainLoop_of_data hst h hhas htr, ← hq, hlength, hfind,
    (drain_succ hbuf hfind 0 st.outfile).1 hself, hconsume, Window.findSeqnum_of_nil hnil',
    drain_none]
  rfl

/-- When it has a payload, it is written, and the window slides. -/
theorem mainLoop_in_sequence (hst : Inv st) (hnil : st.w.front = []) (h : received crc32 d = some p)
    (hseq : p.getSeqnum.toNat = st.w.pos) (htr : p.getTr = 0) (hlen : p.getLength ≠ 0) :
    mainLoop crc32 d st = .ok
      ({ w := { st.w with pos := (st.w.pos + 1) % 256 }
         outfile := st.outfile ++ [p.payloadBytes]
         allocs := st.allocs + 1 },
        some ((ackPkt 31 ((st.w.pos + 1) % 256) p.getTimestamp).sealed crc32).image) := by
  have hbufsize : st.w.bufsize = 0 := by rw [hst.standard.bufsize_eq, hnil]; rfl
  have hconsume : consume { st.w with front := [st.alloc p], bufsize := 1 } (st.alloc p) =
      { st.w with pos := (st.w.pos + 1) % 256 } := by
    have hmax := hst.standard.maxSeqnum_eq
    have hqlen : (st.alloc p).pkt.getLength ≠ 0 := hlen
    rw [consume, if_neg hqlen]
    simp [Window.slide, hmax, hnil, hbufsize]
  have havailable : Window.available { st.w with pos := (st.w.pos + 1) % 256 } = 31 := by
    simp [Window.available, hbufsize, hst.size_eq]
  rw [mainLoop_of_next hst hnil h hseq htr hconsume hnil, havailable]

/-- What an iteration does. -/
theorem mainLoop_cases (hst : Inv st) (h : mainLoop crc32 d st = .ok (st', reply)) :
    (st' = { st with allocs := st.allocs + 1 } ∧ reply = none ∧
      ∀ p, received crc32 d = some p → ¬ st.w.has p.getSeqnum.toNat) ∨
    (∃ p, received crc32 d = some p ∧ st.w.has p.getSeqnum.toNat ∧ p.getTr ≠ 0 ∧
      st' = { st with allocs := st.allocs + 1 } ∧
      reply = some ((nackPkt st.w.available p.getSeqnum).sealed crc32).image) ∨
    ∃ p, received crc32 d = some p ∧ st.w.has p.getSeqnum.toNat ∧ p.getTr = 0 ∧
      Buffered (arrive st.w (st.alloc p)) ∧
      drain (arrive st.w (st.alloc p)).front.length (arrive st.w (st.alloc p), st.outfile)
        ((arrive st.w (st.alloc p)).findSeqnum (arrive st.w (st.alloc p)).pos) =
          .ok (st'.w, st'.outfile) ∧
      st'.allocs = st.allocs + 1 ∧
      reply = some ((ackPkt st'.w.available st'.w.pos p.getTimestamp).sealed crc32).image := by
  cases hrec : received crc32 d with
  | none =>
    rw [mainLoop_of_not_received hrec] at h
    cases h
    exact .inl ⟨rfl, rfl, nofun⟩
  | some p =>
    by_cases hhas : st.w.has p.getSeqnum.toNat
    · by_cases htr : p.getTr = 0
      · rw [mainLoop_of_data hst hrec hhas htr] at h
        obtain ⟨s, hs, hr⟩ := map_eq_ok.1 h
        cases hr
        exact .inr (.inr ⟨p, rfl, hhas, htr, hst.arrive hhas htr, hs, rfl, rfl⟩)
      · rw [mainLoop_of_truncated hst hrec hhas htr] at h
        cases h
        exact .inr (.inl ⟨p, rfl, hhas, htr, rfl, rfl⟩)
    · rw [mainLoop_of_not_has hrec hhas] at h
      cases h
      exact .inl ⟨rfl, rfl, fun q hq => by cases hq; exact hhas⟩

theorem Inv.mainLoop (hst : Inv st) (h : mainLoop crc32 d st = .ok (st', reply)) : Inv st' := by
  have haddr : ∀ q ∈ st.w.front, q.addr < st.allocs + 1 := fun q hq =>
    Nat.lt_succ_of_lt (hst.addr_lt q hq)
  obtain ⟨rfl, -, -⟩ | ⟨p, -, -, -, rfl, -⟩ | ⟨p, -, -, -, hbuf, hs, hallocs, -⟩ :=
    mainLoop_cases hst h
  · exact { hst with addr_lt := haddr }
  · exact { hst with addr_lt := haddr }
  · obtain ⟨hbuf', hsub, hne⟩ := drain_buffered hbuf hs
    refine { toBuffered := hbuf', ne_start := hne, addr_lt := fun q hq => ?_ }
    rw [hallocs]
    rcases mem_arrive (hsub hq) with hq | rfl
    · exact haddr q hq
    · exact Nat.lt_succ_self _

theorem Inv.init : Inv Receiver.init := by
  have hnil : Receiver.init.w.front = [] := rfl
  refine ⟨⟨Window.Standard.create 31 rfl, rfl, ?_, ?_, ?_, ?_⟩, ?_, ?_⟩ <;> simp [hnil]

/-- The first iteration of a run, and the others. -/
theorem run_cons_eq_ok {ds : List (List Byte)} {r : State × List (List Byte)} :
    run crc32 (d :: ds) st = .ok r ↔ ∃ rd, Receiver.mainLoop crc32 d st = .ok rd ∧
      ∃ r', run crc32 ds rd.1 = .ok r' ∧ r = (r'.1, rd.2.toList ++ r'.2) := by
  refine bind_eq_ok.trans (exists_congr fun rd => and_congr_right fun _ => ?_)
  refine bind_eq_ok.trans (exists_congr fun r' => and_congr_right fun _ => ?_)
  constructor
  · intro h
    cases h
    rfl
  · rintro rfl
    rfl

theorem mainLoop_of_run_cons {ds : List (List Byte)} {replies : List (List Byte)}
    (h : run crc32 (d :: ds) st = .ok (st', replies)) :
    ∃ st₁ reply replies₁, Receiver.mainLoop crc32 d st = .ok (st₁, reply) ∧
      run crc32 ds st₁ = .ok (st', replies₁) ∧ replies = reply.toList ++ replies₁ := by
  obtain ⟨⟨st₁, reply⟩, hd, ⟨st₂, replies₁⟩, hds, hr⟩ := run_cons_eq_ok.1 h
  cases hr
  exact ⟨st₁, reply, replies₁, hd, hds, rfl⟩

theorem Inv.run {ds : List (List Byte)} {replies : List (List Byte)} (hst : Inv st)
    (hrun : run crc32 ds st = .ok (st', replies)) : Inv st' := by
  induction ds generalizing st replies with
  | nil =>
    cases hrun
    exact hst
  | cons d ds ih =>
    obtain ⟨st₁, reply, replies₁, hd, hds, -⟩ := mainLoop_of_run_cons hrun
    exact ih (hst.mainLoop hd) hds

end Receiver

end LosslessTransport
