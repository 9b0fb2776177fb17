import LosslessTransport.Lib.Crc32
import LosslessTransport.Sender.Cumulative
import LosslessTransport.Sender.Robust

/-!
# Responses about other packets

The packets in flight are numbered from `window_start` up to `next`, going round the circle of 256
numbers.  A response about a number outside (`Sender.Outside`) is late, or foreign.  `handle_nack`
has a check for it, `handle_ack` has none, and the resize that follows is made in any case:
`Sender.discards_iff` says which of these responses leave the window as it was, and which ones move
`window_start` back.
-/

namespace LosslessTransport

open Circular

namespace Sender

variable (crc32 : List Byte → BitVec 32)

/-- The number of the response is not in the circular interval from `window_start` up to `next`;
for an ACK, `next` itself is in it. -/
def Outside (st : State) (resp : Pkt) : Prop :=
  if resp.getType = ptypeAck then
    dist 256 st.w.start st.next < dist 256 st.w.start resp.getSeqnum.toNat
  else dist 256 st.w.start st.next ≤ dist 256 st.w.start resp.getSeqnum.toNat

instance (st : State) (resp : Pkt) : Decidable (Outside st resp) :=
  inferInstanceAs (Decidable (if resp.getType = ptypeAck then _ < _ else _ ≤ _))

/-- The packets in the buffer are in flight. -/
def InFlight (st : State) : Prop :=
  ∀ p ∈ st.w.front, dist 256 st.w.start p.seqnum < dist 256 st.w.start st.next

instance (st : State) : Decidable (InFlight st) :=
  inferInstanceAs (Decidable (∀ p ∈ st.w.front, _))

/-- The handling of the datagram leaves the start of the window, the packets in the buffer and the
size of the window as they were. -/
def Discards (w : Window) (d : List Byte) : Prop :=
  ∀ readings, ∃ w', handleResponse crc32 w d readings = .ok (some (w', readings)) ∧
    w'.start = w.start ∧ w'.front = w.front ∧ w'.size = w.size

/-- The state after an iteration that comes back. -/
def iterate (st : State) (l : Option (List Byte) × List ℕ) : Option State :=
  (mainLoop crc32 l.1 l.2 st).toOption.map Prod.fst

/-- In none of these iterations `window_start` moves back: it stays, or moves on to a number up to
`next`. -/
def NeverBack : State → List (Option (List Byte) × List ℕ) → Prop :=
  LTS.Each (iterate crc32) fun st l => ∀ st', iterate crc32 st l = some st' →
    dist 256 st.w.start st'.w.start ≤ dist 256 st.w.start st.next

/-- In none of these iterations an ACK is received that is outside. -/
def NoneOutside : State → List (Option (List Byte) × List ℕ) → Prop :=
  LTS.Each (iterate crc32) fun st l => ∀ d ack, l.1 = some d → received crc32 d = some ack →
    ack.getType = ptypeAck → ¬ Outside st ack

variable {crc32} {input : List Chunk} {st st' : State} {w : Window} {d : List Byte} {resp : Pkt}

/-- An ACK that is outside moves the start of the window. -/
theorem not_discards_of_ack (hw : st.w.Standard) (hrec : received crc32 d = some resp)
    (hack : resp.getType = ptypeAck) (hout : Outside st resp) : ¬ Discards crc32 st.w d := by
  intro hdisc
  obtain ⟨w', hw', hstart, -⟩ := hdisc []
  rw [handleResponse_of_ack hw hrec hack] at hw'
  cases hw'
  have hpos : resp.getSeqnum.toNat = st.w.start := (pos_acked st.w resp).symm.trans hstart
  rw [Outside, if_pos hack, hpos, Window.start, dist_self hw.pos_lt] at hout
  exact Nat.not_lt_zero _ hout

/-- A NACK that is outside names no packet: the window is resized, no more. -/
theorem handleResponse_of_nack_outside (hw : st.w.Standard) (hflight : InFlight st)
    (hrec : received crc32 d = some resp) (hdata : resp.getType ≠ ptypeData)
    (hack : resp.getType ≠ ptypeAck) (hout : Outside st resp) (readings : List ℕ) :
    handleResponse crc32 st.w d readings =
      .ok (some ({ st.w with size := resp.getWindow.toNat }, readings)) := by
  rw [Outside, if_neg hack] at hout
  have hnone : st.w.findSeqnum resp.getSeqnum.toNat = none := by
    rw [Window.findSeqnum_eq_none_iff]
    intro p hp heq
    have := hflight p hp
    rw [heq] at this
    omega
  have hnack : handleNack st.w resp readings = .ok (st.w, readings) := by
    rw [handleNack, hnone]
    split_ifs <;> rfl
  rw [handleResponse_of_nack hw hrec hdata hack, hnack]
  rfl

/-! ### The start of the window -/

/-- Receiving an ACK moves the start of the window to its number; nothing else moves it. -/
theorem start_of_receive (hw : w.Standard) {ready : Option (List Byte)} {readings : List ℕ}
    {r : Option (Window × List ℕ)} (h : receive crc32 w ready readings = .ok r) :
    (∃ d ack w' rest, ready = some d ∧ received crc32 d = some ack ∧ ack.getType = ptypeAck ∧
      r = some (w', rest) ∧ w'.start = ack.getSeqnum.toNat) ∨
    ((∀ d ack, ready = some d → received crc32 d = some ack → ack.getType ≠ ptypeAck) ∧
      ∀ w' rest, r = some (w', rest) → w'.start = w.start) := by
  cases ready with
  | none =>
    cases h
    refine .inr ⟨nofun, fun w' rest heq => ?_⟩
    cases heq
    rfl
  | some d =>
    -- what is received from `d` decides which of the two it is
    have hother : ∀ {resp : Option Pkt}, received crc32 d = resp →
        (∀ p ∈ resp, p.getType ≠ ptypeAck) →
        ∀ d' ack, some d = some d' → received crc32 d' = some ack → ack.getType ≠ ptypeAck := by
      rintro resp hresp hnot d' ack hd hrec
      cases hd
      exact hnot ack (hresp.symm.trans hrec)
    obtain ⟨hrec, rfl⟩ | ⟨p, hrec, htype, rfl⟩ | ⟨ack, hrec, hack, rfl⟩ |
      ⟨nack, hrec, -, hack, w', readings', hnack, rfl⟩ := handleResponse_cases hw h
    · refine .inr ⟨hother hrec nofun, fun w' rest heq => ?_⟩
      cases heq
      rfl
    · refine .inr ⟨hother hrec fun q hq => ?_, nofun⟩
      cases hq
      exact htype.symm ▸ by decide
    · exact .inl ⟨d, ack, _, readings, rfl, hrec, hack, rfl, pos_acked _ _⟩
    · refine .inr ⟨hother hrec fun q hq => ?_, fun w'' rest heq => ?_⟩
      · cases hq
        exact hack
      · cases heq
        rcases handleNack_cases hnack with ⟨rfl, -⟩ | ⟨p, -, now, -, rfl⟩ <;> rfl

/-- What follows the response leaves the start of the window where it is. -/
theorem start_of_mainLoop (hinv : Inv input st) {ready : Option (List Byte)}
    {readings rest : List ℕ} {sent : List Sent}
    (h : mainLoop crc32 ready readings st = .ok (st', sent, rest)) :
    (∃ d ack, ready = some d ∧ received crc32 d = some ack ∧ ack.getType = ptypeAck ∧
      st'.w.start = ack.getSeqnum.toNat) ∨
    ((∀ d ack, ready = some d → received crc32 d = some ack → ack.getType ≠ ptypeAck) ∧
      st'.w.start = st.w.start) := by
  obtain ⟨readings₀, -, hearly | hloop⟩ := mainLoop_cases h
  · obtain ⟨hreceive, rfl, -⟩ := hearly
    obtain ⟨d, ack, w', rest', -, -, -, heq, -⟩ | ⟨hno, -⟩ :=
      start_of_receive hinv.standard hreceive
    · cases heq
    · exact .inr ⟨hno, rfl⟩
  obtain ⟨w₁, loopNow, readings₁, w₂, sent₂, readings₂, hreceive, hretr, hnew⟩ := hloop
  have hbuf := (response_of_receive_some hinv.standard hreceive).buffered hinv.toBuffered
  obtain ⟨-, -, hpos, -⟩ := retransmitExpired_spec hbuf hretr
  have hstart : st'.w.start = w₁.start := by
    obtain ⟨hfull, -, new, hsend, -⟩ | ⟨-, rfl, -⟩ := hnew
    · obtain ⟨now, p, -, -, -, rfl, -⟩ := sendNew_spec hfull hsend
      exact hpos
    · exact hpos
  rw [hstart]
  obtain ⟨d, ack, w', rest', hready, hrec, hack, heq, hw'⟩ | ⟨hno, hsame⟩ :=
    start_of_receive hinv.standard hreceive
  · cases heq
    exact .inl ⟨d, ack, hready, hrec, hack, hw'⟩
  · exact .inr ⟨hno, hsame _ _ rfl⟩

theorem mainLoop_of_iterate {l : Option (List Byte) × List ℕ} (h : iterate crc32 st l = some st') :
    ∃ sent rest, mainLoop crc32 l.1 l.2 st = .ok (st', sent, rest) := by
  obtain ⟨r, hr, rfl⟩ := Option.map_eq_some_iff.1 h
  exact ⟨r.2.1, r.2.2, ok_of_toOption hr⟩

/-- The start of the window never moves back exactly when no ACK is received that is outside. -/
theorem neverBack_iff (hinv : Inv input st) (ls : List (Option (List Byte) × List ℕ)) :
    NeverBack crc32 st ls ↔ NoneOutside crc32 st ls := by
  refine LTS.each_congr (I := Inv input) (fun st l st' hinv hst' => ?_)
    (fun st l st' hinv hst' => ?_) hinv
  · obtain ⟨sent, rest, hloop⟩ := mainLoop_of_iterate hst'
    exact (mainLoop_spec hinv hloop).1
  obtain ⟨sent, rest, hloop⟩ := mainLoop_of_iterate hst'
  have hself : dist 256 st.w.start st.w.start = 0 := dist_self hinv.standard.pos_lt
  constructor
  · intro hback d ack hready hrec hack hout
    obtain ⟨d', ack', hready', hrec', -, hstart⟩ | ⟨hno, -⟩ := start_of_mainLoop hinv hloop
    · rw [hready, Option.some.injEq] at hready'
      rw [← hready', hrec, Option.some.injEq] at hrec'
      have := hback st' hst'
      rw [Outside, if_pos hack] at hout
      rw [hstart, ← hrec'] at this
      omega
    · exact hno d ack hready hrec hack
  · intro hnone st'' hst''
    obtain rfl := Option.some.inj (hst'.symm.trans hst'')
    obtain ⟨d, ack, hready, hrec, hack, hstart⟩ | ⟨-, hstart⟩ := start_of_mainLoop hinv hloop
    · have := hnone d ack hready hrec hack
      rw [Outside, if_pos hack] at this
      rw [hstart]
      omega
    · rw [hstart, hself]
      exact Nat.zero_le _

/-- **When a response about another packet is discarded**: exactly when it is a NACK and advertises
the size that the window has.  In a run of the sender the start of the window never moves back
exactly when no ACK is received that is outside. -/
theorem discards_iff (hw : st.w.Standard) (hflight : InFlight st) :
    (∀ d resp, received crc32 d = some resp → resp.getType ≠ ptypeData → Outside st resp →
      (Discards crc32 st.w d ↔
        resp.getType ≠ ptypeAck ∧ resp.getWindow.toNat = st.w.size)) ∧
    ((lts crc32).Reachable (init input) st →
      ∀ ls, NeverBack crc32 st ls ↔ NoneOutside crc32 st ls) := by
  refine ⟨fun d resp hrec hdata hout => ?_, fun h ls => neverBack_iff (inv_of_reachable h) ls⟩
  by_cases hack : resp.getType = ptypeAck
  · have hnot := not_discards_of_ack hw hrec hack hout
    exact ⟨fun h => absurd h hnot, fun h => absurd hack h.1⟩
  have heq := handleResponse_of_nack_outside hw hflight hrec hdata hack hout
  constructor
  · intro hdisc
    obtain ⟨w', hw', -, -, hsize⟩ := hdisc []
    rw [heq] at hw'
    cases hw'
    exact ⟨hack, hsize⟩
  · rintro ⟨-, hsize⟩ readings
    exact ⟨_, heq readings, rfl, rfl, hsize⟩

theorem inFlight_sentEmpty : InFlight sentEmpty := by
  decide +kernel

/-- A NACK for packet 200 that advertises the window of 1 again is discarded, and leaves the start
of the window where it is. -/
theorem discards_sentEmpty :
    ∃ d nack, received Crc32.crc32 d = some nack ∧ nack.getType ≠ ptypeData ∧
      Outside sentEmpty nack ∧ Discards Crc32.crc32 sentEmpty.w d ∧
      NeverBack Crc32.crc32 sentEmpty [(some d, [2, 3])] := by
  let d : List Byte := [0xC1, 200, 0, 0, 0, 0, 0, 0, 0x2C, 0xDC, 0x49, 0x2C]
  have hrec : (received Crc32.crc32 d).map (fun nack =>
      decide (nack.getType ≠ ptypeData ∧ Outside sentEmpty nack ∧ nack.getType ≠ ptypeAck ∧
        nack.getWindow.toNat = sentEmpty.w.size)) = some true := by
    decide +kernel
  obtain ⟨nack, hnack, h⟩ := Option.map_eq_some_iff.1 hrec
  obtain ⟨hdata, hout, hack, hsize⟩ := of_decide_eq_true h
  obtain ⟨hdisc, hback⟩ :=
    discards_iff (inv_of_reachable reachable_sentEmpty).standard inFlight_sentEmpty
  refine ⟨d, nack, hnack, hdata, hout, (hdisc d nack hnack hdata hout).2 ⟨hack, hsize⟩,
    (hback reachable_sentEmpty _).2 fun st' _ => ⟨?_, trivial⟩⟩
  intro d' ack hd hrec' hack'
  cases hd
  cases hnack.symm.trans hrec'
  exact absurd hack' hack

/-- An ACK that asks for packet 200 comes when only packet 0 has been sent.  It is not discarded:
packet 0 is removed, and the window starts at 200; a late ACK for packet 0 then moves the start of
the window back. -/
theorem not_discards_foreign :
    ∃ st d ack, (lts Crc32.crc32).Reachable (init []) st ∧
      (st.w.front.map PktPtr.seqnum).Nodup ∧ InFlight st ∧
      received Crc32.crc32 d = some ack ∧ ack.getType = ptypeAck ∧ Outside st ack ∧
      ¬ Discards Crc32.crc32 st.w d ∧ ¬ NeverBack Crc32.crc32 st [(some d, [2, 3])] := by
  let d : List Byte := [0x9F, 200, 0, 0, 0, 0, 0, 0, 0x6C, 0x70, 0xA8, 0xD8]
  have hrun : ((iterate Crc32.crc32 (init []) (none, [0, 1])).bind fun st =>
      (received Crc32.crc32 d).bind fun ack =>
      (iterate Crc32.crc32 st (some d, [2, 3])).map fun st' =>
        decide ((st.w.front.map PktPtr.seqnum).Nodup ∧ InFlight st ∧ ack.getType = ptypeAck ∧
          Outside st ack ∧
          dist 256 st.w.start st.next < dist 256 st.w.start st'.w.start)) = some true := by
    decide +kernel
  obtain ⟨st, hst, hrun⟩ := Option.bind_eq_some_iff.1 hrun
  obtain ⟨ack, hrec, hrun⟩ := Option.bind_eq_some_iff.1 hrun
  obtain ⟨st', hst', hrun⟩ := Option.map_eq_some_iff.1 hrun
  obtain ⟨hnodup, hflight, hack, hout, hback⟩ := of_decide_eq_true hrun
  have h : (lts Crc32.crc32).Reachable (init []) st :=
    .tail (.refl _) (l := (none, [0, 1])) (mainLoop_of_iterate hst)
  refine ⟨st, d, ack, h, hnodup, hflight, hrec, hack, hout,
    not_discards_of_ack (inv_of_reachable h).standard hrec hack hout, fun hnever => ?_⟩
  have hle := (hnever st' hst').1 st' hst'
  omega

end Sender

end LosslessTransport
