import LosslessTransport.Lib.Crc32
import LosslessTransport.Receiver.Step
import LosslessTransport.Sender.Robust

/-!
# Packets of the wrong direction

The sender looks at the type of a packet first and ignores DATA.  The receiver does not look at the
type at all: an ACK or a NACK whose sequence number is in its window is stored, written and answered
like DATA, and it is ignored exactly when its number is not in the window (`ignores_iff`).
-/

namespace LosslessTransport

variable (crc32 : List Byte → BitVec 32)

/-- The iteration on `d` leaves the window, its buffer and the output as they are, and sends no
reply. -/
def Receiver.Ignores (st : State) (d : List Byte) : Prop :=
  ∃ st', mainLoop crc32 d st = .ok (st', none) ∧ st'.w = st.w ∧ st'.outfile = st.outfile

/-- The iteration that receives `d` leaves the state as it is and sends nothing. -/
def Sender.Ignores (st : State) (d : List Byte) : Prop :=
  ∀ readings rest, await (some d) readings st = .ok rest →
    mainLoop crc32 (some d) readings st = .ok (st, [], rest)

variable {crc32} {d : List Byte} {p : Pkt}

/-- The receiver ignores a packet that it accepts exactly when it is not in its window, whatever its
type. -/
theorem Receiver.Inv.ignores_iff_not_has {st : State} (hst : Inv st)
    (hrec : received crc32 d = some p) :
    Ignores crc32 st d ↔ ¬ st.w.has p.getSeqnum.toNat := by
  constructor
  · rintro ⟨st', hloop, -⟩
    obtain ⟨-, -, hnot⟩ | ⟨q, -, -, -, -, hreply⟩ | ⟨q, -, -, -, -, -, -, hreply⟩ :=
      mainLoop_cases hst hloop
    · exact hnot p hrec
    · cases hreply
    · cases hreply
  · intro hhas
    exact ⟨_, mainLoop_of_not_has hrec hhas, rfl, rfl⟩

theorem Sender.ignores_of_data {st : State} (hrec : received crc32 d = some p)
    (htype : p.getType = ptypeData) : Ignores crc32 st d := by
  intro readings rest hwait
  have hresp : receive crc32 st.w (some d) rest = .ok none := handleResponse_of_data hrec htype
  simp only [mainLoop, hwait, hresp, bind, Except.bind]
  rfl

namespace System

/-- **When a packet of the wrong direction is ignored.**  The receiver, in every state that it can
come to, ignores an ACK or a NACK exactly when its sequence number is not in the window; the sender
ignores DATA always. -/
theorem ignores_iff :
    (∀ ds st replies, Receiver.run crc32 ds Receiver.init = .ok (st, replies) →
      ∀ d p, received crc32 d = some p → p.getType ≠ ptypeData →
        (Receiver.Ignores crc32 st d ↔ ¬ st.w.has p.getSeqnum.toNat)) ∧
    ∀ input st, (Sender.lts crc32).Reachable (Sender.init input) st →
      ∀ d p, received crc32 d = some p → p.getType = ptypeData → Sender.Ignores crc32 st d :=
  ⟨fun _ _ _ hrun _ _ hrec _ => (Receiver.Inv.init.run hrun).ignores_iff_not_has hrec,
    fun _ _ _ _ _ hrec htype => Sender.ignores_of_data hrec htype⟩

/-- At the start the receiver ignores an ACK with sequence number 40, and the sender ignores a DATA
packet. -/
theorem ignores_at_start :
    Receiver.Ignores Crc32.crc32 Receiver.init
        [0x9F, 40, 0, 0, 0, 0, 0, 0, 0x6F, 0xD0, 0x0E, 0xCF] ∧
      Sender.Ignores Crc32.crc32 (Sender.init [])
        [0x40, 0, 0, 1, 0, 0, 0, 7, 0xEF, 0xBB, 0xA1, 0x97, 0x61, 0xE8, 0xB7, 0xBE, 0x43] := by
  have hack : (received Crc32.crc32 [0x9F, 40, 0, 0, 0, 0, 0, 0, 0x6F, 0xD0, 0x0E, 0xCF]).map
      (fun p => decide (p.getType ≠ ptypeData ∧
        ¬ Receiver.init.w.has p.getSeqnum.toNat)) = some true := by
    decide +kernel
  have hdata : (received Crc32.crc32 [0x40, 0, 0, 1, 0, 0, 0, 7, 0xEF, 0xBB, 0xA1, 0x97, 0x61,
      0xE8, 0xB7, 0xBE, 0x43]).map Pkt.getType = some ptypeData := by
    decide +kernel
  obtain ⟨p, hp, hack⟩ := Option.map_eq_some_iff.1 hack
  obtain ⟨htype, hhas⟩ := of_decide_eq_true hack
  obtain ⟨q, hq, hqtype⟩ := Option.map_eq_some_iff.1 hdata
  obtain ⟨hreceiver, hsender⟩ := @ignores_iff Crc32.crc32
  exact ⟨(hreceiver [] _ [] rfl _ p hp htype).2 hhas, hsender [] _ (.refl _) _ q hq hqtype⟩

/-- At the start an ACK with a payload of one byte is taken for DATA: the byte is written, the
window is slid and an ACK is sent. -/
theorem not_ignores_ack :
    ∃ d p st' reply, received Crc32.crc32 d = some p ∧ p.getType = ptypeAck ∧
      Receiver.run Crc32.crc32 [] Receiver.init = .ok (Receiver.init, []) ∧
      Receiver.mainLoop Crc32.crc32 d Receiver.init = .ok (st', some reply) ∧
      st'.outfile = [[0x61]] ∧ st'.w.start = 1 ∧
      ¬ Receiver.Ignores Crc32.crc32 Receiver.init d := by
  let d : List Byte := [0x9F, 0, 0, 1, 0, 0, 0, 0, 0xAE, 0xE2, 0x50, 0x84, 0x61, 0xE8, 0xB7, 0xBE,
    0x43]
  have hrun : ((received Crc32.crc32 d).bind fun p =>
      (Receiver.mainLoop Crc32.crc32 d Receiver.init).toOption.bind fun r => r.2.map fun _ =>
        decide (p.getType = ptypeAck ∧ Receiver.init.w.has p.getSeqnum.toNat ∧
          r.1.outfile = [[0x61]] ∧ r.1.w.start = 1)) = some true := by
    decide +kernel
  obtain ⟨p, hrec, hrun⟩ := Option.bind_eq_some_iff.1 hrun
  obtain ⟨⟨st', r⟩, hloop, hrun⟩ := Option.bind_eq_some_iff.1 hrun
  obtain ⟨reply, rfl, hrun⟩ := Option.map_eq_some_iff.1 hrun
  obtain ⟨htype, hhas, hout, hstart⟩ := of_decide_eq_true hrun
  exact ⟨d, p, st', reply, hrec, htype, rfl, ok_of_toOption hloop, hout, hstart,
    fun hign => (Receiver.Inv.init.ignores_iff_not_has hrec).1 hign hhas⟩

end System

end LosslessTransport
