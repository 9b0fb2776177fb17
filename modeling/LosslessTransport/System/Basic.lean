import LosslessTransport.Lib.Lts
import LosslessTransport.Receiver.Basic
import LosslessTransport.Sender.Stamps

/-!
# The sender, the receiver and the two channels between them

A channel is a list of datagrams, oldest first.  It delivers in order; it may lose any datagram,
and hold one back as long as it likes; on the way to the receiver a datagram may be truncated, which
drops the payload and sets TR.  Nothing is reordered, duplicated or corrupted.

The events are the iterations of the two main loops and what the channels do.  The sender iterates
while its loop condition holds, with or without hearing the oldest reply, and it reads the clock
(`get_monotime`).  `Ticks` is the condition on an event that the values it reads, which have 32
bits, increase strictly from those read before.

Three fields are history, which no step reads: the packet a datagram was made from, the state of the
receiver when it sent a reply, and the clock.
-/

namespace LosslessTransport

/-- A reply, with the state of the receiver that sent it. -/
structure Reply where
  bytes : List Byte
  snap : Receiver.State
  deriving DecidableEq

/-- The state of the system. -/
structure System where
  sender : Sender.State
  receiver : Receiver.State
  /-- From the sender to the receiver. -/
  data : List Sender.Sent
  /-- From the receiver to the sender. -/
  acks : List Reply
  /-- Past every reading taken so far, while they increase. -/
  clock : ℕ
  deriving DecidableEq

namespace System

/-- What can happen. -/
inductive Event where
  /-- An iteration of the sender that takes these readings, hearing the oldest reply or none. -/
  | send (hear : Bool) (readings : List ℕ)
  /-- An iteration of the receiver on the oldest datagram. -/
  | receive
  /-- The datagram at this place is lost. -/
  | loseData (i : ℕ)
  /-- The reply at this place is lost. -/
  | loseAck (i : ℕ)
  /-- The datagram at this place is truncated. -/
  | truncate (i : ℕ)
  deriving DecidableEq, Repr

/-- What is left of a truncated datagram: its header, with TR set. -/
def truncated (datagram : List Byte) : List Byte :=
  (datagram.take headerSize).modifyHead (· ||| 0x20)

/-- The state at the start. -/
def init (infile : List Sender.Chunk) : System where
  sender := Sender.init infile
  receiver := Receiver.init
  data := []
  acks := []
  clock := 0

/-- A full piece. -/
def block (b : Byte) : Sender.Chunk where
  bytes := List.replicate maxPayloadSize b
  length_pos := (List.length_replicate (n := maxPayloadSize)).symm ▸ Nat.succ_pos 511
  length_le := (List.length_replicate (n := maxPayloadSize)).le

/-- A piece of one byte. -/
def byte (b : Byte) : Sender.Chunk := ⟨[b], Nat.one_pos, Nat.le_of_ble_eq_true rfl⟩

variable (crc32 : List Byte → BitVec 32)

/-- The datagram that an iteration of the sender finds ready, and the replies left; `none` when it
is to hear a reply and there is none. -/
def hearFrom (acks : List Reply) (hear : Bool) : Option (Option (List Byte) × List Reply) :=
  if hear then
    match acks with
    | [] => none
    | r :: acks => some (some r.bytes, acks)
  else some (none, acks)

/-- One step. -/
def step (s : System) : Event → Option System
  | .send hear readings =>
    if s.sender.running then do
      let (ready, acks) ← hearFrom s.acks hear
      match Sender.mainLoop crc32 ready readings s.sender with
      | .ok (sender, sent, []) =>
        some { s with
          sender := sender
          data := s.data ++ sent
          acks := acks
          clock := (Sender.advance s.clock readings).getD s.clock }
      | _ => none
    else none
  | .receive =>
    match s.data with
    | [] => none
    | d :: data =>
      match Receiver.mainLoop crc32 d.bytes s.receiver with
      | .ok (receiver, reply) =>
        some { s with
          receiver := receiver
          data := data
          acks := s.acks ++ (reply.map fun bytes => ⟨bytes, receiver⟩).toList }
      | .error _ => none
  | .loseData i =>
    if i < s.data.length then some { s with data := s.data.eraseIdx i } else none
  | .loseAck i =>
    if i < s.acks.length then some { s with acks := s.acks.eraseIdx i } else none
  | .truncate i =>
    (s.data[i]?).map fun d => { s with data := s.data.set i { d with bytes := truncated d.bytes } }

/-- The system as a transition system. -/
def lts : LTS System Event := LTS.ofStep (step crc32)

/-- The readings of the clock increase strictly and fit 32 bits. -/
def Ticks (s : System) : Event → Prop
  | .send _ readings => (Sender.advance s.clock readings).isSome
  | _ => True

instance (s : System) (e : Event) : Decidable (Ticks s e) :=
  match e with
  | .send _ _ => inferInstanceAs (Decidable (_ = true))
  | .receive | .loseData _ | .loseAck _ | .truncate _ => .isTrue trivial

variable {crc32} {s s' : System}

/-- The sender hears nothing, or the oldest reply. -/
theorem hearFrom_cases {acks rest : List Reply} {hear : Bool} {ready : Option (List Byte)}
    (h : hearFrom acks hear = some (ready, rest)) :
    (hear = false ∧ ready = none ∧ rest = acks) ∨
      ∃ r, hear = true ∧ ready = some r.bytes ∧ acks = r :: rest := by
  cases hear with
  | false =>
    cases h
    exact .inl ⟨rfl, rfl, rfl⟩
  | true =>
    cases acks with
    | nil => cases h
    | cons r acks =>
      cases h
      exact .inr ⟨r, rfl, rfl, rfl⟩

/-- An iteration of the sender. -/
theorem step_send {hear : Bool} {readings : List ℕ}
    (h : step crc32 s (.send hear readings) = some s') :
    ∃ ready acks sender sent, hearFrom s.acks hear = some (ready, acks) ∧
      Sender.mainLoop crc32 ready readings s.sender = .ok (sender, sent, []) ∧
      s' = { s with
        sender := sender
        data := s.data ++ sent
        acks := acks
        clock := (Sender.advance s.clock readings).getD s.clock } := by
  rw [step] at h
  split_ifs at h
  obtain ⟨⟨ready, acks⟩, hhear, h⟩ := Option.bind_eq_some_iff.1 h
  dsimp only at h
  split at h
  · rename_i sender sent hloop
    cases h
    exact ⟨ready, acks, sender, sent, hhear, hloop, rfl⟩
  · cases h

/-- An iteration of the sender while the clock ticks. -/
theorem step_send_of_ticks {hear : Bool} {readings : List ℕ}
    (hticks : Ticks s (.send hear readings))
    (h : step crc32 s (.send hear readings) = some s') :
    ∃ clock ready acks sender sent,
      Sender.advance s.clock readings = some clock ∧ hearFrom s.acks hear = some (ready, acks) ∧
      Sender.mainLoop crc32 ready readings s.sender = .ok (sender, sent, []) ∧
      s' = { s with sender := sender, data := s.data ++ sent, acks := acks, clock := clock } := by
  obtain ⟨ready, acks, sender, sent, hhear, hloop, rfl⟩ := step_send h
  obtain ⟨clock, hclock⟩ := Option.isSome_iff_exists.1 hticks
  refine ⟨clock, ready, acks, sender, sent, hclock, hhear, hloop, ?_⟩
  rw [hclock, Option.getD_some]

theorem step_send_of_mainLoop {hear : Bool} {readings : List ℕ} {ready : Option (List Byte)}
    {acks : List Reply} {sender : Sender.State} {sent : List Sender.Sent}
    (hrun : s.sender.running = true) (hhear : hearFrom s.acks hear = some (ready, acks))
    (hloop : Sender.mainLoop crc32 ready readings s.sender = .ok (sender, sent, [])) :
    step crc32 s (.send hear readings) = some { s with
      sender := sender
      data := s.data ++ sent
      acks := acks
      clock := (Sender.advance s.clock readings).getD s.clock } := by
  rw [step, if_pos hrun, hhear]
  simp only [Option.bind_eq_bind, Option.bind_some, hloop]

theorem step_send_eq {hear : Bool} {readings : List ℕ} {clock : ℕ} {ready : Option (List Byte)}
    {acks : List Reply} {sender : Sender.State} {sent : List Sender.Sent}
    (hrun : s.sender.running = true) (hadv : Sender.advance s.clock readings = some clock)
    (hhear : hearFrom s.acks hear = some (ready, acks))
    (hloop : Sender.mainLoop crc32 ready readings s.sender = .ok (sender, sent, [])) :
    step crc32 s (.send hear readings) =
      some { s with sender := sender, data := s.data ++ sent, acks := acks, clock := clock } := by
  rw [step_send_of_mainLoop hrun hhear hloop, hadv, Option.getD_some]

theorem ticks_of_advance {hear : Bool} {readings : List ℕ} {clock : ℕ}
    (h : Sender.advance s.clock readings = some clock) : Ticks s (.send hear readings) :=
  Option.isSome_iff_exists.2 ⟨clock, h⟩

variable (crc32) in
theorem step_receive_eq {d : Sender.Sent} {data : List Sender.Sent} {receiver : Receiver.State}
    {reply : Option (List Byte)} (hdata : s.data = d :: data)
    (hloop : Receiver.mainLoop crc32 d.bytes s.receiver = .ok (receiver, reply)) :
    step crc32 s .receive = some { s with
      receiver := receiver
      data := data
      acks := s.acks ++ (reply.map fun bytes => ⟨bytes, receiver⟩).toList } := by
  rw [step, hdata]
  simp only [hloop]

/-- An iteration of the receiver. -/
theorem step_receive (h : step crc32 s .receive = some s') :
    ∃ d data receiver reply, s.data = d :: data ∧
      Receiver.mainLoop crc32 d.bytes s.receiver = .ok (receiver, reply) ∧
      s' = { s with
        receiver := receiver
        data := data
        acks := s.acks ++ (reply.map fun bytes => ⟨bytes, receiver⟩).toList } := by
  rw [step] at h
  split at h
  · cases h
  · rename_i d data hdata
    split at h
    · rename_i receiver reply hloop
      cases h
      exact ⟨d, data, receiver, reply, hdata, hloop, rfl⟩
    · cases h

theorem step_loseData {i : ℕ} (h : step crc32 s (.loseData i) = some s') :
    s' = { s with data := s.data.eraseIdx i } := by
  rw [step] at h
  split_ifs at h
  exact (Option.some.inj h).symm

theorem step_loseData_eq {i : ℕ} (h : i < s.data.length) :
    step crc32 s (.loseData i) = some { s with data := s.data.eraseIdx i } :=
  if_pos h

theorem step_loseAck {i : ℕ} (h : step crc32 s (.loseAck i) = some s') :
    s' = { s with acks := s.acks.eraseIdx i } := by
  rw [step] at h
  split_ifs at h
  exact (Option.some.inj h).symm

theorem step_truncate {i : ℕ} (h : step crc32 s (.truncate i) = some s') :
    ∃ d, s.data[i]? = some d ∧
      s' = { s with data := s.data.set i { d with bytes := truncated d.bytes } } := by
  obtain ⟨d, hd, rfl⟩ := Option.map_eq_some_iff.1 h
  exact ⟨d, hd, rfl⟩

end System

end LosslessTransport
