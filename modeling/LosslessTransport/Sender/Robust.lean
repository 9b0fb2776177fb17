import LosslessTransport.Lib.Crc32
import LosslessTransport.Lib.Lts
import LosslessTransport.Sender.Invariant

/-!
# The sender on its own

`Sender.lts` is the sender with an arbitrary peer and an arbitrary clock: each iteration may receive
any datagram, or none, and may read anything from the clock.

`Sender.mainLoop_waits` says that an iteration does not fail, whatever it is given: there are no
other exits than those where the program is still waiting, for a datagram or for the next reading.
Each part of the iteration has its own lemma, and `Waits.bind` puts them together.
-/

namespace LosslessTransport

/-- If the computation does not return, then because it is still waiting. -/
def Waits {α : Type} (x : Except Exit α) : Prop := ∀ e, x = .error e → e = .blocked

theorem waits_ok {α : Type} (a : α) : Waits (.ok a) := by
  intro e h
  cases h

theorem waits_blocked {α : Type} : Waits (.error .blocked : Except Exit α) := by
  intro e h
  cases h
  rfl

theorem Waits.bind {α β : Type} {x : Except Exit α} {f : α → Except Exit β} (hx : Waits x)
    (hf : ∀ a, x = .ok a → Waits (f a)) : Waits (x >>= f) := by
  cases x with
  | error e =>
    intro e' h
    cases h
    exact hx e rfl
  | ok a => exact hf a rfl

theorem Waits.map {α β : Type} {x : Except Exit α} (f : α → β) (hx : Waits x) :
    Waits (x.map f) := by
  cases x with
  | error e =>
    intro e' h
    cases h
    exact hx e rfl
  | ok a => exact waits_ok _

theorem waits_getMonotime (readings : List ℕ) : Waits (getMonotime readings) := by
  cases readings with
  | nil => exact waits_blocked
  | cons now readings => exact waits_ok _

namespace Sender

variable (crc32 : List Byte → BitVec 32)

/-- The sender alone: its iterations on any datagrams and any readings of the clock. -/
def lts : LTS Sender.State (Option (List Byte) × List ℕ) where
  step st l st' := ∃ sent rest, Sender.mainLoop crc32 l.1 l.2 st = .ok (st', sent, rest)

/-- The windows an iteration goes through. -/
inductive Passes (st : State) : Window → Prop
  | entry : Passes st st.w
  | replied {ready : Option (List Byte)} {readings rest : List ℕ} {w : Window} :
      receive crc32 st.w ready readings = .ok (some (w, rest)) → Passes st w
  | resent {ready : Option (List Byte)} {readings rest rest' : List ℕ} {w w' : Window}
      {sent : List Sent} : receive crc32 st.w ready readings = .ok (some (w, rest)) →
      retransmitPackets crc32 w rest = .ok (w', sent, rest') → Passes st w'

variable {crc32} {input : List Chunk} {n : ℕ} {w : Window} {st : State}
  {ready : Option (List Byte)}

theorem inv_of_reachable (h : (lts crc32).Reachable (init input) st) : Inv input st := by
  refine h.invariant (Inv.init input) fun st l st' hinv hstep => ?_
  obtain ⟨sent, rest, hloop⟩ := hstep
  exact (mainLoop_spec hinv hloop).1

/-! ### Every part of an iteration -/

/-- While the loop goes on, the window is not empty when `get_timeout` looks for the closest
timer. -/
theorem front_ne_nil (hw : st.w.Standard) (hrun : st.running)
    (htimer : ((st.w.full && !st.w.empty) || st.sentEof) = true) : st.w.front ≠ [] := by
  intro hnil
  have hempty := (Window.empty_iff hw.toWf).2 hnil
  simp [State.running, hempty] at hrun
  simp [hempty, hrun] at htimer

theorem exists_peekMinTimestamp (hw : st.w.Standard) (hrun : st.running)
    (htimer : ((st.w.full && !st.w.empty) || st.sentEof) = true) :
    ∃ p, st.w.peekMinTimestamp = some p :=
  Option.ne_none_iff_exists'.1 fun hnone =>
    front_ne_nil hw hrun htimer (Window.peekMinTimestamp_eq_none_iff.1 hnone)

theorem waits_getTimeout (hw : st.w.Standard) (hrun : st.running) (readings : List ℕ) :
    Waits (getTimeout st readings) := by
  unfold getTimeout
  split_ifs with htimer
  · obtain ⟨p, hp⟩ := exists_peekMinTimestamp hw hrun htimer
    rw [hp]
    exact (waits_getMonotime readings).bind fun _ _ => waits_ok _
  · exact waits_ok _

theorem waits_await (hw : st.w.Standard) (hrun : st.running) (readings : List ℕ) :
    Waits (await ready readings st) := by
  unfold await
  split_ifs
  · exact waits_blocked
  · exact waits_ok _
  · exact (waits_getTimeout hw hrun readings).bind fun _ _ => waits_ok _

theorem waits_handleNack (nack : Pkt) (readings : List ℕ) :
    Waits (handleNack w nack readings) := by
  unfold handleNack
  split_ifs
  · cases w.findSeqnum nack.getSeqnum.toNat with
    | none => exact waits_ok _
    | some p => exact (waits_getMonotime readings).bind fun _ _ => waits_ok _
  · exact waits_ok _

theorem waits_receive (hw : w.Standard) (readings : List ℕ) :
    Waits (receive crc32 w ready readings) := by
  cases ready with
  | none => exact waits_ok _
  | some d =>
    rw [receive]
    cases hrec : received crc32 d with
    | none =>
      rw [handleResponse_of_not_received hrec]
      exact waits_ok _
    | some resp =>
      by_cases hdata : resp.getType = ptypeData
      · rw [handleResponse_of_data hrec hdata]
        exact waits_ok _
      by_cases hack : resp.getType = ptypeAck
      · rw [handleResponse_of_ack hw hrec hack]
        exact waits_ok _
      · rw [handleResponse_of_nack hw hrec hdata hack]
        exact (waits_handleNack resp readings).map _

/-- The packet that was peeked is found again by its timestamp, and it can be encoded. -/
theorem waits_retransmitExpired (h : Sendable w) (loopNow : BitVec 32) (readings : List ℕ) :
    Waits (retransmitExpired crc32 loopNow readings w) := by
  induction readings generalizing w with
  | nil =>
    rcases Window.late_or_peekMinTimestamp_le w loopNow with hlate | ⟨p, hpeek, hle⟩
    · rw [retransmitExpired_of_late crc32 hlate]
      exact waits_ok _
    · rw [retransmitExpired_nil crc32 hpeek hle]
      exact waits_blocked
  | cons now readings ih =>
    rcases Window.late_or_peekMinTimestamp_le w loopNow with hlate | ⟨p, hpeek, hle⟩
    · rw [retransmitExpired_of_late crc32 hlate]
      exact waits_ok _
    · rw [retransmitExpired_cons h hpeek hle]
      exact (ih (h.store (Window.mem_of_peekMinTimestamp hpeek) _)).map _

/-- The window has room for the new packet. -/
theorem waits_sendNew (hfull : st.w.full = false) (readings : List ℕ) :
    Waits (sendNew crc32 st readings) := by
  cases readings with
  | nil => exact waits_blocked
  | cons now readings =>
    obtain ⟨p, -, -, hnew⟩ := sendNew_eq crc32 hfull now readings
    rw [hnew]
    exact waits_ok _

/-- **An iteration does not fail**, whatever is received and whatever the clock says. -/
theorem mainLoop_waits (hinv : Inv input st) (hrun : st.running) (readings : List ℕ) :
    Waits (mainLoop crc32 ready readings st) := by
  refine (waits_await hinv.standard hrun readings).bind fun readings₀ _ => ?_
  refine (waits_receive hinv.standard readings₀).bind fun r hreceive => ?_
  obtain rfl | ⟨w₁, readings₁, rfl, hresp⟩ := response_of_receive hinv.standard hreceive
  · exact waits_ok _
  have hbuf := hresp.buffered hinv.toBuffered
  have hretr : Waits (retransmitPackets crc32 w₁ readings₁) :=
    (waits_getMonotime readings₁).bind fun loopNow _ =>
      waits_retransmitExpired hbuf.sendable loopNow.1 loopNow.2
  refine hretr.bind ?_
  rintro ⟨w₂, sent, readings₂⟩ -
  dsimp only
  split_ifs with hnew
  · have hfull : w₂.full = false := by simpa using hnew.1
    exact (waits_sendNew hfull readings₂).bind fun _ _ => waits_ok _
  · exact waits_ok _

/-! ### The sender -/

/-- The windows of an iteration are those of `window_create (1, MAX_WINDOW_SIZE, 255)`. -/
theorem standard_of_passes (hinv : Inv input st) (h : Passes crc32 st w) : w.Standard := by
  have hreplied : ∀ {ready readings w rest},
      receive crc32 st.w ready readings = .ok (some (w, rest)) → Buffered input st.allocs w :=
    fun hreceive => (response_of_receive_some hinv.standard hreceive).buffered hinv.toBuffered
  cases h with
  | entry => exact hinv.standard
  | replied hreceive => exact (hreplied hreceive).standard
  | resent hreceive hretr =>
    obtain ⟨⟨loopNow, readings⟩, -, hretr⟩ := bind_eq_ok.1 hretr
    exact (retransmitExpired_spec (hreplied hreceive) hretr).1.standard

/-- **The sender does not fail on what it receives**: in every state of every run the numbers stay
in their bounds, an ACK is handled without a failed assertion, and an iteration either comes back or
is still waiting. -/
theorem never_fails (h : (lts crc32).Reachable (init input) st) :
    (∀ w, Passes crc32 st w → w.bufsize ≤ 31 ∧ w.size ≤ 31 ∧
        ∀ ack, ∃ w', handleAck w ack = .ok w') ∧
      st.next < 256 ∧
      (st.running → ∀ ready readings, Waits (mainLoop crc32 ready readings st)) := by
  have hinv := inv_of_reachable h
  refine ⟨fun w hw => ?_, ?_, fun hrun ready readings => mainLoop_waits hinv hrun readings⟩
  · have hstd := standard_of_passes hinv hw
    have hcap := hstd.capacity_eq
    refine ⟨hcap ▸ hstd.bufsize_le, hcap ▸ hstd.size_le, fun ack => ⟨_, handleAck_eq hstd ack⟩⟩
  · rw [hinv.next_eq]
    exact Nat.mod_lt _ (by decide)

variable (crc32) in
/-- The state after an iteration, if it comes back. -/
def after (ready : Option (List Byte)) (readings : List ℕ) (st : State) : State :=
  ((mainLoop crc32 ready readings st).toOption.map Prod.fst).getD st

theorem mainLoop_after {readings rest : List ℕ}
    (h : (mainLoop crc32 ready readings st).toOption.map (fun r => r.2.2) = some rest) :
    ∃ sent, mainLoop crc32 ready readings st = .ok (after crc32 ready readings st, sent, rest) := by
  obtain ⟨r, hr, rfl⟩ := Option.map_eq_some_iff.1 h
  refine ⟨r.2.1, (ok_of_toOption hr).trans ?_⟩
  rw [after, hr]
  rfl

/-- The sender once it has sent the empty packet that ends an empty file. -/
def sentEmpty : State := after Crc32.crc32 none [0, 1] (init [])

/-- The ACK to the empty packet. -/
def ackEmpty : List Byte := [0x9F, 0, 0, 0, 0, 0x44, 0xAA, 0x21, 0xFC, 0x90, 0x18, 0x15]

/-- A NACK for the empty packet, which advertises a window of 1. -/
def nackEmpty : List Byte := [0xC1, 0, 0, 0, 0, 0, 0, 0, 0xD3, 0x2E, 0x98, 0xC0]

theorem rest_sentEmpty :
    (mainLoop Crc32.crc32 none [0, 1] (init [])).toOption.map (fun r => r.2.2) = some [] := by
  decide +kernel

theorem reachable_sentEmpty : (lts Crc32.crc32).Reachable (init []) sentEmpty := by
  obtain ⟨sent, hloop⟩ := mainLoop_after rest_sentEmpty
  exact (LTS.Reachable.refl _).tail (l := (none, [0, 1])) ⟨sent, [], hloop⟩

/-- Neither the ACK nor the NACK makes it fail. -/
theorem never_fails_sentEmpty :
    sentEmpty.running = true ∧ sentEmpty.w.bufsize = 1 ∧
      (received Crc32.crc32 ackEmpty).isSome ∧ (received Crc32.crc32 nackEmpty).isSome ∧
      Waits (mainLoop Crc32.crc32 (some ackEmpty) [2, 3] sentEmpty) ∧
      Waits (mainLoop Crc32.crc32 (some nackEmpty) [2, 3, 4, 5] sentEmpty) := by
  have hrun : sentEmpty.running = true := by decide +kernel
  obtain ⟨-, -, hwaits⟩ := never_fails reachable_sentEmpty
  exact ⟨hrun, by decide +kernel, by decide +kernel, by decide +kernel, hwaits hrun _ _,
    hwaits hrun _ _⟩

end Sender

end LosslessTransport
