import LosslessTransport.Receiver.Advertise
import LosslessTransport.Sender.Flight
import LosslessTransport.System.View

/-!
# Runs in which the sender understands the replies

`AckSafe` is the condition on a step that the sender, if it handles an ACK, compares its sequence
number with those of the buffer in the right order, and finds the packet that it names.  In a run of
such steps the sender's numbers stay with the receiver's: `Good` is what holds in every state, for
the views `va` and `vr` in which the receiver sent the last ACK and the last reply that the sender
has handled.

`NackFits lim` is the condition that a NACK leaves the sender no room to run ahead of `window_start`
by more than `lim`; with a limit of 61 it holds by itself (`Good.nackFits`).
-/

namespace LosslessTransport

open Circular SelectiveRepeat

namespace System

open Sender (Chunk Sent addrs Sending OrderAgrees TimestampFound Response)
open Receiver (Reassembler ackPkt nackPkt)

variable (crc32 : List Byte → BitVec 32)

/-- The reply that the sender receives in this event. -/
def heard (s : System) : Event → Option Pkt
  | .send true _ => s.acks.head?.bind fun r => received crc32 r.bytes
  | _ => none

/-- If the sender handles an ACK, it compares in the right order and finds the packet. -/
def AckSafe (s : System) (e : Event) : Prop :=
  ∀ ack ∈ heard crc32 s e, ack.getType = ptypeAck →
    OrderAgrees s.sender.w ack ∧ TimestampFound s.sender.w ack

/-- If the sender handles a NACK, the window it advertises leaves no room to number packets from
`window_start + lim` on. -/
def NackFits (lim : ℕ) (s : System) (e : Event) : Prop :=
  ∀ nack ∈ heard crc32 s e, nack.getType = ptypeNack → s.sender.sentEof = false →
    dist 256 s.sender.w.start s.sender.next + nack.getWindow.toNat ≤ lim + s.sender.w.bufferSize

instance (s : System) (e : Event) : Decidable (AckSafe crc32 s e) :=
  inferInstanceAs (Decidable (∀ ack ∈ heard crc32 s e, _))

instance (lim : ℕ) (s : System) (e : Event) : Decidable (NackFits crc32 lim s e) :=
  inferInstanceAs (Decidable (∀ nack ∈ heard crc32 s e, _))

variable (input : List Chunk) (owner : BitVec 32 → ℕ)

/-- What holds in every state of a safe run. -/
structure Good (lim : ℕ) (va vr : View) (s : System) : Prop where
  inv : Inv crc32 input owner s
  reads : ∃ m, Reads input owner s.receiver m
  answers : ∀ r ∈ s.acks, Answers crc32 input owner s.clock r
  /-- The replies on their way were sent in later and later views. -/
  chain : (va :: vr :: s.acks.map (fun r => r.snap.view input.length) ++
    [s.receiver.view input.length]).Pairwise (· ≤ ·)
  got_lt : ∀ i, (s.receiver.view input.length).Got i → i < s.sender.allocs
  near : s.sender.allocs ≤ s.receiver.next + 31
  sending : Sending lim s.sender.allocs s.sender.w s.sender.sentEof va vr
  recent : Recent 64 (s.data.map fun d => d.pkt.addr) (s.receiver.view input.length)

variable {crc32 input owner} {s s' : System} {lim c : ℕ} {va vr : View}

/-! ### The replies -/

/-- What the sender makes of a reply. -/
theorem Answers.received {r : Reply} (h : Answers crc32 input owner c r) {a : Pkt}
    (ha : received crc32 r.bytes = some a) :
    a.getWindow.toNat = r.snap.w.available ∧
      ((a.getType = ptypeAck ∧ a.getSeqnum.toNat = r.snap.next % 256 ∧
        (r.snap.view input.length).Got (owner a.getTimestamp)) ∨ a.getType = ptypeNack) := by
  have hav := h.inv.available
  obtain ⟨t, ht, hgot, hb⟩ | ⟨seqnum, hb⟩ := h.bytes
  · obtain ⟨b, hrec, hagree⟩ :=
      Receiver.received_ackPkt crc32 r.snap.w.available r.snap.w.pos t
    rw [hb] at ha
    obtain rfl := Option.some.inj (ha.symm.trans hrec)
    have hts : a.getTimestamp = t := hagree.timestamp.trans (ntohl_htonl t)
    refine ⟨?_, .inl ⟨hagree.type, ?_, hts.symm ▸ hgot⟩⟩
    · rw [hagree.window]
      exact Receiver.toNat_window hav.2
    · rw [hagree.seqnum, ← h.pos]
      exact Nat.mod_eq_of_lt h.inv.standard.pos_lt
  · obtain ⟨b, hrec, hagree⟩ :=
      Receiver.received_nackPkt crc32 r.snap.w.available seqnum
    rw [hb] at ha
    obtain rfl := Option.some.inj (ha.symm.trans hrec)
    refine ⟨?_, .inr hagree.type⟩
    rw [hagree.window]
    exact Receiver.toNat_window hav.2

/-- The receiver has got what it had when it sent a reply that is on its way. -/
theorem Good.view_le (h : Good crc32 input owner lim va vr s) {r : Reply} (hr : r ∈ s.acks) :
    r.snap.view input.length ≤ s.receiver.view input.length := by
  have hlast := (List.pairwise_append.1 h.chain).2.2
  refine hlast _ ?_ _ (List.mem_singleton_self _)
  exact List.mem_cons_of_mem va (List.mem_cons_of_mem vr (List.mem_map_of_mem hr))

/-- Until the end of the file has been sent, the window advertised and the early packets fit. -/
theorem Good.window_le (h : Good crc32 input owner lim va vr s) {r : Reply} (hr : r ∈ s.acks)
    {a : Pkt} (ha : received crc32 r.bytes = some a) (heof : s.sender.sentEof = false) :
    a.getWindow.toNat + (r.snap.view input.length).early.card ≤ 31 := by
  have hanswers := h.answers r hr
  have hnil : [] ∉ r.snap.outfile := by
    intro hmem
    have hgot : (r.snap.view input.length).Got input.length :=
      Receiver.got_iff.2 (.inr (.inr ⟨hmem, rfl⟩))
    have := h.inv.sender.sentEof_iff.2 (h.got_lt _ (hgot.mono (h.view_le hr)))
    rw [heof] at this
    cases this
  have hcard := Receiver.card_early_le input.length hnil
  have hlen := hanswers.inv.length_le
  rw [(hanswers.received ha).1, Window.available_eq hanswers.inv.standard.toWf,
    hanswers.inv.size_eq]
  omega

theorem Good.next_le (h : Good crc32 input owner lim va vr s) {v : View}
    (hle : v ≤ s.receiver.view input.length) : v.next ≤ s.sender.allocs :=
  (View.next_le_next hle).trans (View.next_le h.got_lt)

/-- The receiver waits for no packet beyond the next one to be made. -/
theorem Good.next_le_allocs (h : Good crc32 input owner lim va vr s) :
    s.receiver.next ≤ s.sender.allocs := h.next_le (le_refl (s.receiver.view input.length))

/-- A packet that has been made is at most 30 ahead of the one the receiver waits for. -/
theorem Good.addr_le (h : Good crc32 input owner lim va vr s) {i : ℕ} (hi : i < s.sender.allocs) :
    i ≤ s.receiver.next + 30 := by
  have := h.near
  omega

theorem Good.va_le (h : Good crc32 input owner lim va vr s) :
    va ≤ vr ∧ va ≤ s.receiver.view input.length := by
  have hva := (List.pairwise_cons.1 h.chain).1
  exact ⟨hva vr (List.mem_cons_self ..), hva _ (by simp)⟩

/-- With a limit of 61 every NACK fits. -/
theorem Good.nackFits (h : Good crc32 input owner 61 va vr s) (e : Event) :
    NackFits crc32 61 s e := by
  intro nack _ _ heof
  have hstd := h.inv.sender.standard
  have hcount := h.sending.out.count le_rfl
  have hearly := h.sending.early_le heof
  have hlt := nack.getWindow.isLt
  rw [h.inv.sender.next_eq, Window.start, h.sending.dist_eq le_rfl (h.next_le h.va_le.2) le_rfl,
    Window.bufferSize, hstd.bufsize_eq]
  rw [Sender.length_addrs] at hcount
  omega

/-- After an ACK the views are that of the ACK. -/
theorem Good.sending_acked (h : Good crc32 input owner lim va vr s) (hlim : 31 ≤ lim ∧ lim ≤ 61)
    {r : Reply} (hr : r ∈ s.acks) (hva : va ≤ r.snap.view input.length) {ack : Pkt}
    (ha : received crc32 r.bytes = some ack) (htype : ack.getType = ptypeAck)
    (horder : OrderAgrees s.sender.w ack) (hfound : TimestampFound s.sender.w ack) :
    Sending lim s.sender.allocs
      { Sender.acked s.sender.w ack with size := ack.getWindow.toNat } s.sender.sentEof
      (r.snap.view input.length) (r.snap.view input.length) := by
  have hanswers := h.answers r hr
  obtain ⟨hwindow, hbytes⟩ := hanswers.received ha
  obtain ⟨hseq, hgot⟩ : ack.getSeqnum.toNat = r.snap.next % 256 ∧
      (r.snap.view input.length).Got (owner ack.getTimestamp) := by
    rcases hbytes with ⟨-, hseq, hgot⟩ | hnack
    · exact ⟨hseq, hgot⟩
    · exact absurd (htype.symm.trans hnack) (by decide)
  have howner : ∀ p ∈ s.sender.w.front, owner p.timestamp = p.addr :=
    fun p hp => (h.inv.buffered p hp).2
  have hone : 1 ≤ ack.getWindow.toNat := hwindow.symm ▸ hanswers.inv.available.1
  exact h.sending.acked hlim h.inv.sender.toBuffered howner hva (h.next_le (h.view_le hr)) hseq hgot
    horder hfound (h.window_le hr ha) fun _ => hone

/-- After a NACK they are those of the last ACK and of the NACK. -/
theorem Good.sending_nacked (h : Good crc32 input owner lim va vr s) (hlim : lim ≤ 61) {r : Reply}
    (hr : r ∈ s.acks) {nack : Pkt} (ha : received crc32 r.bytes = some nack)
    (hfits : s.sender.sentEof = false →
      dist 256 s.sender.w.start s.sender.next + nack.getWindow.toNat ≤ lim + s.sender.w.bufferSize)
    {w : Window} (haddrs : addrs w = addrs s.sender.w) (hpos : w.pos = s.sender.w.pos)
    (hsize : w.size = s.sender.w.size) :
    Sending lim s.sender.allocs { w with size := nack.getWindow.toNat } s.sender.sentEof va
      (r.snap.view input.length) := by
  refine (h.sending.congr haddrs hpos hsize).resized (h.window_le hr ha) fun heof => ?_
  have hfit := hfits heof
  have hnext := h.next_le h.va_le.2
  rw [h.inv.sender.next_eq, Window.start, h.sending.dist_eq hlim hnext le_rfl,
    Window.bufferSize, h.inv.sender.standard.bufsize_eq] at hfit
  rw [← Sender.length_addrs, haddrs, Sender.length_addrs]
  omega

/-- **After the response** the sender's numbers are still with the receiver's, in later views. -/
theorem Good.response (h : Good crc32 input owner lim va vr s) (hlim : 31 ≤ lim ∧ lim ≤ 61)
    {hear : Bool} {readings readings₀ readings₁ : List ℕ} {ready : Option (List Byte)}
    {acks : List Reply} {w₁ : Window} (hhear : hearFrom s.acks hear = some (ready, acks))
    (hsafe : AckSafe crc32 s (.send hear readings))
    (hfits : NackFits crc32 lim s (.send hear readings))
    (hresp : Response crc32 s.sender.w ready readings₀ w₁ readings₁) :
    ∃ va' vr', Sending lim s.sender.allocs w₁ s.sender.sentEof va' vr' ∧
      (va' :: vr' :: acks.map (fun r => r.snap.view input.length) ++
        [s.receiver.view input.length]).Pairwise (· ≤ ·) := by
  have hchain := h.chain
  rcases hearFrom_cases hhear with ⟨rfl, rfl, rfl⟩ | ⟨r, rfl, rfl, hacks⟩
  · cases hresp with
    | ignored => exact ⟨va, vr, h.sending, hchain⟩
    | acked hd => cases hd
    | nacked hd => cases hd
    | restamped hd => cases hd
  have hr : r ∈ s.acks := hacks ▸ List.mem_cons_self ..
  have hheard : ∀ a, received crc32 r.bytes = some a →
      a ∈ heard crc32 s (.send true readings) := by
    intro a ha
    simpa [heard, hacks] using ha
  have hfits' : ∀ a, received crc32 r.bytes = some a → a.getType ≠ ptypeAck →
      s.sender.sentEof = false → dist 256 s.sender.w.start s.sender.next + a.getWindow.toNat ≤
        lim + s.sender.w.bufferSize := by
    intro a ha htype
    refine hfits a (hheard a ha) (((h.answers r hr).received ha).2.resolve_left ?_)
    exact fun hack => htype hack.1
  rw [hacks, List.map_cons] at hchain
  -- the view of the last reply gives way to that of this one
  have hnack := hchain.sublist ((List.sublist_cons_self ..).cons_cons va)
  cases hresp with
  | ignored =>
    exact ⟨va, vr, h.sending,
      hchain.sublist (((List.sublist_cons_self ..).cons_cons vr).cons_cons va)⟩
  | @acked d ack hd ha htype =>
    cases hd
    obtain ⟨horder, hfound⟩ := hsafe ack (hheard ack ha) htype
    have hva := (List.pairwise_cons.1 hnack).1 _ (List.mem_cons_self ..)
    exact ⟨_, _, h.sending_acked hlim hr hva ha htype horder hfound,
      chain_again (List.pairwise_cons.1 hnack).2⟩
  | @nacked d nack hd ha htype =>
    cases hd
    exact ⟨va, _, h.sending_nacked hlim.2 hr ha (hfits' nack ha htype) rfl rfl rfl, hnack⟩
  | @restamped d nack p q now _ hd ha htype =>
    cases hd
    exact ⟨va, _, h.sending_nacked hlim.2 hr ha (hfits' nack ha htype)
      (Sender.addrs_store ..) rfl rfl, hnack⟩

/-! ### The steps -/

theorem Good.init : Good crc32 input owner 31 ⟨0, ∅⟩ ⟨0, ∅⟩ (init input) where
  inv := Inv.init input
  reads := ⟨_, Reads.init⟩
  answers := nofun
  chain := by
    have hle : (⟨0, ∅⟩ : View) ≤ Receiver.init.view input.length :=
      ⟨Nat.zero_le _, fun i hi => hi.elim (absurd · (Nat.not_lt_zero i)) (fun hi => by cases hi)⟩
    refine List.pairwise_cons.2 ⟨fun x hx => ?_, List.pairwise_cons.2 ⟨fun x hx => ?_,
      List.pairwise_singleton ..⟩⟩
    · rcases List.mem_cons.1 hx with rfl | hx
      · exact le_rfl
      · rwa [List.mem_singleton.1 hx]
    · rwa [List.mem_singleton.1 hx]
  got_lt i hi := by
    rcases Receiver.got_iff.1 hi with hi | ⟨q, hq, -⟩ | ⟨hnil, -⟩
    · exact hi
    · cases hq
    · cases hnil
  near := Nat.zero_le _
  sending := Sender.Sending.init
  recent := ⟨List.Pairwise.nil, nofun⟩

theorem Good.mono (h : Good crc32 input owner lim va vr s) {lim' : ℕ} (hle : lim ≤ lim') :
    Good crc32 input owner lim' va vr s := { h with sending := h.sending.mono hle }

/-- What the receiver reads does not depend on the owners of new timestamps. -/
theorem Good.reads_mono (h : Good crc32 input owner lim va vr s) {owner' : BitVec 32 → ℕ}
    (hext : Sender.Extends s.clock owner owner') : ∃ m, Reads input owner' s.receiver m := by
  obtain ⟨m, hm⟩ := h.reads
  refine ⟨m, { hm with own := fun i x hx => ?_ }⟩
  obtain ⟨q, hq, rfl, -⟩ := (hm.held i x).1 hx
  exact (hext _ (h.inv.stored q hq).old).trans (hm.own i _ hx)

/-- After the response the sender has room for a new packet, or its buffer stays; either way the
packets in flight are near what the receiver has read. -/
theorem Good.sending_send (h : Good crc32 input owner lim va vr s) {va' vr' : View}
    {sender : Sender.State} {w₁ : Window} (hinv' : Sender.Inv input sender)
    (hsending : Sending lim s.sender.allocs w₁ s.sender.sentEof va' vr')
    (hva : va' ≤ s.receiver.view input.length) (hvr : va' ≤ vr')
    (hvr' : vr' ≤ s.receiver.view input.length) (hpos : sender.w.pos = w₁.pos)
    (hsize : sender.w.size = w₁.size)
    (hallocs : (sender.allocs = s.sender.allocs ∧ addrs sender.w = addrs w₁) ∨
      (sender.allocs = s.sender.allocs + 1 ∧ addrs sender.w = s.sender.allocs :: addrs w₁ ∧
        (addrs w₁).length < w₁.size ∧ s.sender.sentEof = false)) :
    s.sender.allocs ≤ sender.allocs ∧ sender.allocs ≤ s.receiver.next + 31 ∧
      Sending lim sender.allocs sender.w sender.sentEof va' vr' := by
  have hnear := h.near
  rcases hallocs with ⟨hsame, haddrs⟩ | ⟨hsucc, haddrs, hroom, heof⟩
  · have heof' : sender.sentEof = s.sender.sentEof := by
      rw [Bool.eq_iff_iff, hinv'.sentEof_iff, h.inv.sender.sentEof_iff, hsame]
    rw [hsame, heof']
    exact ⟨le_rfl, hnear, hsending.congr haddrs hpos hsize⟩
  · -- there is room, so what the receiver advertised reaches past the new packet
    rw [heof] at hsending
    have hreach := hsending.le_next hvr hroom
    have hnext := View.next_le_next hvr'
    rw [hsucc]
    refine ⟨Nat.le_succ _, ?_, hsending.added (h.next_le hva) haddrs hpos hsize hroom _⟩
    exact Nat.succ_le_succ (hreach.trans (Nat.add_le_add_right hnext 30))

/-- **An iteration of the sender.** -/
theorem Good.send (h : Good crc32 input owner lim va vr s) (hlim : 31 ≤ lim ∧ lim ≤ 61)
    {hear : Bool} {readings : List ℕ} (hticks : Ticks s (.send hear readings))
    (hsafe : AckSafe crc32 s (.send hear readings))
    (hfits : NackFits crc32 lim s (.send hear readings))
    (hs : step crc32 s (.send hear readings) = some s') :
    ∃ owner' va' vr', Good crc32 input owner' lim va' vr' s' := by
  obtain ⟨clock, ready, acks, sender, sent, hadv, hhear, hloop, rfl⟩ :=
    step_send_of_ticks hticks hs
  obtain ⟨owner', hext, hinv'⟩ := h.inv.send acks hadv hloop
  have hclock := (Sender.advance_le hadv h.inv.clock_le).1
  obtain ⟨-, w₁, _, _, hresp, hpos, hsize, hallocs, hsent⟩ :=
    Sender.mainLoop_spec h.inv.sender hloop
  obtain ⟨va', vr', hsending, hchain⟩ := h.response hlim hhear hsafe hfits hresp
  have hva' := (List.pairwise_cons.1 hchain).1
  have hvr : va' ≤ vr' := hva' vr' (List.mem_cons_self ..)
  have hvarecv : va' ≤ s.receiver.view input.length := hva' _ (by simp)
  have hvrrecv : vr' ≤ s.receiver.view input.length :=
    (List.pairwise_cons.1 (List.pairwise_cons.1 hchain).2).1 _ (by simp)
  obtain ⟨hle, hnear, hsending'⟩ :=
    h.sending_send hinv'.sender hsending hvarecv hvr hvrrecv hpos hsize hallocs
  refine ⟨owner', va', vr', {
    inv := hinv'
    reads := h.reads_mono hext
    answers := fun r hr => ?_
    chain := hchain
    got_lt := fun i hi => (h.got_lt i hi).trans_le hle
    near := hnear
    sending := hsending'
    recent := ?_ }⟩
  · refine (h.answers r ?_).mono hclock hext
    rcases hearFrom_cases hhear with ⟨-, -, rfl⟩ | ⟨r', -, -, hacks⟩
    · exact hr
    · exact hacks ▸ List.mem_cons_of_mem r' hr
  · rw [List.map_append]
    refine h.recent.append (n := sender.allocs) (fun i hi => (h.got_lt i hi).trans_le hle)
      (fun i hi => ?_) fun i hi => ?_
    · rw [← List.map_append] at hi
      obtain ⟨d, hd, rfl⟩ := List.mem_map.1 hi
      exact (hinv'.conveyed d hd).addr_lt
    · obtain ⟨d, hd, rfl⟩ := List.mem_map.1 hi
      have := hsending'.out.ahead _ (hsent d hd).2
      have := hsending'.spread
      omega

/-- **An iteration of the receiver.** -/
theorem Good.receive (h : Good crc32 input owner lim va vr s)
    (hs : step crc32 s .receive = some s') : Good crc32 input owner lim va vr s' := by
  obtain ⟨d, data, receiver, reply, hdata, hloop, rfl⟩ := step_receive hs
  have hd := h.inv.data (hdata ▸ List.mem_cons_self ..)
  obtain ⟨m, hm⟩ := h.reads
  have hrecent := h.recent
  rw [hdata, List.map_cons] at hrecent
  -- near enough to the next index for the sequence number to say which packet this is
  have hlag : m.next ≤ d.pkt.addr + 64 := by
    rw [← hm.next_eq]
    exact View.next_le (hrecent.view d.pkt.addr (List.mem_cons_self ..))
  have hnear := hm.next_eq ▸ h.addr_le hd.addr_lt
  obtain ⟨hreads, hle, hgot, hanswers⟩ := h.inv.reads_receive hm hd hlag hnear hloop
  have hchain := chain_grow h.chain hle
  refine {
    inv := h.inv.receive hdata hloop
    reads := hreads
    answers := fun r hr => ?_
    chain := ?_
    got_lt := fun i hi => ?_
    near := h.near.trans (Nat.add_le_add_right (View.next_le_next hle) 31)
    sending := h.sending
    recent := hrecent.receive hgot }
  · rcases List.mem_append.1 hr with hr | hr
    · exact h.answers r hr
    · cases reply with
      | none => cases hr
      | some bytes =>
        rw [List.mem_singleton.1 hr]
        exact hanswers bytes rfl
  · cases reply with
    | none => simpa using hchain
    | some bytes => simpa using chain_snoc hchain
  · rcases hgot i hi with hi | rfl
    · exact h.got_lt i hi
    · exact hd.addr_lt

/-- **What holds is kept by every safe step.** -/
theorem Good.step (h : Good crc32 input owner lim va vr s) (hlim : 31 ≤ lim ∧ lim ≤ 61) {e : Event}
    (hticks : Ticks s e) (hsafe : AckSafe crc32 s e) (hfits : NackFits crc32 lim s e)
    (hs : System.step crc32 s e = some s') :
    ∃ owner' va' vr', Good crc32 input owner' lim va' vr' s' := by
  cases e with
  | send hear readings => exact h.send hlim hticks hsafe hfits hs
  | receive => exact ⟨owner, va, vr, h.receive hs⟩
  | loseData i =>
    obtain rfl := step_loseData hs
    exact ⟨owner, va, vr, { h with
      inv := h.inv.loseData i
      recent := h.recent.sublist ((List.eraseIdx_sublist ..).map _) }⟩
  | loseAck i =>
    obtain rfl := step_loseAck hs
    exact ⟨owner, va, vr, { h with
      inv := { h.inv with }
      answers := fun r hr => h.answers r (Links.mem_of_mem_eraseIdx hr)
      chain := h.chain.sublist
        ((((List.eraseIdx_sublist ..).map _).append_right _).cons_cons vr |>.cons_cons va) }⟩
  | truncate i =>
    obtain ⟨d, hd, rfl⟩ := step_truncate hs
    refine ⟨owner, va, vr, { h with inv := h.inv.truncate hd, recent := ?_ }⟩
    have hsame : (s.data.set i { d with bytes := truncated d.bytes }).map (fun d => d.pkt.addr) =
        s.data.map fun d => d.pkt.addr := by
      obtain ⟨hi, rfl⟩ := List.getElem?_eq_some_iff.1 hd
      have hi' : i < (s.data.map fun d => d.pkt.addr).length := by rwa [List.length_map]
      have hget : (s.data.map fun d => d.pkt.addr)[i] = s.data[i].pkt.addr := List.getElem_map ..
      rw [List.map_set]
      change List.set _ i s.data[i].pkt.addr = _
      rw [← hget, List.set_getElem_self]
    exact hsame.symm ▸ h.recent

/-- What holds in every state of a run in which the sender understands the ACKs. -/
theorem exists_good
    (h : ((lts crc32).restrict fun s e => Ticks s e ∧ AckSafe crc32 s e).Reachable (init input) s) :
    ∃ owner va vr, Good crc32 input owner 61 va vr s := by
  refine h.invariant (I := fun s => ∃ owner va vr, Good crc32 input owner 61 va vr s)
    ⟨fun _ => 0, _, _, Good.init.mono (by decide)⟩ ?_
  rintro s e s' ⟨owner, va, vr, hgood⟩ ⟨⟨hticks, hsafe⟩, hs⟩
  exact hgood.step (by decide) hticks hsafe (hgood.nackFits e) hs

end System

end LosslessTransport
