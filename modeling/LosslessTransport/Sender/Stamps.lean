import LosslessTransport.Sender.Invariant

/-!
# The timestamps of the sender's packets

Every datagram is stamped with a reading of the clock plus `TIMER`, and no two with the same
reading.  So while the clock has not reached 2^32 microseconds a timestamp has one owner: the
packet it was made for.  `mainLoop_stamps` carries such a map over an iteration.

A packet named in a NACK carries the bare reading for a while, but the retransmissions that follow
stamp it again before the iteration ends.
-/

namespace LosslessTransport

namespace Sender

/-- The clock once these readings are taken, if they increase strictly from `clock` on and fit 32
bits: it is past every reading. -/
def advance : ℕ → List ℕ → Option ℕ
  | clock, [] => some clock
  | clock, now :: readings =>
    if clock ≤ now ∧ now < 2 ^ 32 then advance (now + 1) readings else none

/-- The timestamp was given to a datagram before the clock reached `c`. -/
def Old (c : ℕ) (t : BitVec 32) : Prop := ∃ now < c, t = BitVec.ofNat 32 now + timer

/-- The packet carries an old timestamp, and owns it. -/
def Stamped (c : ℕ) (owner : BitVec 32 → ℕ) (p : PktPtr) : Prop :=
  Old c p.timestamp ∧ owner p.timestamp = p.addr

variable {c c' now : ℕ} {readings readings' rest : List ℕ} {t : BitVec 32}

theorem advance_cons (h : advance c (now :: readings) = some c') :
    c ≤ now ∧ now < 2 ^ 32 ∧ advance (now + 1) readings = some c' := by
  rw [advance] at h
  split_ifs at h with hnow
  exact ⟨hnow.1, hnow.2, h⟩

theorem advance_le (h : advance c readings = some c') (hc : c ≤ 2 ^ 32) :
    c ≤ c' ∧ c' ≤ 2 ^ 32 := by
  induction readings generalizing c with
  | nil =>
    cases h
    exact ⟨le_rfl, hc⟩
  | cons now readings ih =>
    obtain ⟨hle, hlt, h⟩ := advance_cons h
    have := ih h hlt
    omega

theorem Old.mono (h : Old c t) (hc : c ≤ c') : Old c' t :=
  h.imp fun _ ⟨hlt, ht⟩ => ⟨hlt.trans_le hc, ht⟩

theorem Stamped.mono {owner owner' : BitVec 32 → ℕ} {p : PktPtr} (h : Stamped c owner p)
    (hc : c ≤ c') (howner : ∀ t, Old c t → owner' t = owner t) : Stamped c' owner' p :=
  ⟨h.1.mono hc, (howner _ h.1).trans h.2⟩

theorem old_succ (now : ℕ) : Old (now + 1) (BitVec.ofNat 32 now + timer) :=
  ⟨now, Nat.lt_succ_self now, rfl⟩

/-- A new reading gives a timestamp that no datagram has. -/
theorem not_old (hle : c ≤ now) (hlt : now < 2 ^ 32) : ¬ Old c (BitVec.ofNat 32 now + timer) := by
  rintro ⟨now', hlt', heq⟩
  have hnat : (BitVec.ofNat 32 now).toNat = (BitVec.ofNat 32 now').toNat :=
    congrArg BitVec.toNat ((BitVec.add_left_inj timer).1 heq)
  rw [BitVec.toNat_ofNat, BitVec.toNat_ofNat, Nat.mod_eq_of_lt hlt, Nat.mod_eq_of_lt (by omega)]
    at hnat
  omega

variable {crc32 : List Byte → BitVec 32} {input : List Chunk} {n : ℕ} {w w' : Window}
  {owner : BitVec 32 → ℕ} {ready : Option (List Byte)}

/-- What a map of owners is carried over to: the new one agrees on the old timestamps. -/
def Extends (c : ℕ) (owner owner' : BitVec 32 → ℕ) : Prop := ∀ t, Old c t → owner' t = owner t

theorem Extends.trans {owner₁ owner₂ : BitVec 32 → ℕ} (h : Extends c owner owner₁)
    (h' : Extends c' owner₁ owner₂) (hc : c ≤ c') : Extends c owner owner₂ :=
  fun t ht => (h' t (ht.mono hc)).trans (h t ht)

/-- The new timestamp gets its owner. -/
theorem extends_update (hle : c ≤ now) (hlt : now < 2 ^ 32) (owner : BitVec 32 → ℕ) (i : ℕ) :
    Extends c owner (Function.update owner (BitVec.ofNat 32 now + timer) i) := by
  intro t ht
  refine Function.update_of_ne ?_ ..
  rintro rfl
  exact not_old hle hlt ht

/-- The packet that is given a new reading owns it. -/
theorem stamped_update (owner : BitVec 32 → ℕ) {p : PktPtr}
    (h : p.timestamp = BitVec.ofNat 32 now + timer) :
    Stamped (now + 1) (Function.update owner (BitVec.ofNat 32 now + timer) p.addr) p := by
  refine ⟨h ▸ old_succ now, ?_⟩
  rw [h, Function.update_self]

/-- After the response each packet is stamped, or carries a bare reading. -/
theorem Response.stamps (h : Response crc32 w ready readings w' readings')
    (hw : ∀ p ∈ w.front, Stamped c owner p) (hadv : advance c readings = some c') :
    ∃ c₁, c ≤ c₁ ∧ advance c₁ readings' = some c' ∧
      ∀ p ∈ w'.front, Stamped c₁ owner p ∨ p.timestamp.toNat < c₁ := by
  cases h with
  | ignored => exact ⟨c, le_rfl, hadv, fun p hp => .inl (hw p hp)⟩
  | acked =>
    exact ⟨c, le_rfl, hadv, fun p hp => .inl (hw p ((sublist_acked w _).subset hp))⟩
  | nacked => exact ⟨c, le_rfl, hadv, fun p hp => .inl (hw p hp)⟩
  | @restamped d nack p q now readings' hd hrec htype hp hnow hq =>
    subst hnow
    obtain ⟨hle, hlt, hadv⟩ := advance_cons hadv
    refine ⟨now + 1, by omega, hadv, fun r hr => ?_⟩
    rcases Window.mem_store hr with rfl | ⟨hr, -⟩
    · right
      rw [hq, PktPtr.timestamp_setTimestamp, BitVec.toNat_ofNat, Nat.mod_eq_of_lt hlt]
      exact Nat.lt_succ_self now
    · exact .inl ((hw r hr).mono (by omega) fun _ _ => rfl)

/-- The retransmissions stamp every packet that carries a bare reading. -/
theorem retransmitExpired_stamps {loopNow : ℕ} (hloop : loopNow < 2 ^ 32)
    (hbuf : Buffered input n w)
    (hw : ∀ p ∈ w.front, Stamped c owner p ∨ p.timestamp.toNat ≤ loopNow)
    (hadv : advance c readings = some c') {r : Window × List Sent × List ℕ}
    (hr : retransmitExpired crc32 (BitVec.ofNat 32 loopNow) readings w = .ok r) :
    ∃ c₁ owner', c ≤ c₁ ∧ advance c₁ r.2.2 = some c' ∧ Extends c owner owner' ∧
      (∀ p ∈ r.1.front, Stamped c₁ owner' p) ∧ ∀ d ∈ r.2.1, Stamped c₁ owner' d.pkt := by
  refine retransmitExpired_induction
    (motive := fun readings w r => ∀ c owner, Buffered input n w →
      (∀ p ∈ w.front, Stamped c owner p ∨ p.timestamp.toNat ≤ loopNow) →
      advance c readings = some c' →
      ∃ c₁ owner', c ≤ c₁ ∧ advance c₁ r.2.2 = some c' ∧ Extends c owner owner' ∧
        (∀ p ∈ r.1.front, Stamped c₁ owner' p) ∧ ∀ d ∈ r.2.1, Stamped c₁ owner' d.pkt)
    ?_ ?_ hbuf.sendable hr c owner hbuf hw hadv
  · intro readings w hgt c owner _ hw hadv
    refine ⟨c, owner, le_rfl, hadv, fun _ _ => rfl, fun p hp => ?_, nofun⟩
    refine (hw p hp).resolve_right fun hle => hgt p hp ?_
    rw [BitVec.le_def, BitVec.toNat_ofNat, Nat.mod_eq_of_lt hloop]
    exact hle
  · intro now readings w p q r hp _ hq ih c owner hbuf hw hadv
    obtain ⟨hle, hlt, hadv⟩ := advance_cons hadv
    have hqt : q.timestamp = BitVec.ofNat 32 now + timer := by
      rw [hq, PktPtr.timestamp_setTimestamp]
    have hstore := hbuf.store hp (BitVec.ofNat 32 now + timer)
    rw [← hq] at hstore
    set owner₁ := Function.update owner (BitVec.ofNat 32 now + timer) q.addr
    have hext : Extends c owner owner₁ := extends_update hle hlt owner q.addr
    have hqs : Stamped (now + 1) owner₁ q := stamped_update owner hqt
    have hw₁ : ∀ x ∈ (w.store q).front,
        Stamped (now + 1) owner₁ x ∨ x.timestamp.toNat ≤ loopNow := by
      intro x hx
      rcases Window.mem_store hx with rfl | ⟨hx, -⟩
      · exact .inl hqs
      · exact (hw x hx).imp (fun h => h.mono (by omega) hext) id
    obtain ⟨c₁, owner', hc₁, hadv₁, hext', hfront, hsent⟩ :=
      ih (now + 1) owner₁ hstore hw₁ hadv
    refine ⟨c₁, owner', by omega, hadv₁, hext.trans hext' (by omega), hfront, fun d hd => ?_⟩
    rcases List.mem_cons.1 hd with rfl | hd
    · exact hqs.mono hc₁ hext'
    · exact hsent d hd

/-- The new packet is given a new reading. -/
theorem sendNew_stamps {st st' : State} {new : Sent} (hfull : st.w.full = false)
    (hw : ∀ p ∈ st.w.front, Stamped c owner p) (hadv : advance c readings = some c')
    (h : sendNew crc32 st readings = .ok (st', new, [])) :
    ∃ owner', Extends c owner owner' ∧ c ≤ c' ∧ (∀ p ∈ st'.w.front, Stamped c' owner' p) ∧
      Stamped c' owner' new.pkt := by
  obtain ⟨now, p, rfl, -, hpt, rfl, rfl⟩ := sendNew_spec hfull h
  obtain ⟨hle, hlt, hadv⟩ := advance_cons hadv
  cases hadv
  have hext := extends_update hle hlt owner st.allocs
  have hnew := stamped_update owner (p := { addr := st.allocs, pkt := p }) hpt
  refine ⟨_, hext, by omega, fun q hq => ?_, hnew⟩
  rcases List.mem_cons.1 hq with rfl | hq
  · exact hnew
  · exact (hw q hq).mono (by omega) hext

/-- **An iteration keeps the timestamps apart**: after it each packet in the buffer, and each
datagram it has sent, owns its timestamp, and the owners of the old timestamps are the same. -/
theorem mainLoop_stamps {st st' : State} {sent : List Sent} (hinv : Inv input st)
    (hc : c ≤ 2 ^ 32) (hw : ∀ p ∈ st.w.front, Stamped c owner p)
    (hadv : advance c readings = some c')
    (h : mainLoop crc32 ready readings st = .ok (st', sent, [])) :
    ∃ owner', Extends c owner owner' ∧ (∀ p ∈ st'.w.front, Stamped c' owner' p) ∧
      ∀ d ∈ sent, Stamped c' owner' d.pkt := by
  obtain ⟨readings₀, hwait, hloop⟩ := mainLoop_cases h
  -- the reading of the timeout
  obtain ⟨c₀, hc₀, hadv₀⟩ : ∃ c₀, c ≤ c₀ ∧ advance c₀ readings₀ = some c' := by
    rcases hwait with rfl | ⟨now, rfl⟩
    · exact ⟨c, le_rfl, hadv⟩
    · obtain ⟨hle, -, hadv⟩ := advance_cons hadv
      exact ⟨now + 1, by omega, hadv⟩
  have hcc' := advance_le hadv hc
  have hw₀ : ∀ p ∈ st.w.front, Stamped c₀ owner p := fun p hp =>
    (hw p hp).mono hc₀ fun _ _ => rfl
  obtain ⟨-, rfl, rfl, -⟩ | ⟨w₁, loopNow, readings₁, w₂, sent₂, readings₂, hreceive, hretr,
    hnew⟩ := hloop
  · exact ⟨owner, fun _ _ => rfl, fun p hp => (hw p hp).mono hcc'.1 fun _ _ => rfl, nofun⟩
  have hresp := response_of_receive_some hinv.standard hreceive
  obtain ⟨c₁, hc₁, hadv₁, hw₁⟩ := hresp.stamps hw₀ hadv₀
  obtain ⟨hle, hlt, hadv₁⟩ := advance_cons hadv₁
  have hbuf₁ := hresp.buffered hinv.toBuffered
  obtain ⟨c₂, owner₂, hc₂, hadv₂, hext₂, hw₂, hsent₂⟩ :=
    retransmitExpired_stamps (c := loopNow + 1) hlt hbuf₁ (fun p hp => (hw₁ p hp).imp
      (fun h => h.mono (by omega) fun _ _ => rfl) (fun h => by omega)) hadv₁ hretr
  have hext : Extends c owner owner₂ := fun t ht => hext₂ t (ht.mono (by omega))
  obtain ⟨hfull, -, new, hsend, rfl⟩ | ⟨-, rfl, rfl, rfl⟩ := hnew
  · obtain ⟨owner₃, hext₃, hle₃, hw₃, hnew₃⟩ := sendNew_stamps hfull hw₂ hadv₂ hsend
    refine ⟨owner₃, hext.trans hext₃ (by omega), hw₃, fun d hd => ?_⟩
    rcases List.mem_append.1 hd with hd | hd
    · exact (hsent₂ d hd).mono hle₃ hext₃
    · exact List.mem_singleton.1 hd ▸ hnew₃
  · cases hadv₂
    exact ⟨owner₂, hext, hw₂, hsent₂⟩

end Sender

end LosslessTransport
