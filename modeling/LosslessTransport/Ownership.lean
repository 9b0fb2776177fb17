import LosslessTransport.Util
import LosslessTransport.Window.Nodes

/-!
# Programs in memory

What sender and receiver share when their packets and nodes lie in memory.  `Memory.Owns` says who
owns the packets that are live: the buffer, or the program itself (`others`).  `Fault` is how an
iteration ends early: by an access that is undefined behaviour, because there is no memory, or by an
`Exit` of the program without memory.  `Matches` compares an iteration with one of that program: it
never ends with a memory fault, and it ends like the other or because `calloc` has failed.
-/

namespace LosslessTransport

/-- How an iteration in memory fails to come back. -/
inductive Fault where
  /-- An access by a null or a dangling pointer, or a second `free`. -/
  | memory
  /-- An `exit_msg` because `calloc` has returned the null pointer. -/
  | noMemory
  /-- As without memory. -/
  | exit (e : Exit)

/-- An access to memory. -/
def live {α : Type} : Option α → Except Fault α
  | none => throw .memory
  | some a => pure a

/-- What `calloc` answers in an iteration of a main loop, which makes at most two packets and a
node. -/
structure Calloc where
  /-- For the packet that is received. -/
  received : Heap.Answer Pkt
  /-- For the packet that is sent: the reply, or a new DATA packet. -/
  sent : Heap.Answer Pkt
  node : Heap.Answer (Node ℕ)

/-- What `calloc` returns, compared with the null pointer. -/
def allocated {α : Type} : Option α → Except Fault α
  | none => throw .noMemory
  | some a => pure a

/-- `exit_msg ("Could not add packet to buffer\n")`, when `window_push` has returned -1: the window
is full, or `calloc` has failed. -/
def couldNotAdd (m : Memory) : Fault := if m.fields.full then .exit .couldNotAdd else .noMemory

/-- A computation that does not touch the memory. -/
def exits {α : Type} : Except Exit α → Except Fault α
  | .error e => throw (.exit e)
  | .ok a => pure a

/-- An iteration in memory and one without: both come back, in related states; or both end alike; or
`calloc` has failed, in `pkt_new` or in `window_push`. -/
def Matches {α β : Type} (R : α → β → Prop) : Except Fault α → Except Exit β → Prop
  | .ok a, .ok b => R a b
  | .error .noMemory, _ => True
  | .error (.exit e), .error e' => e = e'
  | _, _ => False

namespace Matches

variable {α β γ δ : Type} {R R' : α → β → Prop} {S : γ → δ → Prop}

theorem ok {a : α} {b : β} (h : R a b) : Matches R (pure a) (pure b) := h

theorem error (e : Exit) : Matches R (throw (.exit e)) (throw e) := rfl

/-- An iteration that ends early does so because `calloc` has failed, or like the other one. -/
theorem of_error {e : Fault} {y : Except Exit β} (h : Matches R (.error e) y) :
    e = .noMemory ∨ ∃ e', e = .exit e' ∧ y = .error e' := by
  cases e with
  | memory => cases y <;> exact h.elim
  | noMemory => exact .inl rfl
  | exit e =>
    cases y with
    | ok b => exact h.elim
    | error e' => exact .inr ⟨e, rfl, congrArg _ (Eq.symm h)⟩

theorem of_ok {a : α} {y : Except Exit β} (h : Matches R (.ok a) y) : ∃ b, y = .ok b ∧ R a b := by
  cases y with
  | ok b => exact ⟨b, rfl, h⟩
  | error e => exact h.elim

/-- One after the other. -/
theorem bind {x : Except Fault α} {y : Except Exit β} {f : α → Except Fault γ}
    {g : β → Except Exit δ} (h : Matches R x y) (hfg : ∀ a b, R a b → Matches S (f a) (g b)) :
    Matches S (x >>= f) (y >>= g) := by
  cases x with
  | ok a =>
    cases y with
    | ok b => exact hfg a b h
    | error e => exact h.elim
  | error e =>
    cases e with
    | memory => cases y <;> exact h.elim
    | noMemory => exact trivial
    | exit e =>
      cases y with
      | ok b => exact h.elim
      | error e' => exact h

/-- An access to an object that is live. -/
theorem live {x : Option α} {a : α} {f : α → Except Fault γ} {y : Except Exit δ} (hx : x = some a)
    (h : Matches S (f a) y) : Matches S (LosslessTransport.live x >>= f) y := by
  rw [hx]
  exact h

/-- A new object, if there is one. -/
theorem allocated {x : Option α} {f : α → Except Fault γ} {y : Except Exit δ}
    (h : ∀ a, x = some a → Matches S (f a) y) :
    Matches S (LosslessTransport.allocated x >>= f) y := by
  cases x with
  | none => exact trivial
  | some a => exact h a rfl

/-- A packet that finds no place in a window that is not full. -/
theorem couldNotAdd {m : Memory} {y : Except Exit β} (hfull : m.fields.full = false) :
    Matches R (throw (LosslessTransport.couldNotAdd m)) y := by
  rw [LosslessTransport.couldNotAdd, hfull]
  exact trivial

/-- The same computation on both sides. -/
theorem exits {x : Except Exit α} {f : α → Except Fault γ} {g : α → Except Exit δ}
    (h : ∀ a, x = .ok a → Matches S (f a) (g a)) :
    Matches S (LosslessTransport.exits x >>= f) (x >>= g) := by
  cases x with
  | ok a => exact h a rfl
  | error e => exact error e

theorem exits_last {x : Except Exit δ} {f : δ → Except Fault γ}
    (h : ∀ a, x = .ok a → Matches S (f a) (pure a)) :
    Matches S (LosslessTransport.exits x >>= f) x := by
  cases x with
  | ok a => exact h a rfl
  | error e => exact error e

/-- Facts about the program without memory. -/
theorem and_right {x : Except Fault α} {y : Except Exit β} {Q : β → Prop} (h : Matches R x y)
    (hQ : ∀ b, y = .ok b → Q b) : Matches (fun a b => R a b ∧ Q b) x y := by
  cases x with
  | ok a =>
    cases y with
    | ok b => exact ⟨h, hQ b rfl⟩
    | error e => exact h
  | error e =>
    cases e with
    | memory => cases y <;> exact h
    | noMemory => exact trivial
    | exit e => cases y <;> exact h

theorem mono {x : Except Fault α} {y : Except Exit β} (h : Matches R x y)
    (hR : ∀ a b, R a b → R' a b) : Matches R' x y := by
  cases x with
  | ok a =>
    cases y with
    | ok b => exact hR a b h
    | error e => exact h
  | error e =>
    cases e with
    | memory => cases y <;> exact h
    | noMemory => exact trivial
    | exit e => cases y <;> exact h

end Matches

/-- What is received is what `pkt_decode` accepts. -/
theorem received_of_decode {crc32 : List Byte → BitVec 32} {d : List Byte} {err : PktStatusCode}
    {p : Pkt} (h : Pkt.decode crc32 (some (d.take maxPacketSize)) (d.take maxPacketSize).length
      Pkt.new = some (err, p)) : received crc32 d = if err = .ok then some p else none := by
  unfold received
  dsimp only
  rw [h]
  cases err <;> rfl

namespace Memory

/-- The buffer has the packets of `es`, the program the packets `others`, and no packet else is
live. -/
structure Owns (m : Memory) (w : Window) (es : List Entry) (others : List ℕ) : Prop extends
    m.Represents w es where
  live : ∀ a, (m.pkts a).isSome ↔ a ∈ es.map Entry.addr ∨ a ∈ others
  nodup_all : (es.map Entry.addr ++ others).Nodup

variable {m m' : Memory} {w w' : Window} {es : List Entry} {others others' : List ℕ}
  {a i : ℕ} {e : Entry} {p q : Pkt}

namespace Owns

theorem perm (h : m.Owns w es others) (hp : others.Perm others') : m.Owns w es others' where
  toRepresents := h.toRepresents
  live a := by rw [h.live, hp.mem_iff]
  nodup_all := (hp.append_left _).nodup_iff.1 h.nodup_all

theorem not_mem (h : m.Owns w es (a :: others)) : a ∉ es.map Entry.addr ∧ a ∉ others := by
  have hnodup := h.nodup_all
  rw [List.nodup_middle, List.nodup_cons, List.mem_append, not_or] at hnodup
  exact hnodup.1

/-- A program owns no packet when the memory has just been set up. -/
theorem create {size maxSize maxSeqnum : ℕ} (h : create size maxSize maxSeqnum = some m) :
    ∃ w, Window.create size maxSize maxSeqnum = some w ∧ m.Owns w [] [] := by
  obtain ⟨w, hw, hrep, hpkts⟩ := Represents.create h
  exact ⟨w, hw, hrep, by simp [hpkts], .nil⟩

/-- `pkt_new`. -/
theorem pktNew (h : m.Owns w es others) {answer : Heap.Answer Pkt}
    (ha : m.pktNew answer = some (a, m')) :
    m'.Owns w es (a :: others) ∧ m'.pkts a = some Pkt.new ∧
      (∀ b q, m.pkts b = some q → m'.pkts b = some q) ∧ m'.fields = m.fields := by
  obtain ⟨a', ha', heq⟩ := Option.map_eq_some_iff.1 ha
  cases heq
  have hfree := answer.fresh ha'
  have hne : ∀ b q, m.pkts b = some q → b ≠ a := by
    rintro b q hb rfl
    rw [hfree] at hb
    cases hb
  have hnot : a ∉ es.map Entry.addr ++ others := by
    rw [List.mem_append, ← h.live, hfree]
    exact Bool.false_ne_true
  have hrep : Represents { m with pkts := Function.update m.pkts a (some Pkt.new) } w es :=
    h.congr rfl rfl fun e he => Function.update_of_ne (hne _ _ (h.pkts e he)) ..
  refine ⟨⟨hrep, fun b => ?_, List.nodup_middle.2 (List.nodup_cons.2 ⟨hnot, h.nodup_all⟩)⟩,
    Function.update_self ..,
    fun b q hb => (Function.update_of_ne (hne b q hb) ..).trans hb, rfl⟩
  by_cases hb : b = a
  · subst hb
    simp
  · simp only [Function.update_of_ne hb, h.live, List.mem_cons, hb, false_or]

/-- `pkt_del`. -/
theorem pktDel (h : m.Owns w es (a :: others)) :
    ∃ m', m.pktDel (some a) = some m' ∧ m'.Owns w es others ∧
      (∀ b ≠ a, m'.pkts b = m.pkts b) ∧ m'.fields = m.fields := by
  obtain ⟨hes, hothers⟩ := h.not_mem
  obtain ⟨q, hq⟩ := Option.isSome_iff_exists.1 ((h.live a).2 (.inr (List.mem_cons_self ..)))
  refine ⟨{ m with pkts := Function.update m.pkts a none },
    by rw [Memory.pktDel, Heap.free_of_live hq, Option.map_some], ⟨?_, fun b => ?_, ?_⟩,
    fun b hb => Function.update_of_ne hb .., rfl⟩
  · refine h.congr rfl rfl fun e he => Function.update_of_ne ?_ ..
    exact ne_of_mem_of_not_mem (List.mem_map_of_mem he) hes
  · by_cases hb : b = a
    · subst hb
      simp [hes, hothers]
    · simp only [Function.update_of_ne hb, h.live, List.mem_cons, hb, false_or]
  · exact (List.nodup_cons.1 (List.nodup_middle.1 h.nodup_all)).2

/-- The program changes a packet of its own. -/
theorem write (h : m.Owns w es (a :: others)) (p : Pkt) :
    ∃ m', m.write a p = some m' ∧ m'.Owns w es (a :: others) ∧ m'.pkts a = some p ∧
      (∀ b ≠ a, m'.pkts b = m.pkts b) ∧ m'.fields = m.fields := by
  obtain ⟨q, hq⟩ := Option.isSome_iff_exists.1 ((h.live a).2 (.inr (List.mem_cons_self ..)))
  refine ⟨{ m with pkts := Function.update m.pkts a (some p) },
    by rw [Memory.write, Heap.store_of_live hq, Option.map_some], ⟨?_, fun b => ?_, h.nodup_all⟩,
    Function.update_self .., fun b hb => Function.update_of_ne hb .., rfl⟩
  · refine h.congr rfl rfl fun e he => Function.update_of_ne ?_ ..
    exact ne_of_mem_of_not_mem (List.mem_map_of_mem he) h.not_mem.1
  · by_cases hb : b = a
    · subst hb
      simp
    · simp only [Function.update_of_ne hb, h.live]

/-- The program hands a packet to the buffer. -/
theorem push (h : m.Owns w es (a :: others)) {p : PktPtr} (hfull : w.full = false)
    (hp : m.pkts a = some p.pkt) (haddr : p.addr ∉ w.front.map PktPtr.addr)
    (answer : Heap.Answer (Node ℕ)) :
    m.push answer a = (-1, m) ∨ ∃ m' n, m.push answer a = (0, m') ∧ m'.pkts = m.pkts ∧
      m'.Owns { w with front := p :: w.front, bufsize := w.bufsize + 1 } (⟨n, a, p⟩ :: es)
        others := by
  cases hn : answer.addr m.buffer.nodes with
  | none => exact .inl (h.push_refused (.inr hn) a)
  | some n =>
    obtain ⟨m', hpush, hpkts, hrep⟩ := h.toRepresents.push hfull hn hp h.not_mem.1 haddr
    refine .inr ⟨m', n, hpush, hpkts, hrep, fun b => ?_, List.nodup_middle.1 h.nodup_all⟩
    rw [hpkts, h.live, List.map_cons, List.mem_cons, List.mem_cons]
    tauto

/-- The buffer hands a packet to the program. -/
theorem popNode (h : m.Owns w es others) (hi : es[i]? = some e) :
    ∃ m', m.popNode (LinkedList.linkAt (es.map fun e => (e.node, e.addr)) i) =
        some (some e.addr, m') ∧
      w.popNode i = (some e.ptr, (w.popNode i).2) ∧ m'.pkts = m.pkts ∧
      m'.Owns (w.popNode i).2 (es.eraseIdx i) (e.addr :: others) := by
  have hlt := (List.getElem?_eq_some_iff.1 hi).1
  obtain ⟨m', hpop, hw, hpkts, hrep⟩ := h.toRepresents.popNode i hlt.le
  rw [hi] at hpop hw
  have hperm : (e.addr :: (es.eraseIdx i).map Entry.addr).Perm (es.map Entry.addr) := by
    have hp := (List.getElem_cons_eraseIdx_perm hlt).map Entry.addr
    rwa [List.map_cons, (List.getElem?_eq_some_iff.1 hi).2] at hp
  refine ⟨m', hpop, Prod.ext hw rfl, hpkts, hrep, fun b => ?_, ?_⟩
  · rw [hpkts, h.live, ← hperm.mem_iff, List.mem_cons, List.mem_cons]
    tauto
  · exact List.nodup_middle.2 ((hperm.append_right others).nodup_iff.2 h.nodup_all)

/-- At the null link nothing is popped. -/
theorem popNode_of_none (h : m.Owns w es others) (hi : es[i]? = none) (hle : i ≤ es.length) :
    ∃ m', m.popNode (LinkedList.linkAt (es.map fun e => (e.node, e.addr)) i) = some (none, m') ∧
      w.popNode i = (none, w) ∧ m'.pkts = m.pkts ∧ m'.Owns w es others := by
  obtain ⟨m', hpop, hw, hpkts, hrep⟩ := h.toRepresents.popNode i hle
  have hnone : w.front[i]? = none := by rw [h.front, List.getElem?_map, hi, Option.map_none]
  rw [hi] at hpop
  rw [Window.popNode_of_none hnone, List.eraseIdx_of_length_le (List.getElem?_eq_none_iff.1 hi)]
    at hrep
  exact ⟨m', hpop, Window.popNode_of_none hnone, hpkts, hrep, fun b => by rw [hpkts, h.live],
    h.nodup_all⟩

/-- The program changes a packet of the buffer. -/
theorem write_entry (h : m.Owns w es others) (he : e ∈ es) (p : Pkt) :
    ∃ m', m.write e.addr p = some m' ∧
      ∃ es', m'.Owns (w.store ⟨e.ptr.addr, p⟩) es' others ∧ ∀ b ∈ others, m'.pkts b = m.pkts b := by
  obtain ⟨m', hwrite, hpkts, hrep⟩ := h.toRepresents.write he p
  have hne : ∀ b ∈ others, b ≠ e.addr := by
    rintro b hb rfl
    exact List.disjoint_of_nodup_append h.nodup_all (List.mem_map_of_mem he) hb
  refine ⟨m', hwrite, _, ⟨hrep, fun b => ?_, ?_⟩, fun b hb => ?_⟩
  · rw [Represents.map_addr_write, hpkts, ← h.live]
    by_cases hb : b = e.addr
    · rw [hb, Function.update_self, h.pkts e he, Option.isSome_some, Option.isSome_some]
    · rw [Function.update_of_ne hb]
  · rw [Represents.map_addr_write]
    exact h.nodup_all
  · rw [hpkts, Function.update_of_ne (hne b hb)]

/-- Changing the numbers of the window. -/
theorem withFields (h : m.Owns w es others) {fields : Window}
    (hfields : fields = { w' with front := [] }) (hfront : w'.front = w.front) (hwf : w'.Wf) :
    { m with fields := fields }.Owns w' es others where
  toRepresents := h.toRepresents.withFields hfields hfront hwf
  live := h.live
  nodup_all := h.nodup_all

/-- `window_update_timestamp`, for a packet that carries the timestamp. -/
theorem updateTimestamp (h : m.Owns w es others) (old new : BitVec 32) :
    (m.updateTimestamp old new = some (-1, m) ∧ w.updateTimestamp old new = (-1, w)) ∨
    ∃ m' w' es', m.updateTimestamp old new = some (0, m') ∧
      w.updateTimestamp old new = (0, w') ∧ m'.Owns w' es' others ∧
      es'.map Entry.ids = es.map Entry.ids := by
  rcases h.toRepresents.updateTimestamp old new with hnone |
    ⟨m', w', es', hm, hw, hrep, hids, hlive⟩
  · exact .inl hnone
  · have haddrs : es'.map Entry.addr = es.map Entry.addr := by
      have hfst := congrArg (List.map Prod.fst) hids
      rwa [List.map_map, List.map_map] at hfst
    refine .inr ⟨m', w', es', hm, hw, ⟨hrep, fun b => ?_, haddrs ▸ h.nodup_all⟩, hids⟩
    rw [hlive, haddrs, h.live]

/-- `window_resize`. -/
theorem resize (h : m.Owns w es others) (n : ℕ) :
    (m.fields.resize n).1 = (w.resize n).1 ∧
      { m with fields := (m.fields.resize n).2 }.Owns (w.resize n).2 es others := by
  obtain ⟨hstatus, hrep⟩ := h.toRepresents.resize n
  exact ⟨hstatus, hrep, h.live, h.nodup_all⟩

/-- `window_slide`. -/
theorem slide (h : m.Owns w es others) :
    { m with fields := m.fields.slide }.Owns w.slide es others := by
  refine h.withFields ?_ rfl h.wf.slide
  rw [h.fields]
  rfl

end Owns

end Memory

end LosslessTransport
