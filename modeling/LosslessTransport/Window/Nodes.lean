import Mathlib.Data.Fintype.EquivFin
import Mathlib.Data.List.Find
import LosslessTransport.Lib.LinkedList
import LosslessTransport.Window.Pop

/-!
# The window in memory

`Memory` is the window as `window.c` has it: the nodes lie in memory and point to packets, which lie
in memory too.  Its functions walk the list from pointer to pointer, the searches for a packet to
pop by `struct node **`.  They have no result when they follow a pointer that is null or dangling,
and none when a loop takes more turns than there are packets.  What `calloc` returns, an address
that is not in use or the null pointer, is an argument of each call.

`Memory.Represents` connects this window with `Window`: there is a lemma for each function, and
`Memory.calls_safe` says that over any run of calls by a client that frees no packet in
the buffer, every call comes back and does what it does to a `Window`.
-/

namespace LosslessTransport

open Links

/-- A window, its nodes, and the packets. -/
structure Memory where
  /-- The fields of `struct window` but `front`, as a window without nodes: the functions that do
  not look at the nodes are those of `Window`. -/
  fields : Window
  /-- `front` and the nodes; the value of a node is the address of its packet. -/
  buffer : LinkedList ℕ
  pkts : Heap Pkt

namespace Memory

/-- `window_create` in a memory without nodes and packets. -/
def create (size maxSize maxSeqnum : ℕ) : Option Memory :=
  (Window.create size maxSize maxSeqnum).map fun w => ⟨w, .empty, fun _ => none⟩

variable (m : Memory)

/-- What `f` reads from the packet at an address. -/
def read {β : Type} (f : Pkt → β) (a : ℕ) : Option β := (m.pkts a).map f

/-- A loop over the nodes tests its condition at most so many times. -/
def turns : ℕ := m.fields.bufsize + 1

/-- `pkt_new`; none if there is no memory. -/
def pktNew (answer : Heap.Answer Pkt) : Option (ℕ × Memory) :=
  (answer.addr m.pkts).map fun a =>
    (a, { m with pkts := Function.update m.pkts a (some Pkt.new) })

/-- `pkt_del`, which does nothing for a null pointer. -/
def pktDel : Option ℕ → Option Memory
  | none => some m
  | some a => (m.pkts.free a).map fun pkts => { m with pkts := pkts }

/-- The packet at an address is overwritten. -/
def write (a : ℕ) (p : Pkt) : Option Memory :=
  (m.pkts.store a p).map fun pkts => { m with pkts := pkts }

/-- `window_push`. -/
def push (answer : Heap.Answer (Node ℕ)) (pkt : ℕ) : ℤ × Memory :=
  if m.fields.full then (-1, m)
  else
    match m.buffer.push answer pkt with
    | none => (-1, m)
    | some buffer =>
      (0, { m with buffer := buffer, fields := { m.fields with bufsize := m.fields.bufsize + 1 } })

/-- `window_find_seqnum`. -/
def findSeqnum (seqnum : ℕ) : Option (Option ℕ) :=
  m.buffer.find (m.read fun p => decide (p.getSeqnum.toNat = seqnum)) m.turns m.buffer.front

/-- `window_update_timestamp`. -/
def updateTimestamp (oldTime newTime : BitVec 32) : Option (ℤ × Memory) := do
  match ← m.buffer.find (m.read fun p => decide (p.getTimestamp = oldTime)) m.turns
    m.buffer.front with
  | none => some (-1, m)
  | some a => do
    let p ← m.pkts a
    let m ← m.write a (p.setTimestamp newTime).2
    some (0, m)

/-- `window_pop_node`. -/
def popNode (node : Link) : Option (Option ℕ × Memory) := do
  match ← m.buffer.unlink node with
  | (none, _) => some (none, m)
  | (some pkt, buffer) =>
    some (some pkt,
      { m with buffer := buffer, fields := { m.fields with bufsize := m.fields.bufsize - 1 } })

/-- `window_pop_timestamp`. -/
def popTimestamp (timestamp : BitVec 32) : Option (Option ℕ × Memory) := do
  let found ← m.buffer.findLink (m.read fun p => decide (p.getTimestamp = timestamp)) m.turns .front
  m.popNode (found.getD .front)

/-- `window_find_min_timestamp`. -/
def findMinTimestamp : Option Link :=
  m.buffer.minLink (m.read fun p => p.getTimestamp.toNat) m.turns .front .front

/-- `window_find_min_seqnum`. -/
def findMinSeqnum : Option Link :=
  m.buffer.minLink (m.read fun p => p.getSeqnum.toNat) m.turns .front .front

/-- The packet of the node behind a link, null if the link is. -/
def peek (node : Link) : Option (Option ℕ) := do
  match ← m.buffer.get node with
  | none => some none
  | some _ => (m.buffer.valueAt node).map some

/-- `window_peek_min_timestamp`. -/
def peekMinTimestamp : Option (Option ℕ) := m.findMinTimestamp.bind m.peek

/-- `window_pop_min_timestamp`. -/
def popMinTimestamp : Option (Option ℕ × Memory) := m.findMinTimestamp.bind m.popNode

/-- `window_peek_min_seqnum`. -/
def peekMinSeqnum : Option (Option ℕ) := m.findMinSeqnum.bind m.peek

/-- `window_pop_min_seqnum`. -/
def popMinSeqnum : Option (Option ℕ × Memory) := m.findMinSeqnum.bind m.popNode

/-- `window_free`: the nodes that are left. -/
def free : Option (Heap (Node ℕ)) := LinkedList.freeAll m.turns m.buffer.front m.buffer.nodes

/-! ### The window that is represented -/

/-- A node of the buffer: where it lies, where its packet lies, and the pointer to it. -/
structure Entry where
  node : ℕ
  addr : ℕ
  ptr : PktPtr

/-- Which packet a node points to, in memory and without. -/
def Entry.ids (e : Entry) : ℕ × ℕ := (e.addr, e.ptr.addr)

/-- The nodes are those of the window, and they point to different packets. -/
structure Represents (w : Window) (es : List Entry) : Prop where
  fields : m.fields = { w with front := [] }
  buffer : m.buffer.Represents (es.map fun e => (e.node, e.addr))
  front : w.front = es.map Entry.ptr
  pkts : ∀ e ∈ es, m.pkts e.addr = some e.ptr.pkt
  nodup : (es.map Entry.addr).Nodup
  nodup_front : (w.front.map PktPtr.addr).Nodup
  wf : w.Wf

variable {m} {m' : Memory} {w w' : Window} {es : List Entry} {e : Entry} {i a : ℕ}
  {answer : Heap.Answer (Node ℕ)}

theorem Represents.create {size maxSize maxSeqnum : ℕ}
    (h : create size maxSize maxSeqnum = some m) :
    ∃ w, Window.create size maxSize maxSeqnum = some w ∧ m.Represents w [] ∧
      m.pkts = fun _ => none := by
  obtain ⟨w, hw, rfl⟩ := Option.map_eq_some_iff.1 h
  refine ⟨w, hw, ⟨?_, .empty, ?_, nofun, .nil, ?_, .create hw⟩, rfl⟩
  all_goals
    unfold Window.create at hw
    split_ifs at hw
    cases hw
  · rfl
  · rfl
  · exact .nil

namespace Represents

variable (h : m.Represents w es)
include h

theorem length_lt : (es.map fun e => (e.node, e.addr)).length < m.turns := by
  have hlen : w.bufsize = es.length := by
    rw [h.wf.bufsize_eq, h.front, List.length_map]
  rw [List.length_map, turns, h.fields]
  exact Nat.lt_succ_of_le hlen.ge

theorem read {β : Type} (f : Pkt → β) (he : e ∈ es) : m.read f e.addr = some (f e.ptr.pkt) := by
  rw [Memory.read, h.pkts e he, Option.map_some]

/-- What a test of an address says of a packet in the buffer. -/
theorem getD_read {β : Type} (f : Pkt → β) (d : β) (he : e ∈ es) :
    (m.read f e.addr).getD d = f e.ptr.pkt := by
  rw [h.read f he, Option.getD_some]

omit h in
theorem map_snd : (es.map fun e => (e.node, e.addr)).map Prod.snd = es.map Entry.addr := by
  rw [List.map_map]
  rfl

/-- The packet of every node can be read. -/
theorem read_node {β : Type} (f : Pkt → β) (d : β) :
    ∀ n ∈ es.map fun e => (e.node, e.addr), m.read f n.2 = some ((m.read f n.2).getD d) := by
  intro n hn
  obtain ⟨e, he, rfl⟩ := List.mem_map.1 hn
  rw [h.getD_read f d he, h.read f he]

/-- Looking for a packet. -/
theorem find (f : Pkt → Bool) :
    m.buffer.find (m.read f) m.turns m.buffer.front =
        some ((es.find? fun e => f e.ptr.pkt).map Entry.addr) ∧
      w.front.find? (fun p => f p.pkt) = (es.find? fun e => f e.ptr.pkt).map Entry.ptr := by
  constructor
  · rw [h.buffer.chain.find (q := fun a => (m.read f a).getD false) (h.read_node f false)
      h.length_lt, map_snd,
      List.find?_map]
    exact congrArg (fun o => some (Option.map Entry.addr o))
      (List.find?_congr fun e he => h.getD_read f false he)
  · rw [h.front, List.find?_map]
    rfl

/-- Looking for the link to a packet. -/
theorem findLink (f : Pkt → Bool) :
    m.buffer.findLink (m.read f) m.turns .front =
      some ((w.front.findIdx? fun p => f p.pkt).map
        (LinkedList.linkAt (es.map fun e => (e.node, e.addr)))) := by
  rw [h.buffer.findLink (q := fun a => (m.read f a).getD false) (h.read_node f false)
    h.length_lt, map_snd,
    List.findIdx?_map, h.front, List.findIdx?_map]
  exact congrArg (fun i => some (Option.map _ i))
    (findIdx?_congr fun e he => h.getD_read f false he)

/-- Looking for the link to a packet with the least key. -/
theorem minLink (f : Pkt → ℕ) :
    m.buffer.minLink (m.read f) m.turns .front .front =
      some (LinkedList.linkAt (es.map fun e => (e.node, e.addr))
        (Links.minLink (fun p : PktPtr => f p.pkt) w.front)) := by
  rw [h.buffer.minLink (k := fun a => (m.read f a).getD 0) (h.read_node f 0)
    h.length_lt, map_snd,
    minLink_map, h.front, minLink_map]
  exact congrArg (fun i => some (LinkedList.linkAt _ i))
    (minLink_congr fun e he => h.getD_read f 0 he)

/-- **Popping** the node at a position: its packet is handed out and nothing else changes. -/
theorem popNode (i : ℕ) (hi : i ≤ es.length) :
    ∃ m', m.popNode (LinkedList.linkAt (es.map fun e => (e.node, e.addr)) i) =
        some ((es[i]?).map Entry.addr, m') ∧
      (w.popNode i).1 = (es[i]?).map Entry.ptr ∧ m'.pkts = m.pkts ∧
      m'.Represents (w.popNode i).2 (es.eraseIdx i) := by
  have hget : w.front[i]? = (es[i]?).map Entry.ptr := by rw [h.front, List.getElem?_map]
  cases he : es[i]? with
  | none =>
    obtain rfl : i = es.length := by
      have := List.getElem?_eq_none_iff.1 he
      omega
    rw [he] at hget
    refine ⟨m, ?_, by rw [Window.fst_popNode, hget], rfl, ?_⟩
    · have hnone := h.buffer.unlink_of_none
      rw [List.length_map] at hnone
      rw [Memory.popNode, hnone]
      rfl
    · rwa [Window.popNode_of_none hget, List.eraseIdx_of_length_le (le_refl _)]
  | some e =>
    rw [he] at hget
    have hnode : (es.map fun e => (e.node, e.addr))[i]? = some (e.node, e.addr) := by
      rw [List.getElem?_map, he]
      rfl
    obtain ⟨buffer, hunlink, hbuffer⟩ := h.buffer.unlink hnode
    have hpop := Window.popNode_of_some hget
    have hwf := h.wf.popNode i
    have hfront := h.nodup_front
    rw [h.front] at hfront
    rw [hpop] at hwf ⊢
    refine ⟨{ m with
      buffer := buffer
      fields := { m.fields with bufsize := m.fields.bufsize - 1 } }, ?_, rfl, rfl, ?_⟩
    · rw [Memory.popNode, hunlink]
      rfl
    · refine ⟨by rw [h.fields], by rwa [List.eraseIdx_map] at hbuffer, ?_, ?_, ?_, ?_, hwf⟩
      · show w.front.eraseIdx i = _
        rw [h.front, List.eraseIdx_map]
      · exact fun e' he' => h.pkts e' (mem_of_mem_eraseIdx he')
      · exact h.nodup.sublist ((List.eraseIdx_sublist es i).map _)
      · exact h.nodup_front.sublist ((List.eraseIdx_sublist w.front i).map _)

/-- The packet behind the link at a position. -/
theorem peek (i : ℕ) (hi : i ≤ es.length) :
    m.peek (LinkedList.linkAt (es.map fun e => (e.node, e.addr)) i) =
      some ((es[i]?).map Entry.addr) := by
  have hsplit := List.take_append_drop i es
  have hlen : ((es.take i).map fun e => (e.node, e.addr)).length = i := by
    rw [List.length_map, List.length_take, Nat.min_eq_left hi]
  have hb := h.buffer
  rw [← hsplit, List.map_append] at hb ⊢
  have hget := hb.get_linkAt
  rw [hlen] at hget
  rw [Memory.peek, hget]
  cases hdrop : es.drop i with
  | nil =>
    rw [List.append_nil, List.getElem?_eq_none (by rw [List.length_take]; omega)]
    rfl
  | cons e es' =>
    rw [hdrop] at hb
    have hval := LinkedList.Represents.valueAt hb
    rw [hlen] at hval
    simp only [List.map_cons, Option.bind_eq_bind, Option.bind_some, List.head?_cons,
      Option.map_some, hval]
    rw [List.getElem?_append_right (by rw [List.length_take]; omega), List.length_take,
      Nat.min_eq_left hi, Nat.sub_self]
    rfl

omit h in
theorem minLink_le (key : PktPtr → ℕ) (l : List PktPtr) : Links.minLink key l ≤ l.length := by
  by_cases hl : l = []
  · rw [hl]
    exact Nat.zero_le _
  · obtain ⟨x, hx⟩ := minLink_spec key hl
    exact Nat.le_of_lt (List.getElem?_eq_some_iff.1 hx.get).1

theorem length_front : w.front.length = es.length := by rw [h.front, List.length_map]

/-- `window_find_seqnum` finds the same packet. -/
theorem findSeqnum (s : ℕ) :
    m.findSeqnum s = some ((es.find? fun e => decide (e.ptr.seqnum = s)).map Entry.addr) ∧
      w.findSeqnum s = (es.find? fun e => decide (e.ptr.seqnum = s)).map Entry.ptr :=
  h.find fun p => decide (p.getSeqnum.toNat = s)

/-- `window_pop_timestamp` pops at the same position. -/
theorem popTimestamp (t : BitVec 32) : ∃ i ≤ es.length,
    m.popTimestamp t =
        m.popNode (LinkedList.linkAt (es.map fun e => (e.node, e.addr)) i) ∧
      w.popTimestamp t = w.popNode i := by
  have hfound := h.findLink fun p => decide (p.getTimestamp = t)
  rw [Memory.popTimestamp, hfound, Window.popTimestamp, ← h.length_front]
  change ∃ i ≤ w.front.length,
    m.popNode (((w.front.findIdx? fun cur => decide (cur.timestamp = t)).map _).getD .front) = _ ∧ _
  cases hidx : w.front.findIdx? fun cur => decide (cur.timestamp = t) with
  | none => exact ⟨0, Nat.zero_le _, rfl, rfl⟩
  | some i => exact ⟨i, Nat.le_of_lt (List.findIdx?_eq_some_iff_getElem.1 hidx).1, rfl, rfl⟩

/-- The searches for the least timestamp and sequence number stop at the same position. -/
theorem findMinTimestamp : m.findMinTimestamp =
    some (LinkedList.linkAt (es.map fun e => (e.node, e.addr)) w.findMinTimestamp) :=
  h.minLink fun p => p.getTimestamp.toNat

theorem findMinSeqnum : m.findMinSeqnum =
    some (LinkedList.linkAt (es.map fun e => (e.node, e.addr)) w.findMinSeqnum) :=
  h.minLink fun p => p.getSeqnum.toNat

theorem findMinTimestamp_le : w.findMinTimestamp ≤ es.length :=
  h.length_front ▸ minLink_le _ _

theorem findMinSeqnum_le : w.findMinSeqnum ≤ es.length :=
  h.length_front ▸ minLink_le _ _

theorem peekMinTimestamp : m.peekMinTimestamp = some ((es[w.findMinTimestamp]?).map Entry.addr) ∧
    w.peekMinTimestamp = (es[w.findMinTimestamp]?).map Entry.ptr := by
  constructor
  · rw [Memory.peekMinTimestamp, h.findMinTimestamp, Option.bind_some,
      h.peek _ h.findMinTimestamp_le]
  · rw [Window.peekMinTimestamp, ← List.getElem?_map, ← h.front]

theorem peekMinSeqnum : m.peekMinSeqnum = some ((es[w.findMinSeqnum]?).map Entry.addr) ∧
    w.peekMinSeqnum = (es[w.findMinSeqnum]?).map Entry.ptr := by
  constructor
  · rw [Memory.peekMinSeqnum, h.findMinSeqnum, Option.bind_some, h.peek _ h.findMinSeqnum_le]
  · rw [Window.peekMinSeqnum, ← List.getElem?_map, ← h.front]

/-- Packets outside the buffer do not matter. -/
theorem congr (hfields : m'.fields = m.fields) (hbuffer : m'.buffer = m.buffer)
    (hpkts : ∀ e ∈ es, m'.pkts e.addr = m.pkts e.addr) : m'.Represents w es where
  fields := hfields.trans h.fields
  buffer := hbuffer ▸ h.buffer
  front := h.front
  pkts e he := (hpkts e he).trans (h.pkts e he)
  nodup := h.nodup
  nodup_front := h.nodup_front
  wf := h.wf

/-- Changing the numbers of the window. -/
theorem withFields {fields : Window} (hfields : fields = { w' with front := [] })
    (hfront : w'.front = w.front) (hwf : w'.Wf) : { m with fields := fields }.Represents w' es where
  fields := hfields
  buffer := h.buffer
  front := hfront.trans h.front
  pkts := h.pkts
  nodup := h.nodup
  nodup_front := hfront ▸ h.nodup_front
  wf := hwf

/-- `window_slide_to` changes a number. -/
theorem slideTo (pos : ℕ) :
    (m.fields.slideTo pos = none ∧ w.slideTo pos = none) ∨
    ∃ fields w', m.fields.slideTo pos = some fields ∧ w.slideTo pos = some w' ∧
      fields = { w' with front := [] } ∧ w'.front = w.front ∧ w'.Wf := by
  have hwf : ∀ w', w.slideTo pos = some w' → w'.Wf := fun _ => h.wf.slideTo
  rw [h.fields]
  unfold Window.slideTo at hwf ⊢
  split_ifs at hwf ⊢
  · exact .inr ⟨_, _, rfl, rfl, rfl, rfl, hwf _ rfl⟩
  · exact .inl ⟨rfl, rfl⟩

/-- So does `window_resize`. -/
theorem resize (n : ℕ) :
    (m.fields.resize n).1 = (w.resize n).1 ∧
      { m with fields := (m.fields.resize n).2 }.Represents (w.resize n).2 es := by
  rcases Nat.lt_or_ge w.capacity n with hn | hn
  · have hfields : m.fields.resize n = (-1, m.fields) :=
      Window.resize_of_lt (by rw [h.fields]; exact hn)
    rw [Window.resize_of_lt hn, hfields]
    exact ⟨rfl, h⟩
  · have hfields : m.fields.resize n = (0, { m.fields with size := n }) :=
      Window.resize_of_le (by rw [h.fields]; exact hn)
    have hwf := h.wf.resize n
    rw [Window.resize_of_le hn] at hwf ⊢
    rw [hfields]
    exact ⟨rfl, h.withFields (by rw [h.fields]) rfl hwf⟩

theorem full_eq : m.fields.full = w.full := by
  rw [h.fields]
  rfl

/-- `window_push` is refused when the window is full or there is no memory. -/
theorem push_refused (hrefused : w.full = true ∨ answer.addr m.buffer.nodes = none) (a : ℕ) :
    m.push answer a = (-1, m) := by
  rw [Memory.push, h.full_eq]
  split_ifs with hfull
  · rfl
  · rw [LinkedList.push, hrefused.resolve_left hfull]
    rfl

/-- Otherwise it puts the packet in front. -/
theorem push {p : PktPtr} {n : ℕ} (hfull : w.full = false)
    (hn : answer.addr m.buffer.nodes = some n) (hp : m.pkts a = some p.pkt)
    (ha : a ∉ es.map Entry.addr) (haddr : p.addr ∉ w.front.map PktPtr.addr) :
    ∃ m', m.push answer a = (0, m') ∧ m'.pkts = m.pkts ∧
      m'.Represents { w with front := p :: w.front, bufsize := w.bufsize + 1 }
        (⟨n, a, p⟩ :: es) := by
  obtain ⟨buffer, hpush, hbuffer⟩ := h.buffer.push hn a
  have hwf := h.wf.push p
  rw [Window.push_of_not_full p hfull] at hwf
  refine ⟨{ m with
    buffer := buffer
    fields := { m.fields with bufsize := m.fields.bufsize + 1 } }, ?_, rfl, ?_⟩
  · rw [Memory.push, h.full_eq, if_neg (Bool.eq_false_iff.1 hfull), hpush]
  refine ⟨by rw [h.fields], hbuffer, by rw [h.front]; rfl, ?_, ?_, ?_, hwf⟩
  · exact List.forall_mem_cons.2 ⟨hp, h.pkts⟩
  · exact List.nodup_cons.2 ⟨ha, h.nodup⟩
  · exact List.nodup_cons.2 ⟨haddr, h.nodup_front⟩

/-- The packet of another node is another packet, in memory and without. -/
theorem addr_eq_iff {e' : Entry} (he' : e' ∈ es) (he : e ∈ es) :
    e'.addr = e.addr ↔ e'.ptr.addr = e.ptr.addr := by
  have hfront := h.nodup_front
  rw [h.front, List.map_map] at hfront
  constructor
  · intro heq
    rw [List.inj_on_of_nodup_map h.nodup he' he heq]
  · intro heq
    rw [List.inj_on_of_nodup_map hfront he' he heq]

omit h in
/-- Overwriting packets moves none. -/
theorem map_addr_write (p : PktPtr) :
    (es.map fun e' => if e'.addr = a then { e' with ptr := p } else e').map Entry.addr =
      es.map Entry.addr := by
  rw [List.map_map]
  refine List.map_congr_left fun e' _ => ?_
  simp only [Function.comp_apply]
  split_ifs <;> rfl

/-- Overwriting a packet moves none, in memory or without. -/
theorem map_ids_write (he : e ∈ es) (p : Pkt) :
    (es.map fun e' => if e'.addr = e.addr then { e' with ptr := ⟨e.ptr.addr, p⟩ } else e').map
      Entry.ids = es.map Entry.ids := by
  rw [List.map_map]
  refine List.map_congr_left fun e' he' => ?_
  simp only [Function.comp_apply]
  split_ifs with haddr
  · exact Prod.ext rfl ((h.addr_eq_iff he' he).1 haddr).symm
  · rfl

/-- Overwriting a packet of the buffer. -/
theorem write (he : e ∈ es) (p : Pkt) :
    ∃ m', m.write e.addr p = some m' ∧ m'.pkts = Function.update m.pkts e.addr (some p) ∧
      m'.Represents (w.store ⟨e.ptr.addr, p⟩)
        (es.map fun e' => if e'.addr = e.addr then { e' with ptr := ⟨e.ptr.addr, p⟩ } else e') := by
  refine ⟨_, by rw [Memory.write, Heap.store_of_live (h.pkts e he), Option.map_some], rfl, ?_⟩
  refine ⟨h.fields, ?_, ?_, ?_, (map_addr_write _).symm ▸ h.nodup, ?_, h.wf.store _⟩
  · rw [List.map_map]
    convert h.buffer using 2
    funext e'
    simp only [Function.comp_apply]
    split_ifs <;> rfl
  · rw [Window.store, h.front, List.map_map, List.map_map]
    refine List.map_congr_left fun e' he' => ?_
    simp only [Function.comp_apply, ← h.addr_eq_iff he' he]
    split_ifs <;> rfl
  · intro e₂ he₂
    obtain ⟨e', he', rfl⟩ := List.mem_map.1 he₂
    split_ifs with haddr
    · exact haddr ▸ Function.update_self ..
    · exact (Function.update_of_ne haddr ..).trans (h.pkts e' he')
  · rw [Window.map_addr_store]
    exact h.nodup_front

/-- What a pointer to a packet of the buffer points to now. -/
theorem deref (he : e ∈ es) {p : PktPtr} (hp : p.addr = e.ptr.addr) : w.deref p = e.ptr := by
  have hmem : e.ptr ∈ w.front := by
    rw [h.front]
    exact List.mem_map_of_mem he
  obtain ⟨q, hq⟩ : ∃ q, w.front.find? (fun cur => cur.addr = p.addr) = some q :=
    Option.isSome_iff_exists.1 (List.find?_isSome.2 ⟨e.ptr, hmem, by simpa using hp.symm⟩)
  have hqaddr : q.addr = p.addr := by simpa using List.find?_some hq
  rw [Window.deref, hq, Option.getD_some]
  exact List.inj_on_of_nodup_map h.nodup_front (List.mem_of_find?_eq_some hq) hmem
    (hqaddr.trans hp)

/-- `window_update_timestamp` changes the same packet. -/
theorem updateTimestamp (old new : BitVec 32) :
    (m.updateTimestamp old new = some (-1, m) ∧ w.updateTimestamp old new = (-1, w)) ∨
    ∃ m' w' es', m.updateTimestamp old new = some (0, m') ∧
      w.updateTimestamp old new = (0, w') ∧ m'.Represents w' es' ∧
      es'.map Entry.ids = es.map Entry.ids ∧ ∀ a, (m'.pkts a).isSome = (m.pkts a).isSome := by
  obtain ⟨hfind, hfront⟩ := h.find fun p => decide (p.getTimestamp = old)
  change (w.front.find? fun cur => decide (cur.timestamp = old)) = _ at hfront
  rw [Memory.updateTimestamp, hfind, Window.updateTimestamp, hfront]
  cases hfound : es.find? fun e => decide (e.ptr.pkt.getTimestamp = old) with
  | none => exact .inl ⟨rfl, rfl⟩
  | some e =>
    have he := List.mem_of_find?_eq_some hfound
    obtain ⟨m', hwrite, hpkts, hrep⟩ := h.write he (e.ptr.pkt.setTimestamp new).2
    refine .inr ⟨m', _, _, ?_, rfl, hrep, h.map_ids_write he _, fun a => ?_⟩
    · simp only [Option.map_some, Option.bind_eq_bind, Option.bind_some, h.pkts e he, hwrite]
    · rw [hpkts]
      by_cases ha : a = e.addr
      · rw [ha, Function.update_self, h.pkts e he, Option.isSome_some, Option.isSome_some]
      · rw [Function.update_of_ne ha]

/-- `window_free` frees the nodes, and no node is left. -/
theorem free : m.free = some fun _ => none := h.buffer.freeAll h.length_lt

end Represents

/-! ### Any run of calls -/

/-- A call of the client; one that makes a new object comes with the answer of `calloc`. -/
inductive Call where
  | slide
  | slideTo (pos : ℕ)
  | resize (newSize : ℕ)
  | push (pkt : ℕ) (answer : Heap.Answer (Node ℕ))
  | updateTimestamp (oldTime newTime : BitVec 32)
  | popTimestamp (timestamp : BitVec 32)
  | popMinTimestamp
  | popMinSeqnum
  /-- A new packet, filled in. -/
  | pktNew (p : Pkt) (answer : Heap.Answer Pkt)
  /-- A packet is changed in place. -/
  | write (a : ℕ) (p : Pkt)
  | pktDel (a : ℕ)

/-- The memory after the call; there is none when the call goes wrong. -/
def step (m : Memory) : Call → Option Memory
  | .slide => some { m with fields := m.fields.slide }
  | .slideTo pos => (m.fields.slideTo pos).map fun fields => { m with fields := fields }
  | .resize newSize => some { m with fields := (m.fields.resize newSize).2 }
  | .push pkt answer => some (m.push answer pkt).2
  | .updateTimestamp oldTime newTime => (m.updateTimestamp oldTime newTime).map Prod.snd
  | .popTimestamp timestamp => (m.popTimestamp timestamp).map Prod.snd
  | .popMinTimestamp => m.popMinTimestamp.map Prod.snd
  | .popMinSeqnum => m.popMinSeqnum.map Prod.snd
  | .pktNew p answer =>
    match m.pktNew answer with
    | none => some m
    | some (a, m) => m.write a p
  | .write a p => m.write a p
  | .pktDel a => m.pktDel (some a)

/-- A packet of which no node knows. -/
def Loose (m : Memory) (a : ℕ) : Prop :=
  (m.pkts a).isSome ∧ ∀ b n, m.buffer.nodes b = some n → n.value ≠ a

/-- What a client has to see to: it slides to a sequence number, pushes and frees only packets that
are live and not in the buffer, and changes only packets that are live. -/
def Allowed (m : Memory) : Call → Prop
  | .slideTo pos => pos ≤ m.fields.maxSeqnum
  | .push a _ | .pktDel a => m.Loose a
  | .write a _ => (m.pkts a).isSome
  | _ => True

/-- No packet in the buffer is loose. -/
theorem Represents.not_mem_of_loose (h : m.Represents w es) (ha : m.Loose a) :
    a ∉ es.map Entry.addr := by
  intro hmem
  obtain ⟨e, he, rfl⟩ := List.mem_map.1 hmem
  obtain ⟨pre, suf, hsplit⟩ := List.append_of_mem (List.mem_map_of_mem
    (f := fun e : Entry => (e.node, e.addr)) he)
  have hb := h.buffer
  rw [hsplit] at hb
  exact ha.2 e.node _ hb.chain.node.1 rfl

/-- What a `Window` does on the call: nothing, or one of its operations. -/
def Follows (w w' : Window) : Prop := w' = w ∨ ∃ op, w.apply op = some w'

theorem Follows.of_apply (op : Window.Op) (h : w.apply op = some w') : Follows w w' :=
  .inr ⟨op, h⟩

/-- The node at a position is popped. -/
theorem Represents.step_pop (h : m.Represents w es) {r : Option (Option ℕ × Memory)}
    (op : Window.Op) (hi : i ≤ es.length)
    (hr : r = m.popNode (LinkedList.linkAt (es.map fun e => (e.node, e.addr)) i))
    (hop : w.apply op = some (w.popNode i).2) :
    ∃ m' w' es', r.map Prod.snd = some m' ∧ m'.Represents w' es' ∧ Follows w w' := by
  obtain ⟨m', hpop, -, -, hrep⟩ := h.popNode i hi
  exact ⟨m', _, _, by rw [hr, hpop, Option.map_some], hrep, .of_apply op hop⟩

/-- A packet is overwritten, in the buffer or not. -/
theorem Represents.step_write (h : m.Represents w es) {p q : Pkt} (ha : m.pkts a = some q) :
    ∃ m' w' es', m.write a p = some m' ∧ m'.Represents w' es' ∧ Follows w w' := by
  by_cases hmem : a ∈ es.map Entry.addr
  · obtain ⟨e, he, rfl⟩ := List.mem_map.1 hmem
    obtain ⟨m', hwrite, -, hrep⟩ := h.write he p
    exact ⟨m', _, _, hwrite, hrep, .of_apply (.store ⟨e.ptr.addr, p⟩) rfl⟩
  · refine ⟨_, w, es, by rw [Memory.write, Heap.store_of_live ha, Option.map_some], ?_, .inl rfl⟩
    refine h.congr rfl rfl fun e he => ?_
    exact Function.update_of_ne (ne_of_mem_of_not_mem (List.mem_map_of_mem he) hmem) ..

/-- A packet is pushed, or refused. -/
theorem Represents.step_push (h : m.Represents w es) (ha : m.Loose a)
    (answer : Heap.Answer (Node ℕ)) :
    ∃ w' es', (m.push answer a).2.Represents w' es' ∧ Follows w w' := by
  by_cases hrefused : w.full = true ∨ answer.addr m.buffer.nodes = none
  · rw [h.push_refused hrefused]
    exact ⟨w, es, h, .inl rfl⟩
  · obtain ⟨hfull, hnode⟩ := not_or.1 hrefused
    rw [Bool.not_eq_true] at hfull
    obtain ⟨n, hn⟩ := Option.ne_none_iff_exists'.1 hnode
    obtain ⟨q, hq⟩ := Option.isSome_iff_exists.1 ha.1
    obtain ⟨k, hk⟩ := Infinite.exists_notMem_finset (w.front.map PktPtr.addr).toFinset
    rw [List.mem_toFinset] at hk
    obtain ⟨m', hpush, -, hrep⟩ := h.push (p := ⟨k, q⟩) hfull hn hq (h.not_mem_of_loose ha) hk
    rw [hpush]
    refine ⟨_, _, hrep, .of_apply (.push ⟨k, q⟩) ?_⟩
    rw [Window.apply, Window.push_of_not_full _ hfull]

/-- **A call of the client** comes back, whatever `calloc` answers, and the window does the same. -/
theorem Represents.step (h : m.Represents w es) {c : Call} (hc : m.Allowed c) :
    ∃ m' w' es', Memory.step m c = some m' ∧ m'.Represents w' es' ∧ Follows w w' := by
  cases c with
  | slide =>
    refine ⟨_, w.slide, es, rfl, h.withFields ?_ rfl h.wf.slide, .of_apply .slide rfl⟩
    rw [h.fields]
    rfl
  | slideTo pos =>
    rcases h.slideTo pos with ⟨hnone, -⟩ | ⟨fields, w', hm, hw, hfields, hfront, hwf⟩
    · rw [Window.slideTo, if_pos (show pos ≤ m.fields.maxSeqnum from hc)] at hnone
      cases hnone
    · exact ⟨_, w', es, by rw [Memory.step, hm, Option.map_some],
        h.withFields hfields hfront hwf, .of_apply (.slideTo pos) hw⟩
  | resize n => exact ⟨_, _, es, rfl, (h.resize n).2, .of_apply (.resize n) rfl⟩
  | push a answer =>
    obtain ⟨w', es', hrep, hfollows⟩ := h.step_push hc answer
    exact ⟨_, w', es', rfl, hrep, hfollows⟩
  | updateTimestamp old new =>
    rcases h.updateTimestamp old new with ⟨hm, hw⟩ | ⟨m', w', es', hm, hw, hrep, -⟩
    · exact ⟨m, w, es, by rw [Memory.step, hm]; rfl, h, .inl rfl⟩
    · refine ⟨m', w', es', by rw [Memory.step, hm]; rfl, hrep,
        .of_apply (.updateTimestamp old new) ?_⟩
      rw [Window.apply, hw]
  | popTimestamp t =>
    obtain ⟨i, hi, hm, hw⟩ := h.popTimestamp t
    exact h.step_pop (.popTimestamp t) hi hm (by rw [Window.apply, hw])
  | popMinTimestamp =>
    refine h.step_pop .popMinTimestamp h.findMinTimestamp_le ?_ rfl
    rw [popMinTimestamp, h.findMinTimestamp, Option.bind_some]
  | popMinSeqnum =>
    refine h.step_pop .popMinSeqnum h.findMinSeqnum_le ?_ rfl
    rw [popMinSeqnum, h.findMinSeqnum, Option.bind_some]
  | pktNew p answer =>
    rw [Memory.step]
    cases ha : answer.addr m.pkts with
    | none => exact ⟨m, w, es, by rw [pktNew, ha]; rfl, h, .inl rfl⟩
    | some a =>
      rw [pktNew, ha]
      have hnew : { m with pkts := Function.update m.pkts a (some Pkt.new) }.Represents w es := by
        refine h.congr rfl rfl fun e he => Function.update_of_ne ?_ ..
        rintro rfl
        have hfree := answer.fresh ha
        rw [h.pkts e he] at hfree
        cases hfree
      exact hnew.step_write (Function.update_self ..)
  | write a p =>
    obtain ⟨q, hq⟩ := Option.isSome_iff_exists.1 hc
    exact h.step_write hq
  | pktDel a =>
    obtain ⟨q, hq⟩ := Option.isSome_iff_exists.1 hc.1
    refine ⟨_, w, es, by rw [Memory.step, pktDel, Heap.free_of_live hq, Option.map_some], ?_,
      .inl rfl⟩
    refine h.congr rfl rfl fun e he => Function.update_of_ne ?_ ..
    exact ne_of_mem_of_not_mem (List.mem_map_of_mem he) (h.not_mem_of_loose hc)

theorem Represents.push_eq_zero_iff (h : m.Represents w es) (a : ℕ) :
    (m.push answer a).1 = 0 ↔ w.full = false ∧ (answer.addr m.buffer.nodes).isSome := by
  rw [Memory.push, h.full_eq, LinkedList.push]
  cases w.full <;> cases answer.addr m.buffer.nodes <;> simp

variable {m₀ : Memory} {size maxSize maxSeqnum : ℕ}

end Memory

end LosslessTransport
