import Mathlib.Logic.Function.Basic
import LosslessTransport.Lib.Links

/-!
# Singly linked lists in memory

A `Heap` is the objects of one type that are live, by address.  An access to an address where none
is, by a null or a dangling pointer, is undefined behaviour in C; here it has no result, and neither
has a second `free`.  So a function built from these accesses that has a result made none.

`LinkedList` is a list of nodes with its first link, and the loops over it: the search for a value,
the two searches for a *link* (the pointer that leads to a node, so that the node can be unlinked),
the removal of the node behind a link, and the release of all nodes.  The `fuel` of a loop counts
the tests of its condition.

`LinkedList.Represents l ns` says that the nodes of `ns` are those of the list, in this order, and
that no other node is live.  Under it every operation has a result, the one of `Links` and
`List.eraseIdx` at the same position, and releasing all nodes leaves none.
-/

/-- The live objects of one type. -/
abbrev Heap (α : Type) := ℕ → Option α

namespace Heap

variable {α : Type}

/-- Overwrite a live object. -/
def store (h : Heap α) (a : ℕ) (x : α) : Option (Heap α) :=
  (h a).map fun _ => Function.update h a (some x)

/-- `free`. -/
def free (h : Heap α) (a : ℕ) : Option (Heap α) :=
  (h a).map fun _ => Function.update h a none

/-- What one call of `calloc` or `malloc` for an object of this type returns: the null pointer, or
an address that is not in use.  Every call has an answer of its own, so that what it returns may
depend on anything. -/
structure Answer (α : Type) where
  addr : Heap α → Option ℕ
  fresh : ∀ {h a}, addr h = some a → h a = none

/-- There is no memory. -/
def Answer.null : Answer α where
  addr _ := none
  fresh := nofun

/-- The object is put at this address, unless it is in use. -/
def Answer.place (a : ℕ) : Answer α where
  addr h := if (h a).isNone then some a else none
  fresh {h b} hb := by
    obtain ⟨ha, hab⟩ := Option.ite_none_right_eq_some.1 hb
    exact Option.some.inj hab ▸ Option.isNone_iff_eq_none.1 ha

theorem store_of_live {h : Heap α} {a : ℕ} {x : α} (hx : h a = some x) (y : α) :
    h.store a y = some (Function.update h a (some y)) := by
  rw [store, hx, Option.map_some]

theorem free_of_live {h : Heap α} {a : ℕ} {x : α} (hx : h a = some x) :
    h.free a = some (Function.update h a none) := by
  rw [free, hx, Option.map_some]

end Heap

/-- A node of a list. -/
structure Node (α : Type) where
  value : α
  /-- The address of the next node; `none` is the null pointer. -/
  next : Option ℕ

/-- A pointer to a link: the first one, or the one in the node at an address. -/
inductive Link where
  | front
  | next (a : ℕ)
  deriving DecidableEq

/-- A list: its first link, and the memory of the nodes. -/
structure LinkedList (α : Type) where
  front : Option ℕ
  nodes : Heap (Node α)

namespace LinkedList

variable {α : Type}

/-- The empty list. -/
def empty : LinkedList α where
  front := none
  nodes := fun _ => none

variable (l : LinkedList α)

/-- Read a link. -/
def get : Link → Option (Option ℕ)
  | .front => some l.front
  | .next a => (l.nodes a).map Node.next

/-- Write a link. -/
def set : Link → Option ℕ → Option (LinkedList α)
  | .front, p => some { l with front := p }
  | .next a, p => do
    let n ← l.nodes a
    let nodes ← l.nodes.store a { n with next := p }
    some { l with nodes := nodes }

/-- The value of the node behind a link; none if the link is null. -/
def valueAt (link : Link) : Option α := do
  let a ← (← l.get link)
  (l.nodes a).map Node.value

/-- A new node in front; none if there is no memory. -/
def push (answer : Heap.Answer (Node α)) (x : α) : Option (LinkedList α) :=
  (answer.addr l.nodes).map fun a =>
    { front := some a, nodes := Function.update l.nodes a (some ⟨x, l.front⟩) }

/-- The value of the first node from `cur` on with `p`. -/
def find (p : α → Option Bool) : ℕ → Option ℕ → Option (Option α)
  | 0, _ => none
  | _ + 1, none => some none
  | fuel + 1, some a => do
    let n ← l.nodes a
    if ← p n.value then some (some n.value) else find p fuel n.next

/-- The link to the first node from `cur` on with `p`. -/
def findLink (p : α → Option Bool) : ℕ → Link → Option (Option Link)
  | 0, _ => none
  | fuel + 1, cur => do
    match ← l.get cur with
    | none => some none
    | some a => do
      let n ← l.nodes a
      if ← p n.value then some (some cur) else findLink p fuel (.next a)

/-- The link to the first node with the least key, from `cur` on or behind `min`. -/
def minLink (key : α → Option ℕ) : ℕ → Link → Link → Option Link
  | 0, _, _ => none
  | fuel + 1, min, cur => do
    match ← l.get cur with
    | none => some min
    | some a => do
      let n ← l.nodes a
      if (← key n.value) < (← key (← l.valueAt min)) then minLink key fuel cur (.next a)
      else minLink key fuel min (.next a)

/-- Unlink and free the node behind a link, and return its value. -/
def unlink (link : Link) : Option (Option α × LinkedList α) := do
  match ← l.get link with
  | none => some (none, l)
  | some a => do
    let n ← l.nodes a
    let l ← l.set link n.next
    let nodes ← l.nodes.free a
    some (some n.value, { l with nodes := nodes })

/-- Free the nodes from `cur` on. -/
def freeAll : ℕ → Option ℕ → Heap (Node α) → Option (Heap (Node α))
  | 0, _, _ => none
  | _ + 1, none, h => some h
  | fuel + 1, some a, h => do
    let n ← h a
    let h ← h.free a
    freeAll fuel n.next h

/-! ### The list in memory -/

/-- A chain of nodes from a pointer on, with their addresses, to the null pointer. -/
def Chain (h : Heap (Node α)) : Option ℕ → List (ℕ × α) → Prop
  | p, [] => p = none
  | p, n :: ns => p = some n.1 ∧ ∃ next, h n.1 = some ⟨n.2, next⟩ ∧ Chain h next ns

/-- The nodes of the list, with their addresses; no other node is live. -/
structure Represents (ns : List (ℕ × α)) : Prop where
  chain : Chain l.nodes l.front ns
  live : ∀ a, (l.nodes a).isSome ↔ a ∈ ns.map Prod.fst

/-- The link to the node at a position. -/
def linkAt (ns : List (ℕ × α)) : ℕ → Link
  | 0 => .front
  | i + 1 => ((ns[i]?).map fun n => Link.next n.1).getD .front

variable {l} {h h' : Heap (Node α)} {ns pre suf : List (ℕ × α)} {p : Option ℕ} {a i : ℕ}

/-- A chain is determined by where it starts. -/
theorem Chain.unique {ns ns' : List (ℕ × α)} (h₁ : Chain h p ns) (h₂ : Chain h p ns') :
    ns = ns' := by
  induction ns generalizing p ns' with
  | nil =>
    cases ns' with
    | nil => rfl
    | cons n ns' =>
      obtain ⟨hp, -⟩ := h₂
      exact absurd (h₁.symm.trans hp) (by simp)
  | cons n ns ih =>
    obtain ⟨rfl, next, hn, hchain⟩ := h₁
    cases ns' with
    | nil => cases h₂
    | cons n' ns' =>
      obtain ⟨hp, next', hn', hchain'⟩ := h₂
      rw [← Option.some.inj hp, hn] at hn'
      obtain ⟨hvalue, rfl⟩ := (Node.mk.injEq ..).mp (Option.some.inj hn')
      rw [Prod.ext (Option.some.inj hp) hvalue, ih hchain hchain']

theorem Chain.suffix {n : ℕ × α} (hc : Chain h p (pre ++ n :: suf)) :
    Chain h (some n.1) (n :: suf) := by
  induction pre generalizing p with
  | nil =>
    obtain ⟨-, hn⟩ := hc
    exact ⟨rfl, hn⟩
  | cons m pre ih =>
    obtain ⟨-, next, -, hchain⟩ := hc
    exact ih hchain

/-- No node is in a chain twice: it would go on from there as it did before. -/
theorem Chain.nodup (hc : Chain h p ns) : (ns.map Prod.fst).Nodup := by
  induction ns generalizing p with
  | nil => exact List.nodup_nil
  | cons n ns ih =>
    obtain ⟨rfl, hn⟩ := id hc
    obtain ⟨next, -, hchain⟩ := hn
    refine List.nodup_cons.2 ⟨fun hmem => ?_, ih hchain⟩
    obtain ⟨m, hm, hfst⟩ := List.mem_map.1 hmem
    obtain ⟨pre, suf, rfl⟩ := List.append_of_mem hm
    have hback := hchain.suffix
    rw [hfst] at hback
    have hlen := congrArg List.length (hback.unique hc)
    simp only [List.length_cons, List.length_append] at hlen
    omega

/-- A chain does not depend on the memory outside it. -/
theorem Chain.congr (hc : Chain h p ns) (heq : ∀ a ∈ ns.map Prod.fst, h' a = h a) :
    Chain h' p ns := by
  induction ns generalizing p with
  | nil => exact hc
  | cons n ns ih =>
    obtain ⟨hp, next, hn, hchain⟩ := hc
    refine ⟨hp, next, (heq _ (List.mem_cons_self ..)).trans hn, ih hchain fun a ha => ?_⟩
    exact heq a (List.mem_cons_of_mem _ ha)

/-- Another chain behind a node. -/
theorem Chain.splice {n : ℕ × α} {suf' : List (ℕ × α)} {q : Option ℕ}
    (hc : Chain h p (pre ++ n :: suf)) (hpre : ∀ a ∈ pre.map Prod.fst, h' a = h a)
    (hn : h' n.1 = some ⟨n.2, q⟩) (hq : Chain h' q suf') : Chain h' p (pre ++ n :: suf') := by
  induction pre generalizing p with
  | nil =>
    obtain ⟨hp, -⟩ := hc
    exact ⟨hp, q, hn, hq⟩
  | cons m pre ih =>
    obtain ⟨hp, next, hm, hchain⟩ := hc
    refine ⟨hp, next, (hpre _ (List.mem_cons_self ..)).trans hm, ih hchain fun a ha => ?_⟩
    exact hpre a (List.mem_cons_of_mem _ ha)

theorem Chain.start_eq (hc : Chain h p ns) : p = (ns.head?).map Prod.fst := by
  cases ns with
  | nil => exact hc
  | cons n ns => exact hc.1

/-- A node of a chain leads to the rest of it. -/
theorem Chain.node {n : ℕ × α} (hc : Chain h p (pre ++ n :: suf)) :
    h n.1 = some ⟨n.2, (suf.head?).map Prod.fst⟩ ∧ Chain h ((suf.head?).map Prod.fst) suf := by
  obtain ⟨-, next, hn, hchain⟩ := hc.suffix
  have hnext := hchain.start_eq
  exact ⟨hnext ▸ hn, hnext ▸ hchain⟩

theorem linkAt_append_cons (n : ℕ × α) :
    linkAt (pre ++ n :: suf) (pre.length + 1) = .next n.1 := by
  simp [linkAt]

/-- The link at a position leads to the rest of the list. -/
theorem Represents.get_linkAt (h : l.Represents (pre ++ suf)) :
    l.get (linkAt (pre ++ suf) pre.length) = some ((suf.head?).map Prod.fst) := by
  rcases List.eq_nil_or_concat pre with rfl | ⟨pre, n, rfl⟩
  · exact congrArg some h.chain.start_eq
  · rw [List.concat_eq_append, List.append_assoc, List.singleton_append] at h
    rw [List.concat_eq_append, List.length_append, List.length_singleton, List.append_assoc,
      List.singleton_append, linkAt_append_cons, get, h.chain.node.1, Option.map_some]

theorem Represents.valueAt {n : ℕ × α} (h : l.Represents (pre ++ n :: suf)) :
    l.valueAt (linkAt (pre ++ n :: suf) pre.length) = some n.2 := by
  rw [LinkedList.valueAt, h.get_linkAt]
  exact congrArg (Option.map Node.value) h.chain.node.1

theorem Represents.empty : (empty : LinkedList α).Represents [] := ⟨rfl, by simp [LinkedList.empty]⟩

/-! ### The loops -/

variable {q : α → Bool} {test : α → Option Bool} {key : α → Option ℕ} {k : α → ℕ} {fuel : ℕ}

/-- The search visits the nodes in order. -/
theorem Chain.find (hc : Chain l.nodes p ns) (htest : ∀ n ∈ ns, test n.2 = some (q n.2))
    (hfuel : ns.length < fuel) : l.find test fuel p = some ((ns.map Prod.snd).find? q) := by
  induction ns generalizing p fuel with
  | nil =>
    obtain ⟨fuel, rfl⟩ := Nat.exists_eq_succ_of_ne_zero (Nat.ne_of_gt hfuel)
    cases hc
    rfl
  | cons n ns ih =>
    obtain ⟨fuel, rfl⟩ := Nat.exists_eq_succ_of_ne_zero (Nat.ne_of_gt (Nat.zero_lt_of_lt hfuel))
    obtain ⟨rfl, next, hn, hchain⟩ := hc
    have hrest := ih hchain (fun m hm => htest m (List.mem_cons_of_mem _ hm))
      (Nat.lt_of_succ_lt_succ hfuel)
    have htest := htest n (List.mem_cons_self ..)
    rw [LinkedList.find, hn]
    simp only [Option.bind_eq_bind, Option.bind_some, htest, hrest, List.map_cons, List.find?_cons]
    cases q n.2 <;> rfl

theorem Represents.findLinkFrom (h : l.Represents (pre ++ suf))
    (htest : ∀ n ∈ suf, test n.2 = some (q n.2)) (hfuel : suf.length < fuel) :
    l.findLink test fuel (linkAt (pre ++ suf) pre.length) =
      some (((suf.map Prod.snd).findIdx? q).map fun i => linkAt (pre ++ suf) (pre.length + i)) := by
  induction suf generalizing pre fuel with
  | nil =>
    obtain ⟨fuel, rfl⟩ := Nat.exists_eq_succ_of_ne_zero (Nat.ne_of_gt hfuel)
    rw [LinkedList.findLink, h.get_linkAt]
    rfl
  | cons n suf ih =>
    obtain ⟨fuel, rfl⟩ := Nat.exists_eq_succ_of_ne_zero (Nat.ne_of_gt (Nat.zero_lt_of_lt hfuel))
    have h₁ : l.Represents ((pre ++ [n]) ++ suf) := by rwa [← List.append_cons]
    have hrest := ih h₁ (fun m hm => htest m (List.mem_cons_of_mem _ hm))
      (Nat.lt_of_succ_lt_succ hfuel)
    have htest := htest n (List.mem_cons_self ..)
    rw [List.append_assoc, List.singleton_append, List.length_append, List.length_singleton,
      linkAt_append_cons] at hrest
    rw [LinkedList.findLink, h.get_linkAt]
    simp only [Option.bind_eq_bind, Option.bind_some, List.head?_cons, Option.map_some,
      h.chain.node.1, htest, hrest, List.map_cons, List.findIdx?_cons]
    cases q n.2 with
    | true => rfl
    | false =>
      simp only [Bool.false_eq_true, if_false, Option.map_map, Function.comp_def, Nat.add_assoc,
        Nat.add_comm 1]

/-- The search for a link finds the position of the first node with the property. -/
theorem Represents.findLink (h : l.Represents ns) (htest : ∀ n ∈ ns, test n.2 = some (q n.2))
    (hfuel : ns.length < fuel) :
    l.findLink test fuel .front = some (((ns.map Prod.snd).findIdx? q).map (linkAt ns)) := by
  have h₀ : l.Represents ([] ++ ns) := h
  have hfrom := h₀.findLinkFrom htest hfuel
  simp only [List.nil_append, List.length_nil, Nat.zero_add] at hfrom
  exact hfrom

theorem Represents.minLinkFrom {m : ℕ × α} {min : ℕ} (h : l.Represents (pre ++ suf))
    (hmin : (pre ++ suf)[min]? = some m) (hkey : ∀ n ∈ pre ++ suf, key n.2 = some (k n.2))
    (hfuel : suf.length < fuel) :
    l.minLink key fuel (linkAt (pre ++ suf) min) (linkAt (pre ++ suf) pre.length) =
      some (linkAt (pre ++ suf)
        (Links.minLinkFrom k (k m.2) min pre.length (suf.map Prod.snd))) := by
  induction suf generalizing pre fuel min m with
  | nil =>
    obtain ⟨fuel, rfl⟩ := Nat.exists_eq_succ_of_ne_zero (Nat.ne_of_gt hfuel)
    rw [LinkedList.minLink, h.get_linkAt]
    rfl
  | cons n suf ih =>
    obtain ⟨fuel, rfl⟩ := Nat.exists_eq_succ_of_ne_zero (Nat.ne_of_gt (Nat.zero_lt_of_lt hfuel))
    have hmemn : n ∈ pre ++ n :: suf := by simp
    have hm : l.valueAt (linkAt (pre ++ n :: suf) min) = some m.2 := by
      obtain ⟨hlt, hget⟩ := List.getElem?_eq_some_iff.1 hmin
      have hsplit : (pre ++ n :: suf).take min ++ m :: (pre ++ n :: suf).drop (min + 1) =
          pre ++ n :: suf := by
        rw [← hget, ← List.drop_eq_getElem_cons hlt, List.take_append_drop]
      have hlen : ((pre ++ n :: suf).take min).length = min := by
        rw [List.length_take]
        omega
      have hval := Represents.valueAt (hsplit.symm ▸ h)
      rwa [hsplit, hlen] at hval
    -- the two cases of the comparison go on with another best node
    have hrest : ∀ {min m}, (pre ++ n :: suf)[min]? = some m →
        l.minLink key fuel (linkAt (pre ++ n :: suf) min) (.next n.1) =
          some (linkAt (pre ++ n :: suf)
            (Links.minLinkFrom k (k m.2) min (pre.length + 1) (suf.map Prod.snd))) := by
      intro min m hmin
      rw [List.append_cons] at h hmin hkey ⊢
      have hmore := ih h hmin hkey (Nat.lt_of_succ_lt_succ hfuel)
      rwa [List.length_append, List.length_singleton, List.append_assoc, List.singleton_append,
        linkAt_append_cons, ← List.singleton_append, ← List.append_assoc] at hmore
    have hn : (pre ++ n :: suf)[pre.length]? = some n := by simp
    rw [LinkedList.minLink, h.get_linkAt]
    simp only [Option.bind_eq_bind, Option.bind_some, List.head?_cons, Option.map_some,
      h.chain.node.1, hm, hkey n hmemn, hkey m (List.mem_of_getElem? hmin), List.map_cons,
      Links.minLinkFrom]
    split_ifs
    · exact hrest hn
    · exact hrest hmin

/-- The search for the least key is `Links.minLink`. -/
theorem Represents.minLink (h : l.Represents ns) (hkey : ∀ n ∈ ns, key n.2 = some (k n.2))
    (hfuel : ns.length < fuel) :
    l.minLink key fuel .front .front = some (linkAt ns (Links.minLink k (ns.map Prod.snd))) := by
  cases ns with
  | nil =>
    obtain ⟨fuel, rfl⟩ := Nat.exists_eq_succ_of_ne_zero (Nat.ne_of_gt hfuel)
    rw [LinkedList.minLink, LinkedList.get, h.chain]
    rfl
  | cons n ns =>
    have h₀ : l.Represents ([] ++ n :: ns) := h
    have hn : ([] ++ n :: ns)[0]? = some n := rfl
    exact h₀.minLinkFrom hn hkey hfuel

/-! ### Changing the list -/

/-- A push puts a node in front, unless there is no memory. -/
theorem Represents.push (h : l.Represents ns) {answer : Heap.Answer (Node α)}
    (ha : answer.addr l.nodes = some a) (x : α) :
    ∃ l', l.push answer x = some l' ∧ l'.Represents ((a, x) :: ns) := by
  refine ⟨_, by rw [LinkedList.push, ha, Option.map_some], ?_, fun b => ?_⟩
  · have hfree : a ∉ ns.map Prod.fst := by
      rw [← h.live, answer.fresh ha]
      exact Bool.false_ne_true
    refine ⟨rfl, _, Function.update_self .., h.chain.congr fun b hb => ?_⟩
    exact Function.update_of_ne (ne_of_mem_of_not_mem hb hfree) ..
  · rw [List.map_cons, List.mem_cons, ← h.live]
    by_cases hba : b = a
    · subst hba
      simp
    · simp [hba]

/-- Writing the link to a node so that it leads past it. -/
theorem Represents.set {n : ℕ × α} (h : l.Represents (pre ++ n :: suf)) :
    ∃ l', l.set (linkAt (pre ++ n :: suf) pre.length) ((suf.head?).map Prod.fst) = some l' ∧
      Chain l'.nodes l'.front (pre ++ suf) ∧ l'.nodes n.1 = l.nodes n.1 ∧
      ∀ a, (l'.nodes a).isSome = (l.nodes a).isSome := by
  have hsuf := h.chain.node.2
  rcases List.eq_nil_or_concat pre with rfl | ⟨pre, m, rfl⟩
  · exact ⟨_, rfl, hsuf, rfl, fun _ => rfl⟩
  rw [List.concat_eq_append, List.append_assoc, List.singleton_append] at h ⊢
  rw [List.length_append, List.length_singleton, linkAt_append_cons]
  have hm := h.chain.node.1
  -- the node before it is changed, and no other
  have hnodup := h.chain.nodup
  rw [List.map_append, List.map_cons, List.nodup_append, List.nodup_cons] at hnodup
  obtain ⟨-, ⟨hmsuf, -⟩, hdisj⟩ := hnodup
  refine ⟨_, by
    rw [LinkedList.set, hm]
    simp only [Option.bind_eq_bind, Option.bind_some, Heap.store_of_live hm]
    rfl, ?_, ?_, fun a => ?_⟩
  · rw [List.append_assoc, List.singleton_append]
    refine h.chain.splice (fun a ha => ?_) (Function.update_self ..) (hsuf.congr fun a ha => ?_)
    · exact Function.update_of_ne (hdisj a ha m.1 (List.mem_cons_self ..)) ..
    · exact Function.update_of_ne
        (ne_of_mem_of_not_mem (List.mem_cons_of_mem _ ha) hmsuf) ..
  · refine Function.update_of_ne ?_ ..
    exact ne_of_mem_of_not_mem (List.mem_cons_self ..) hmsuf
  · by_cases ha : a = m.1
    · subst ha
      simp [hm]
    · exact congrArg Option.isSome (Function.update_of_ne ha ..)

/-- **Unlinking** the node at a position takes it out of the list and out of the memory. -/
theorem Represents.unlink (h : l.Represents ns) {n : ℕ × α} (hi : ns[i]? = some n) :
    ∃ l', l.unlink (linkAt ns i) = some (some n.2, l') ∧ l'.Represents (ns.eraseIdx i) := by
  obtain ⟨pre, suf, rfl, rfl⟩ : ∃ pre suf, ns = pre ++ n :: suf ∧ i = pre.length := by
    obtain ⟨hlt, hget⟩ := List.getElem?_eq_some_iff.1 hi
    refine ⟨ns.take i, ns.drop (i + 1), ?_, ?_⟩
    · rw [← hget, ← List.drop_eq_getElem_cons hlt, List.take_append_drop]
    · rw [List.length_take]
      omega
  have herase : (pre ++ n :: suf).eraseIdx pre.length = pre ++ suf := by
    rw [List.eraseIdx_append_of_length_le (Nat.le_refl _), Nat.sub_self, List.eraseIdx_zero,
      List.tail_cons]
  have hnot : n.1 ∉ (pre ++ suf).map Prod.fst := by
    have hnodup := h.chain.nodup
    rw [List.map_append, List.map_cons, List.nodup_middle, ← List.map_append] at hnodup
    exact (List.nodup_cons.1 hnodup).1
  have hn := h.chain.node.1
  obtain ⟨l', hset, hchain, hkept, hlive⟩ := h.set
  rw [herase]
  refine ⟨{ l' with nodes := Function.update l'.nodes n.1 none }, ?_, ?_, fun a => ?_⟩
  · rw [LinkedList.unlink, h.get_linkAt]
    simp only [Option.bind_eq_bind, Option.bind_some, List.head?_cons, Option.map_some, hn, hset,
      Heap.free_of_live (hkept.trans hn)]
  · exact hchain.congr fun a ha => Function.update_of_ne (ne_of_mem_of_not_mem ha hnot) ..
  · have hmem : a ∈ (pre ++ n :: suf).map Prod.fst ↔ a = n.1 ∨ a ∈ (pre ++ suf).map Prod.fst := by
      simp only [List.map_append, List.map_cons, List.mem_append, List.mem_cons]
      tauto
    show (Function.update l'.nodes n.1 none a).isSome ↔ _
    by_cases ha : a = n.1
    · subst ha
      simp only [Function.update_self, Option.isSome_none, Bool.false_eq_true, hnot]
    · rw [Function.update_of_ne ha, hlive, h.live, hmem, or_iff_right ha]

/-- At the null link there is nothing to unlink. -/
theorem Represents.unlink_of_none (h : l.Represents ns) :
    l.unlink (linkAt ns ns.length) = some (none, l) := by
  have h₀ : l.Represents (ns ++ []) := by rwa [List.append_nil]
  have hget := h₀.get_linkAt
  rw [List.append_nil] at hget
  rw [LinkedList.unlink, hget]
  rfl

theorem Chain.freeAll (hc : Chain h p ns) (hfuel : ns.length < fuel) :
    freeAll fuel p h = some fun a => if a ∈ ns.map Prod.fst then none else h a := by
  have hnodup := hc.nodup
  induction ns generalizing p h fuel with
  | nil =>
    obtain ⟨fuel, rfl⟩ := Nat.exists_eq_succ_of_ne_zero (Nat.ne_of_gt hfuel)
    cases hc
    simp [LinkedList.freeAll]
  | cons n ns ih =>
    obtain ⟨fuel, rfl⟩ := Nat.exists_eq_succ_of_ne_zero (Nat.ne_of_gt (Nat.zero_lt_of_lt hfuel))
    obtain ⟨rfl, next, hn, hchain⟩ := hc
    obtain ⟨hnot, hnodup⟩ := List.nodup_cons.1 hnodup
    have hchain' : Chain (Function.update h n.1 none) next ns :=
      hchain.congr fun a ha => Function.update_of_ne (ne_of_mem_of_not_mem ha hnot) ..
    rw [LinkedList.freeAll, hn]
    simp only [Option.bind_eq_bind, Option.bind_some, Heap.free_of_live hn,
      ih hchain' (Nat.lt_of_succ_lt_succ hfuel) hnodup, Option.some.injEq]
    funext a
    simp only [List.map_cons, List.mem_cons]
    by_cases ha : a = n.1
    · subst ha
      simp
    · simp only [Function.update_of_ne ha, ha, false_or]

/-- **Freeing all nodes** leaves none. -/
theorem Represents.freeAll (h : l.Represents ns) (hfuel : ns.length < fuel) :
    LinkedList.freeAll fuel l.front l.nodes = some fun _ => none := by
  rw [h.chain.freeAll hfuel, Option.some.injEq]
  funext a
  split_ifs with ha
  · rfl
  · rw [← h.live, Option.not_isSome_iff_eq_none] at ha
    exact ha

end LinkedList
