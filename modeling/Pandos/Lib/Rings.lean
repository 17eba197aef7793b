import Mathlib.Data.Fintype.Card
import Mathlib.Data.List.Chain
import Pandos.Lib.Lists

/-!
# Circular doubly linked lists

The pointers behind `Lists`: every list has a sentinel, every node one link
field, and both are a pair of pointers. A list is the ring that starts at its
sentinel; a node on no list points to itself.

* `Represents`: the rings of the heap are the given lists;
* `Represents.listDel`, `Represents.listAdd`, `Represents.listAddTail`: the
  operations on pointers are `unlink`, `push` and `append`;
* `Represents.takeFirst`, `Represents.takeOut`: what is taken off a list is its
  first node, or the node looked for if it is there.
-/

namespace Intrusive
variable {H N : Type*}

/-- A `list_head`: the sentinel of a list or the link field of a node. -/
inductive Cell (H N : Type*)
  | head (h : H)
  | node (n : N)
  deriving DecidableEq

/-- `container_of`: the node a link field belongs to. -/
def Cell.containerOf : Cell H N → Option N
  | .head _ => none
  | .node n => some n

/-- The two pointers of every cell; `none` is `NULL`. -/
structure Heap (H N : Type*) where
  next : Cell H N → Option (Cell H N)
  prev : Cell H N → Option (Cell H N)

namespace Heap

/-! ## The operations

One that follows a `NULL` pointer has no result. -/

section operations
variable [DecidableEq H] [DecidableEq N] (m : Heap H N)

def setNext (a : Cell H N) (b : Option (Cell H N)) : Heap H N :=
  { m with next := Function.update m.next a b }

def setPrev (a : Cell H N) (b : Option (Cell H N)) : Heap H N :=
  { m with prev := Function.update m.prev a b }

/-- `INIT_LIST_HEAD`. -/
def initListHead (list : Cell H N) : Heap H N :=
  (m.setNext list list).setPrev list list

/-- `__list_add`. -/
def listAddBetween (new prev next : Cell H N) : Heap H N :=
  (((m.setPrev next new).setNext new next).setPrev new prev).setNext prev new

def listAdd (new head : Cell H N) : Option (Heap H N) := do
  let next ← m.next head
  return m.listAddBetween new head next

def listAddTail (new head : Cell H N) : Option (Heap H N) := do
  let prev ← m.prev head
  return m.listAddBetween new prev head

/-- `__list_del`. -/
def listBypass (prev next : Cell H N) : Heap H N :=
  (m.setPrev next prev).setNext prev next

def listDel (entry : Cell H N) : Option (Heap H N) := do
  let prev ← m.prev entry
  let next ← m.next entry
  return ((m.listBypass prev next).setNext entry none).setPrev entry none

/-- `listDel`, and the cell points to itself. -/
def listDeleteSafe (list : Cell H N) : Option (Heap H N) := do
  let m ← m.listDel list
  return m.initListHead list

/-- `listAddTail` of a cell that may be on a list. -/
def listAddTailSafe (new lista : Cell H N) : Option (Heap H N) := do
  let m ← m.listDeleteSafe new
  m.listAddTail new lista

def listEmpty (head : Cell H N) : Bool := decide (m.next head = some head)

/-- `list_for_each` from `pos` on, left at `entry`: is it met before `head`? -/
def listFind (head entry : Cell H N) : Nat → Cell H N → Option Bool
  | 0, _ => none
  | fuel + 1, pos =>
    if pos = head then some false
    else if entry = pos then some true
    else (m.next pos).bind (listFind head entry fuel)

/-- `list_for_each` from `pos` on: the nodes met before `head`. -/
def listNodes (head : Cell H N) : Nat → Cell H N → Option (List N)
  | 0, _ => none
  | fuel + 1, pos =>
    if pos = head then some []
    else
      pos.containerOf.bind fun n =>
      (m.next pos).bind fun next =>
      (listNodes head fuel next).map (n :: ·)

/-- Take the first node off a list; no node if it is empty. -/
def takeFirst (head : Cell H N) : Option (Option N × Heap H N) :=
  if m.listEmpty head then some (none, m)
  else
    (m.next head).bind fun next =>
    next.containerOf.bind fun n =>
    (m.listDeleteSafe (.node n)).map (some n, ·)

/-- Look for a node on a list, and take it off if it is there. -/
def takeOut (fuel : Nat) (head : Cell H N) (n : N) : Option (Option N × Heap H N) :=
  (m.next head).bind fun pos =>
  (m.listFind head (.node n) fuel pos).bind fun present =>
  if present then (m.listDeleteSafe (.node n)).map (some n, ·) else some (none, m)

end operations

/-! ## Edges -/

/-- `b` follows `a`, and both agree on it. -/
def Edge (m : Heap H N) (a b : Cell H N) : Prop := m.next a = some b ∧ m.prev b = some a

instance [DecidableEq H] [DecidableEq N] (m : Heap H N) (a b : Cell H N) :
    Decidable (m.Edge a b) := inferInstanceAs (Decidable (_ ∧ _))

section edges
variable {m : Heap H N} {a b c n p q : Cell H N}

theorem Edge.next_unique (h : m.Edge a b) (h' : m.Edge a c) : b = c :=
  Option.some.inj (h.1.symm.trans h'.1)

theorem Edge.prev_unique (h : m.Edge a c) (h' : m.Edge b c) : a = b :=
  Option.some.inj (h.2.symm.trans h'.2)

variable [DecidableEq H] [DecidableEq N]

theorem edge_init : (m.initListHead a).Edge a a := by
  simp [Edge, initListHead, setNext, setPrev]

theorem Edge.init (h : m.Edge a b) (ha : a ≠ n) (hb : b ≠ n) : (m.initListHead n).Edge a b := by
  simpa [Edge, initListHead, setNext, setPrev, ha, hb] using h

theorem edge_add_left : (m.listAddBetween n p q).Edge p n := by
  simp [Edge, listAddBetween, setNext, setPrev]

theorem edge_add_right (hp : p ≠ n) (hq : q ≠ n) : (m.listAddBetween n p q).Edge n q := by
  simp [Edge, listAddBetween, setNext, setPrev, hp.symm, hq]

/-- Every other edge stays. -/
theorem Edge.add (hpq : m.Edge p q) (h : m.Edge a b) (ha : a ≠ n) (hb : b ≠ n) (hq : b ≠ q) :
    (m.listAddBetween n p q).Edge a b := by
  have hp : a ≠ p := by
    rintro rfl
    exact hq (h.next_unique hpq)
  simpa [Edge, listAddBetween, setNext, setPrev, ha, hb, hp, hq] using h

theorem listAdd_of_edge (h : m.Edge p q) : m.listAdd n p = some (m.listAddBetween n p q) := by
  simp [listAdd, h.1]

theorem listAddTail_of_edge (h : m.Edge p q) :
    m.listAddTail n q = some (m.listAddBetween n p q) := by
  simp [listAddTail, h.2]

/-- The heap after `listDel` of the cell between `p` and `q`. -/
def cut (m : Heap H N) (n p q : Cell H N) : Heap H N :=
  ((m.listBypass p q).setNext n none).setPrev n none

theorem listDel_of_edges (hp : m.Edge p n) (hq : m.Edge n q) :
    m.listDel n = some (m.cut n p q) := by
  simp [listDel, cut, hp.2, hq.1]

theorem edge_cut (hp : p ≠ n) (hq : q ≠ n) : (m.cut n p q).Edge p q := by
  simp [Edge, cut, listBypass, setNext, setPrev, hp, hq]

/-- Every edge not at the deleted cell stays. -/
theorem Edge.cut (hp : m.Edge p n) (hq : m.Edge n q) (h : m.Edge a b) (ha : a ≠ n) (hb : b ≠ n) :
    (m.cut n p q).Edge a b := by
  have hap : a ≠ p := by
    rintro rfl
    exact hb (h.next_unique hp)
  have hbq : b ≠ q := by
    rintro rfl
    exact ha (h.prev_unique hq)
  simpa [Edge, Heap.cut, listBypass, setNext, setPrev, ha, hb, hap, hbq] using h

end edges

/-! ## Rings -/

/-- The cells of a list, from its sentinel round to it again. -/
def ring (h : H) (l : List N) : List (Cell H N) := .head h :: (l.map .node ++ [.head h])

@[simp] theorem mem_ring_node {h : H} {l : List N} {n : N} : .node n ∈ ring h l ↔ n ∈ l := by
  simp [ring]

@[simp] theorem mem_ring_head {h k : H} {l : List N} : .head k ∈ ring h l ↔ k = h := by
  simp [ring]

theorem nodup_tail_ring {h : H} {l : List N} (hl : l.Nodup) : (ring h l).tail.Nodup := by
  have hm : (l.map (.node : N → Cell H N)).Nodup := hl.map fun a b e => Cell.node.inj e
  exact hm.append (by simp) (by simp)

/-- A node between two parts of a list is between two cells of its ring. -/
theorem exists_ring_split (h : H) (u v : List N) : ∃ s p q t,
    ring h (u ++ v) = s ++ p :: q :: t ∧
    (∀ n, ring h (u ++ n :: v) = s ++ p :: .node n :: q :: t) ∧
    (u = [] → p = .head h) ∧ (v = [] → q = .head h) := by
  obtain ⟨s, p, hs⟩ : ∃ s p, (.head h :: u.map .node : List (Cell H N)) = s ++ [p] :=
    ⟨_, _, (List.dropLast_concat_getLast (List.cons_ne_nil _ _)).symm⟩
  obtain ⟨q, t, ht⟩ : ∃ q t, (v.map .node ++ [.head h] : List (Cell H N)) = q :: t :=
    List.exists_cons_of_ne_nil (by simp)
  refine ⟨s, p, q, t, ?_, fun n => ?_, ?_, ?_⟩
  · calc ring h (u ++ v)
        = (.head h :: u.map .node) ++ (v.map .node ++ [.head h]) := by simp [ring]
      _ = s ++ p :: q :: t := by simp [hs, ht]
  · calc ring h (u ++ n :: v)
        = (.head h :: u.map .node) ++ .node n :: (v.map .node ++ [.head h]) := by simp [ring]
      _ = s ++ p :: .node n :: q :: t := by simp [hs, ht]
  · rintro rfl
    have := congrArg List.getLast? hs
    simpa [eq_comm] using this
  · rintro rfl
    simp at ht
    exact ht.1.symm

section chains
variable {α : Type*} {R S : α → α → Prop} {n p q : α} {s t : List α}

/-- A chain with one element taken out. -/
theorem chain_cut (h : (s ++ p :: n :: q :: t).IsChain R) (hs : n ∉ s ++ [p]) (ht : n ∉ q :: t)
    (keep : ∀ a b, R a b → a ≠ n → b ≠ n → S a b) (hpq : S p q) :
    (s ++ p :: q :: t).IsChain S := by
  have away : ∀ {l : List α}, n ∉ l → l.IsChain R → l.IsChain S := by
    intro l hl h
    refine h.imp_of_mem_imp fun a b ha hb hab => keep a b hab ?_ ?_
    · exact fun e => hl (e ▸ ha)
    · exact fun e => hl (e ▸ hb)
  obtain ⟨hsp, -, h⟩ := List.isChain_append_cons_cons.mp h
  obtain ⟨-, hqt⟩ := List.isChain_cons_cons.mp h
  exact List.isChain_append_cons_cons.mpr ⟨away hs hsp, hpq, away ht hqt⟩

/-- A chain with one element put in. -/
theorem chain_add (h : (s ++ p :: q :: t).IsChain R) (hd : (s ++ p :: q :: t).tail.Nodup)
    (keep : ∀ a b, a ∈ s ++ p :: q :: t → b ∈ s ++ p :: q :: t → R a b → b ≠ q → S a b)
    (hpn : S p n) (hnq : S n q) : (s ++ p :: n :: q :: t).IsChain S := by
  obtain ⟨hsp, -, hqt⟩ := List.isChain_append_cons_cons.mp h
  have hd : ((s ++ [p]).tail ++ q :: t).Nodup := by
    cases s with
    | nil => simpa using hd
    | cons a s => simpa using hd
  have hd := List.nodup_append.mp hd
  refine List.isChain_append_cons_cons.mpr ⟨?_, hpn, List.isChain_cons_cons.mpr ⟨hnq, ?_⟩⟩
  · refine hsp.imp_of_mem_tail_imp fun a b ha hb hab => keep a b ?_ ?_ hab ?_
    · simp at ha ⊢; tauto
    · have := List.mem_of_mem_tail hb
      simp at this ⊢; tauto
    · exact hd.2.2 b hb q (by simp)
  · refine hqt.imp_of_mem_tail_imp fun a b ha hb hab => keep a b ?_ ?_ hab ?_
    · simp at ha ⊢; tauto
    · simp at hb ⊢; tauto
    · rintro rfl
      exact (List.nodup_cons.mp hd.2.1).1 hb

end chains

/-! ## Heaps that hold lists -/

/-- Of the cells in `live`, which are those that have been initialised, the
sentinels start the rings of `L` and the nodes are on them or by themselves. -/
structure Represents (m : Heap H N) (live : Set (Cell H N)) (L : Lists H N) : Prop where
  apart : L.Apart
  mem_live : ∀ {h n}, n ∈ L h → .head h ∈ live ∧ .node n ∈ live
  chain : ∀ h, .head h ∈ live → (ring h (L h)).IsChain m.Edge
  alone : ∀ n, .node n ∈ live → (∀ h, n ∉ L h) → m.Edge (.node n) (.node n)

namespace Represents
variable {m : Heap H N} {live : Set (Cell H N)} {L : Lists H N} {h k : H} {n : N} {a : Cell H N}

/-- Once every cell is initialised, all lists are empty. -/
theorem reset : Represents ⟨some, some⟩ Set.univ (fun _ => [] : Lists H N) where
  apart := ⟨fun _ => .nil, fun hn => by cases hn⟩
  mem_live hn := by cases hn
  chain h _ := List.isChain_cons_cons.mpr ⟨⟨rfl, rfl⟩, .singleton _⟩
  alone _ _ _ := ⟨rfl, rfl⟩

/-- Nothing is initialised yet. -/
theorem blank (m : Heap H N) : m.Represents ∅ (fun _ => [] : Lists H N) where
  apart := ⟨fun _ => .nil, fun hn => by cases hn⟩
  mem_live hn := by cases hn
  chain _ hh := hh.elim
  alone _ hn := hn.elim

theorem ring_live (hR : m.Represents live L) (hh : .head h ∈ live) (ha : a ∈ ring h (L h)) :
    a ∈ live := by
  cases a with
  | head k => exact mem_ring_head.mp ha ▸ hh
  | node n => exact (hR.mem_live (mem_ring_node.mp ha)).2

/-- Rings of different lists have no cell in common. -/
theorem ring_disjoint (hR : m.Represents live L) (hk : k ≠ h) (ha : a ∈ ring k (L k)) :
    a ∉ ring h (L h) := by
  intro ha'
  cases a with
  | head j => exact hk ((mem_ring_head.mp ha).symm.trans (mem_ring_head.mp ha'))
  | node n => exact hk (hR.apart.unique (mem_ring_node.mp ha) (mem_ring_node.mp ha'))

/-- Where a list is split, an edge joins the parts. -/
theorem exists_split (hR : m.Represents live L) (hh : .head h ∈ live) {u v : List N}
    (hL : L h = u ++ v) : ∃ s p q t, ring h (L h) = s ++ p :: q :: t ∧ m.Edge p q ∧
      (∀ n, ring h (u ++ n :: v) = s ++ p :: .node n :: q :: t) ∧
      (u = [] → p = .head h) ∧ (v = [] → q = .head h) := by
  obtain ⟨s, p, q, t, hs, hn, hp, hq⟩ := exists_ring_split h u v
  rw [← hL] at hs
  have hc := hR.chain h hh
  rw [hs] at hc
  exact ⟨s, p, q, t, hs, (List.isChain_append_cons_cons.mp hc).2.1, hn, hp, hq⟩

/-- The first node of a list, or the sentinel, follows the sentinel. -/
theorem next_head (hR : m.Represents live L) (hh : .head h ∈ live) :
    m.next (.head h) = some ((L h).head?.elim (.head h) .node) := by
  have hc := hR.chain h hh
  cases hL : L h with
  | nil =>
    rw [hL] at hc
    exact (List.isChain_cons_cons.mp hc).1.1
  | cons n l =>
    rw [hL] at hc
    exact (List.isChain_cons_cons.mp hc).1.1

/-- Every initialised cell has a neighbour on either side. -/
theorem edges (hR : m.Represents live L) (ha : a ∈ live) : ∃ p q, m.Edge p a ∧ m.Edge a q := by
  cases a with
  | head h =>
    obtain ⟨-, p', q, -, -, hn, -, hp', -⟩ := hR.exists_split ha (List.nil_append (L h)).symm
    obtain ⟨-, p, q', -, -, hp, -, -, hq'⟩ := hR.exists_split ha (List.append_nil (L h)).symm
    exact ⟨p, q, hq' rfl ▸ hp, hp' rfl ▸ hn⟩
  | node n =>
    by_cases hn : ∃ h, n ∈ L h
    · obtain ⟨h, hn⟩ := hn
      obtain ⟨u, v, hL⟩ := List.append_of_mem hn
      obtain ⟨s, p, q, t, -, hs, -, -⟩ := exists_ring_split h u v
      have hc := hR.chain h (hR.mem_live hn).1
      rw [hL, hs] at hc
      have hc := (List.isChain_append_cons_cons.mp hc).2
      exact ⟨p, q, hc.1, (List.isChain_cons_cons.mp hc.2).1⟩
    · have := hR.alone n ha (not_exists.mp hn)
      exact ⟨_, _, this, this⟩

/-- The next of the previous cell is the cell, and the previous of the next. -/
theorem inverse (hR : m.Represents live L) (ha : a ∈ live) :
    (m.prev a).bind m.next = some a ∧ (m.next a).bind m.prev = some a := by
  obtain ⟨p, q, hp, hq⟩ := hR.edges ha
  exact ⟨by simp [hp.2, hp.1], by simp [hq.1, hq.2]⟩

variable [DecidableEq H] [DecidableEq N]

theorem listEmpty_iff (hR : m.Represents live L) (hh : .head h ∈ live) :
    m.listEmpty (.head h) = true ↔ L h = [] := by
  simp only [listEmpty, hR.next_head hh, decide_eq_true_eq]
  cases L h <;> simp

/-- A cell that was not initialised is one now. -/
theorem initListHead (hR : m.Represents live L) (ha : a ∉ live) :
    (m.initListHead a).Represents (insert a live) L where
  apart := hR.apart
  mem_live hn := (hR.mem_live hn).imp .inr .inr
  chain h hh := by
    rcases hh with rfl | hh
    · -- nothing is on the list of a sentinel that was not initialised
      have : L h = [] := List.eq_nil_iff_forall_not_mem.mpr fun n hn => ha (hR.mem_live hn).1
      simpa [ring, this] using edge_init
    · refine (hR.chain h hh).imp_of_mem_imp fun b c hb hc hbc => hbc.init ?_ ?_
      · exact fun e => ha (e ▸ hR.ring_live hh hb)
      · exact fun e => ha (e ▸ hR.ring_live hh hc)
  alone n hn ho := by
    rcases hn with rfl | hn
    · exact edge_init
    · have : Cell.node n ≠ a := fun e => ha (e ▸ hn)
      exact (hR.alone n hn ho).init this this

omit [DecidableEq H] [DecidableEq N] in
/-- Fewer cells are known to be initialised. -/
theorem shrink {live' : Set (Cell H N)} (hR : m.Represents live L) (hs : live' ⊆ live)
    (hm : ∀ {h n}, n ∈ L h → .head h ∈ live' ∧ .node n ∈ live') : m.Represents live' L where
  apart := hR.apart
  mem_live := hm
  chain h hh := hR.chain h (hs hh)
  alone n hn := hR.alone n (hs hn)

/-- A cell can be initialised unless it has neighbours. -/
theorem renew (hR : m.Represents live L) (ha : a ∈ live → m.Edge a a) :
    (m.initListHead a).Represents (insert a live) L := by
  by_cases hl : a ∈ live
  · have hsame : m.initListHead a = m := by
      obtain ⟨hn, hp⟩ := ha hl
      have hnext : Function.update m.next a (some a) = m.next := by
        rw [← hn, Function.update_eq_self]
      have hprev : Function.update m.prev a (some a) = m.prev := by
        rw [← hp, Function.update_eq_self]
      simp only [Heap.initListHead, setNext, setPrev, hnext, hprev]
    rwa [hsame, Set.insert_eq_of_mem hl]
  · exact hR.initListHead hl

/-- Put between two neighbours of a ring, a node is on its list. -/
theorem listAddBetween (hR : m.Represents live L) (hh : .head h ∈ live) (hn : ∀ k, n ∉ L k)
    {u v : List N} (hL : L h = u ++ v) : ∃ p q, m.Edge p q ∧ (u = [] → p = .head h) ∧
      (v = [] → q = .head h) ∧ (m.listAddBetween (.node n) p q).Represents
        (insert (.node n) live) (Function.update L h (u ++ n :: v)) := by
  obtain ⟨s, p, q, t, hs, hpq, hr, hp, hq⟩ := hR.exists_split hh hL
  have fresh : ∀ {k b}, b ∈ ring k (L k) → b ≠ .node n := fun hb e =>
    hn _ (mem_ring_node.mp (e ▸ hb))
  have hpm : p ∈ ring h (L h) := by simp [hs]
  have hqm : q ∈ ring h (L h) := by simp [hs]
  have mem : ∀ {k x}, x ∈ Function.update L h (u ++ n :: v) k ↔ x ∈ L k ∨ k = h ∧ x = n := by
    intro k x
    by_cases hk : k = h
    · subst hk
      simp [hL]
      tauto
    · simp [hk]
  refine ⟨p, q, hpq, hp, hq, ?_, ?_, ?_, ?_⟩
  · refine hR.apart.link hn ?_ (fun k hk => Function.update_of_ne hk _ _) fun k x => mem.mp
    have := hR.apart.nodup h
    have := hn h
    simp only [Function.update_self]
    grind
  · intro k x hx
    rcases mem.mp hx with hx | ⟨rfl, rfl⟩
    · exact (hR.mem_live hx).imp .inr .inr
    · exact ⟨.inr hh, .inl rfl⟩
  · intro k hk
    have hk : Cell.head k ∈ live := hk.resolve_left (by simp)
    by_cases hkh : k = h
    · subst hkh
      have hc := hR.chain k hk
      have hd := nodup_tail_ring (h := k) (hR.apart.nodup k)
      simp only [Function.update_self, hr]
      rw [hs] at hc hd
      refine chain_add hc hd (fun a b ha hb hab => hpq.add hab ?_ ?_) edge_add_left
        (edge_add_right (fresh hpm) (fresh hqm))
      · exact fresh (hs ▸ ha)
      · exact fresh (hs ▸ hb)
    · rw [Function.update_of_ne hkh]
      refine (hR.chain k hk).imp_of_mem_imp fun a b ha hb hab => hpq.add hab (fresh ha) (fresh hb) ?_
      rintro rfl
      exact hR.ring_disjoint hkh hb hqm
  · intro x hx ho
    have hxn : x ≠ n := by
      rintro rfl
      exact ho h (mem.mpr (.inr ⟨rfl, rfl⟩))
    have hx : Cell.node x ∈ live := hx.resolve_left (by simpa using hxn)
    have ho : ∀ k, x ∉ L k := fun k hk => ho k (mem.mpr (.inl hk))
    refine hpq.add (hR.alone x hx ho) (by simpa using hxn) (by simpa using hxn) ?_
    rintro rfl
    exact ho h (mem_ring_node.mp hqm)

/-- `listAdd` of a node that is on no list is `push`. -/
theorem listAdd (hR : m.Represents live L) (hh : .head h ∈ live) (hn : ∀ k, n ∉ L k) :
    ∃ m', m.listAdd (.node n) (.head h) = some m' ∧
      m'.Represents (insert (.node n) live) (L.push h n) := by
  obtain ⟨p, q, hpq, hp, -, hR'⟩ := hR.listAddBetween hh hn (List.nil_append (L h)).symm
  obtain rfl := hp rfl
  exact ⟨_, listAdd_of_edge hpq, hR'⟩

/-- Nodes are put in front of a list one by one. -/
theorem foldlM_listAdd {l : List N} (hR : m.Represents live L) (hh : .head h ∈ live) (hd : l.Nodup)
    (hn : ∀ n ∈ l, ∀ k, n ∉ L k) :
    ∃ m', l.foldlM (fun m n => m.listAdd (.node n) (.head h)) m = some m' ∧
      m'.Represents (live ∪ {a | ∃ n ∈ l, a = .node n}) (Function.update L h (l.reverse ++ L h)) := by
  induction l generalizing m live L with
  | nil => exact ⟨m, rfl, by simpa using hR⟩
  | cons n l ih =>
    obtain ⟨hnl, hd⟩ := List.nodup_cons.mp hd
    obtain ⟨m₁, h₁, hR₁⟩ := hR.listAdd hh (hn n (by simp))
    obtain ⟨m₂, h₂, hR₂⟩ := ih hR₁ (.inr hh) hd fun k hk j hj => by
      rcases Lists.mem_push.mp hj with hj | ⟨-, rfl⟩
      · exact hn k (by simp [hk]) j hj
      · exact hnl hk
    refine ⟨m₂, by simp [List.foldlM_cons, h₁, h₂], ?_⟩
    convert hR₂ using 1
    · ext a
      simp only [Set.mem_union, Set.mem_insert_iff, Set.mem_ofPred_eq, List.mem_cons, exists_eq_or_imp]
      tauto
    · simp [Lists.push]

/-- `listAddTail` of a node that is on no list is `append`. -/
theorem listAddTail (hR : m.Represents live L) (hh : .head h ∈ live) (hn : ∀ k, n ∉ L k) :
    ∃ m', m.listAddTail (.node n) (.head h) = some m' ∧
      m'.Represents (insert (.node n) live) (L.append h n) := by
  obtain ⟨p, q, hpq, -, hq, hR'⟩ := hR.listAddBetween hh hn (List.append_nil (L h)).symm
  obtain rfl := hq rfl
  exact ⟨_, listAddTail_of_edge hpq, hR'⟩

/-- `listDel` is `unlink`, and leaves the cell without neighbours. -/
theorem listDel (hR : m.Represents live L) (hn : .node n ∈ live) :
    ∃ m', m.listDel (.node n) = some m' ∧ m'.Represents (live \ {.node n}) (L.unlink n) := by
  obtain ⟨p, q, hp, hq⟩ := hR.edges hn
  refine ⟨_, listDel_of_edges hp hq, hR.apart.unlink n, ?_, ?_, ?_⟩
  · intro k x hx
    obtain ⟨hx, hxn⟩ := Lists.mem_unlink.mp hx
    exact (hR.mem_live hx).imp (⟨·, by simp⟩) (⟨·, by simpa using hxn⟩)
  · intro k hk
    have hc := hR.chain k hk.1
    by_cases hnk : n ∈ L k
    · obtain ⟨u, v, hL⟩ := List.append_of_mem hnk
      have hd := hR.apart.nodup k
      obtain ⟨s, p', q', t, hs, hr, -, -⟩ := exists_ring_split k u v
      rw [hL] at hc hd
      rw [hr] at hc
      have he := List.isChain_append_cons_cons.mp hc
      obtain rfl : p' = p := he.2.1.prev_unique hp
      obtain rfl : q' = q := (List.isChain_cons_cons.mp he.2.2).1.next_unique hq
      have hout : Cell.node n ∉ ring k (u ++ v) := by
        rw [mem_ring_node]
        grind
      have hu : L.unlink n k = u ++ v := by
        rw [Lists.unlink, hL]
        grind [List.filter_eq_self]
      rw [hs] at hout
      rw [hu, hs]
      refine chain_cut hc (by simp at hout ⊢; tauto) (by simp at hout ⊢; tauto)
        (fun a b => Edge.cut hp hq) (edge_cut ?_ ?_)
      · rintro rfl
        simp at hout
      · rintro rfl
        simp at hout
    · rw [Lists.unlink_of_not_mem hnk]
      refine hc.imp_of_mem_imp fun a b ha hb hab => hp.cut hq hab ?_ ?_
      · exact fun e => hnk (mem_ring_node.mp (e ▸ ha))
      · exact fun e => hnk (mem_ring_node.mp (e ▸ hb))
  · intro x hx ho
    have hxn : Cell.node x ≠ .node n := hx.2
    refine hp.cut hq (hR.alone x hx.1 fun k hk => ho k ?_) hxn hxn
    exact Lists.mem_unlink.mpr ⟨hk, by simpa using hxn⟩

/-- `listDeleteSafe` is `unlink`, and the cell is as good as new. -/
theorem listDeleteSafe (hR : m.Represents live L) (hn : .node n ∈ live) :
    ∃ m', m.listDeleteSafe (.node n) = some m' ∧ m'.Represents live (L.unlink n) := by
  obtain ⟨m', hm, hR'⟩ := hR.listDel hn
  refine ⟨m'.initListHead (.node n), by simp [Heap.listDeleteSafe, hm], ?_⟩
  have := hR'.initListHead (a := .node n) (by simp)
  rwa [Set.insert_sdiff_self_of_mem hn] at this

/-- `listAddTailSafe` takes the node from wherever it is. -/
theorem listAddTailSafe (hR : m.Represents live L) (hh : .head h ∈ live) (hn : .node n ∈ live) :
    ∃ m', m.listAddTailSafe (.node n) (.head h) = some m' ∧
      m'.Represents live ((L.unlink n).append h n) := by
  obtain ⟨m', hm, hR'⟩ := hR.listDeleteSafe hn
  obtain ⟨m'', hm', hR''⟩ := hR'.listAddTail hh (n := n) (by simp)
  rw [Set.insert_eq_of_mem hn] at hR''
  exact ⟨m'', by simp [Heap.listAddTailSafe, hm, hm'], hR''⟩

/-- A node's cell looks like an empty list when the node is on no list. -/
theorem listEmpty_node (hR : m.Represents live L) (hn : .node n ∈ live) :
    m.listEmpty (.node n) = true ↔ ∀ h, n ∉ L h := by
  rw [listEmpty, decide_eq_true_eq]
  constructor
  · intro hnext h hm
    obtain ⟨u, v, hL⟩ := List.append_of_mem hm
    have hd := hR.apart.nodup h
    have hc := hR.chain h (hR.mem_live hm).1
    obtain ⟨s, p, q, t, -, hs, -, hq⟩ := exists_ring_split h u v
    rw [hL] at hc hd
    rw [hs] at hc
    have hnq := (List.isChain_cons_cons.mp (List.isChain_append_cons_cons.mp hc).2.2).1
    obtain rfl : q = .node n := Option.some.inj (hnq.1.symm.trans hnext)
    have htail := nodup_tail_ring (h := h) hd
    rw [hs] at htail
    cases s with
    | nil => simp at htail
    | cons a s => simp [List.nodup_append] at htail
  · intro ho
    exact (hR.alone n hn ho).1

theorem listFind_of_chain {l : List N} {fuel : Nat}
    (hc : (a :: (l.map .node ++ [.head h])).IsChain m.Edge) (hf : l.length < fuel) :
    (m.next a).bind (m.listFind (.head h) (.node n) fuel) = some (decide (n ∈ l)) := by
  obtain ⟨fuel, rfl⟩ : ∃ k, fuel = k + 1 := ⟨fuel - 1, by omega⟩
  induction l generalizing a fuel with
  | nil =>
    have := (List.isChain_cons_cons.mp hc).1
    simp [this.1, listFind]
  | cons x l ih =>
    obtain ⟨hax, hc⟩ := List.isChain_cons_cons.mp hc
    simp only [List.length_cons] at hf
    obtain ⟨fuel, rfl⟩ : ∃ k, fuel = k + 1 := ⟨fuel - 1, by omega⟩
    by_cases hx : n = x
    · simp [hax.1, listFind, hx]
    · have := ih hc fuel (by omega)
      rw [hax.1, Option.bind_some, Heap.listFind, if_neg (by simp), if_neg (by simpa using hx), this]
      simp [hx]

/-- The loop over a list meets a node if and only if it is on that list. -/
theorem listFind [Fintype N] (hR : m.Represents live L) (hh : .head h ∈ live) :
    (m.next (.head h)).bind (m.listFind (.head h) (.node n) (Fintype.card N + 1)) =
      some (decide (n ∈ L h)) :=
  listFind_of_chain (hR.chain h hh) (Nat.lt_succ_of_le (hR.apart.nodup h).length_le_card)

theorem listNodes_of_chain {l : List N} {fuel : Nat}
    (hc : (a :: (l.map .node ++ [.head h])).IsChain m.Edge) (hf : l.length < fuel) :
    (m.next a).bind (m.listNodes (.head h) fuel) = some l := by
  obtain ⟨fuel, rfl⟩ : ∃ k, fuel = k + 1 := ⟨fuel - 1, by omega⟩
  induction l generalizing a fuel with
  | nil =>
    have := (List.isChain_cons_cons.mp hc).1
    simp [this.1, listNodes]
  | cons x l ih =>
    obtain ⟨hax, hc⟩ := List.isChain_cons_cons.mp hc
    simp only [List.length_cons] at hf
    obtain ⟨fuel, rfl⟩ : ∃ k, fuel = k + 1 := ⟨fuel - 1, by omega⟩
    obtain ⟨next, hn, hl⟩ := Option.bind_eq_some_iff.mp (ih hc fuel (by omega))
    rw [hax.1, Option.bind_some, Heap.listNodes, if_neg (by simp)]
    simp [Cell.containerOf, hn, hl]

/-- The loop over a list meets its nodes in order. -/
theorem listNodes [Fintype N] (hR : m.Represents live L) (hh : .head h ∈ live) :
    (m.next (.head h)).bind (m.listNodes (.head h) (Fintype.card N + 1)) = some (L h) :=
  listNodes_of_chain (hR.chain h hh) (Nat.lt_succ_of_le (hR.apart.nodup h).length_le_card)

/-- A list has the nodes that the heap says it has. -/
theorem unique [Fintype N] {live' : Set (Cell H N)} {L' : Lists H N} (hR : m.Represents live L)
    (hR' : m.Represents live' L') (hh : .head h ∈ live) (hh' : .head h ∈ live') : L h = L' h :=
  Option.some.inj ((hR.listNodes hh).symm.trans (hR'.listNodes hh'))

/-- `listDel` and `listAddTail`: from wherever it is to the end of a list. -/
theorem moveLast (hR : m.Represents live L) (hh : .head h ∈ live) (hn : .node n ∈ live) :
    ∃ m', ((m.listDel (.node n)).bind fun m => m.listAddTail (.node n) (.head h)) = some m' ∧
      m'.Represents live ((L.unlink n).append h n) := by
  obtain ⟨m₁, h₁, hR₁⟩ := hR.listDel hn
  obtain ⟨m₂, h₂, hR₂⟩ := hR₁.listAddTail (h := h) (n := n) (by simpa using hh) (by simp)
  rw [Set.insert_sdiff_self_of_mem hn] at hR₂
  exact ⟨m₂, by simp [h₁, h₂], hR₂⟩

omit [DecidableEq H] in
/-- A node taken off its list is by itself. -/
theorem alone_of_unlink (hR : m.Represents live (L.unlink n)) (hn : .node n ∈ live) :
    m.Edge (.node n) (.node n) :=
  hR.alone n hn (by simp)

theorem takeFirst (hR : m.Represents live L) (hh : .head h ∈ live) :
    ∃ m', m.takeFirst (.head h) = some ((L h).head?, m') ∧
      m'.Represents live (Function.update L h (L h).tail) ∧
      ∀ n ∈ (L h).head?, m'.Edge (.node n) (.node n) := by
  have he := hR.listEmpty_iff hh
  have hf := hR.next_head hh
  cases hL : L h with
  | nil =>
    refine ⟨m, by simp [Heap.takeFirst, he.mpr hL], ?_, by simp⟩
    rwa [List.tail_nil, ← hL, Function.update_eq_self]
  | cons n l =>
    have hn : n ∈ L h := by simp [hL]
    obtain ⟨m', hm, hR'⟩ := hR.listDeleteSafe (hR.mem_live hn).2
    have hne : m.listEmpty (.head h) = false := by
      simpa [hL] using he
    have halone := hR'.alone_of_unlink (hR.mem_live hn).2
    rw [hR.apart.unlink_eq_update hn, hL, List.erase_cons_head] at hR'
    refine ⟨m', ?_, hR', by simpa using halone⟩
    simp [Heap.takeFirst, hne, hf, hL, Cell.containerOf, hm]

theorem takeOut [Fintype N] (hR : m.Represents live L) (hn : n ∈ L h) :
    ∃ m', m.takeOut (Fintype.card N + 1) (.head h) n = some (some n, m') ∧
      m'.Represents live (Function.update L h ((L h).erase n)) ∧
      m'.Edge (.node n) (.node n) := by
  obtain ⟨hh, hlive⟩ := hR.mem_live hn
  obtain ⟨m', hm, hR'⟩ := hR.listDeleteSafe hlive
  have halone := hR'.alone_of_unlink hlive
  rw [hR.apart.unlink_eq_update hn] at hR'
  refine ⟨m', ?_, hR', halone⟩
  have hf := hR.listFind hh (n := n)
  rw [hR.next_head hh, Option.bind_some] at hf
  simp [Heap.takeOut, hR.next_head hh, hf, hn, hm]

/-- Looked for where it is not, a node stays where it is. -/
theorem takeOut_off [Fintype N] (hR : m.Represents live L) (hh : .head h ∈ live)
    (hn : n ∉ L h) : m.takeOut (Fintype.card N + 1) (.head h) n = some (none, m) := by
  have hf := hR.listFind hh (n := n)
  rw [hR.next_head hh, Option.bind_some] at hf
  simp [Heap.takeOut, hR.next_head hh, hf, hn]

end Represents

end Heap

end Intrusive
