import Mathlib.Data.Fintype.Card
import Pandos.Lib.Lists

/-!
# Singly linked lists with back pointers

The chains of a hash table: a head is one pointer to the first node, and a node
holds the next node and the address of the pointer that points to it.

* `Represents`: the chains of the heap are the given lists, and a node on none
  of them says so;
* `Represents.hlistAddHead`, `Represents.hlistDelInit`,
  `Represents.initHlistNode`: the operations on pointers are `push`, `unlink`
  and nothing;
* `Represents.hlistFind`: the loop over a chain is a search of its list.
-/

namespace Intrusive
variable {H N : Type*}

/-- A pointer to a node: the one in a head or the `next` of a node. -/
inductive Slot (H N : Type*)
  | first (h : H)
  | next (n : N)
  deriving DecidableEq

/-- The `first` of every `hlist_head` and the two fields of every `hlist_node`;
`none` is `NULL`. -/
structure Chains (H N : Type*) where
  first : H → Option N
  next : N → Option N
  pprev : N → Option (Slot H N)

namespace Chains

section operations
variable [DecidableEq H] [DecidableEq N] (m : Chains H N)

/-- `*pprev = v`. -/
def store (s : Slot H N) (v : Option N) : Chains H N :=
  match s with
  | .first h => { m with first := Function.update m.first h v }
  | .next n => { m with next := Function.update m.next n v }

def setPprev (n : N) (s : Option (Slot H N)) : Chains H N :=
  { m with pprev := Function.update m.pprev n s }

/-- `INIT_HLIST_NODE`. -/
def initHlistNode (n : N) : Chains H N := (m.store (.next n) none).setPprev n none

def hlistUnhashed (n : N) : Bool := (m.pprev n).isNone

def hlistEmpty (h : H) : Bool := (m.first h).isNone

/-- `__hlist_del` of a node whose `pprev` is `pprev`. -/
def hlistBypass (n : N) (pprev : Slot H N) : Chains H N :=
  let m' := m.store pprev (m.next n)
  match m.next n with
  | some next => m'.setPprev next pprev
  | none => m'

def hlistDelInit (n : N) : Chains H N :=
  match m.pprev n with
  | none => m
  | some pprev => (m.hlistBypass n pprev).initHlistNode n

def hlistAddHead (n : N) (h : H) : Chains H N :=
  let first := m.first h
  let m := m.store (.next n) first
  let m := match first with
    | some f => m.setPprev f (some (.next n))
    | none => m
  (m.store (.first h) (some n)).setPprev n (some (.first h))

/-- `hlist_for_each` from `pos` on, left at the first node that satisfies `p`. -/
def hlistFind (p : N → Bool) : Nat → Option N → Option (Option N)
  | 0, _ => none
  | _ + 1, none => some none
  | fuel + 1, some pos => if p pos then some (some pos) else hlistFind p fuel (m.next pos)

end operations

/-! ## Chains -/

def read (m : Chains H N) : Slot H N → Option N
  | .first h => m.first h
  | .next n => m.next n

/-- From the pointer `s` on, the nodes of `l` follow, each pointing back. -/
def Linked (m : Chains H N) : Slot H N → List N → Prop
  | s, [] => m.read s = none
  | s, n :: l => m.read s = some n ∧ m.pprev n = some s ∧ m.Linked (.next n) l

theorem head_ne_of_mem_tail {l : List N} {n : N} (hd : l.Nodup) (hn : n ∈ l.tail) :
    l.head? ≠ some n := by
  cases l with
  | nil => cases hn
  | cons k l =>
    rintro ⟨⟩
    exact (List.nodup_cons.mp hd).1 hn

section linked
variable {m m' : Chains H N} {s s' : Slot H N} {l u v : List N} {n : N}

/-- The nodes of a chain can be reached from another pointer, or unchanged from
the same one. -/
theorem Linked.reseat (h : m.Linked s l) (hs : m'.read s' = m.read s)
    (hp : ∀ x ∈ l.head?, m'.pprev x = some s') (ht : ∀ x ∈ l.tail, m'.pprev x = m.pprev x)
    (hn : ∀ x ∈ l, m'.next x = m.next x) : m'.Linked s' l := by
  induction l generalizing s s' with
  | nil => exact hs.trans h
  | cons k l ih =>
    obtain ⟨hr, -, hl⟩ := h
    refine ⟨hs.trans hr, hp k rfl, ih hl (hn k (by simp)) (fun x hx => ?_) (fun x hx => ?_)
      fun x hx => hn x (by simp [hx])⟩
    · cases l with
      | nil => cases hx
      | cons y l =>
        obtain rfl : y = x := by simpa using hx
        exact (ht y (by simp)).trans hl.2.1
    · exact ht x (List.mem_of_mem_tail hx)

theorem Linked.frame (h : m.Linked s l) (hs : m'.read s = m.read s)
    (hp : ∀ x ∈ l, m'.pprev x = m.pprev x) (hn : ∀ x ∈ l, m'.next x = m.next x) :
    m'.Linked s l := by
  refine h.reseat hs (fun x hx => ?_) (fun x hx => hp x (List.mem_of_mem_tail hx)) hn
  cases l with
  | nil => cases hx
  | cons k l =>
    obtain rfl : k = x := by simpa using hx
    exact (hp k (by simp)).trans h.2.1

/-- The pointer to a node is the one before it on its chain. -/
theorem Linked.pprev (h : m.Linked s (u ++ n :: v)) :
    u = [] ∧ m.pprev n = some s ∨ ∃ k ∈ u, m.pprev n = some (.next k) := by
  induction u generalizing s with
  | nil => exact .inl ⟨rfl, h.2.1⟩
  | cons k u ih =>
    rcases ih h.2.2 with ⟨-, hp⟩ | ⟨y, hy, hp⟩
    · exact .inr ⟨k, by simp, hp⟩
    · exact .inr ⟨y, by simp [hy], hp⟩

theorem Linked.next (h : m.Linked s (u ++ n :: v)) : m.next n = v.head? := by
  induction u generalizing s with
  | nil =>
    obtain ⟨-, -, hv⟩ := h
    cases v with
    | nil => exact hv
    | cons y v => exact hv.1
  | cons k u ih => exact ih h.2.2

theorem Linked.unique (h : m.Linked s l) (h' : m.Linked s u) : l = u := by
  induction l generalizing s u with
  | nil =>
    cases u with
    | nil => rfl
    | cons y u => cases (show m.read s = none from h).symm.trans h'.1
  | cons k l ih =>
    cases u with
    | nil => cases (show m.read s = none from h').symm.trans h.1
    | cons y u =>
      obtain rfl : k = y := Option.some.inj (h.1.symm.trans h'.1)
      rw [ih h.2.2 h'.2.2]

theorem Linked.first_eq {h : H} (hl : m.Linked (.first h) l) : m.first h = l.head? := by
  cases l with
  | nil => exact hl
  | cons k l => exact hl.1

theorem Linked.hlistFind [DecidableEq H] [DecidableEq N] {p : N → Bool} {fuel : Nat}
    (h : m.Linked s l) (hf : l.length < fuel) :
    m.hlistFind p fuel (m.read s) = some (l.find? p) := by
  obtain ⟨fuel, rfl⟩ : ∃ k, fuel = k + 1 := ⟨fuel - 1, by omega⟩
  induction l generalizing s fuel with
  | nil =>
    rw [show m.read s = none from h]
    rfl
  | cons k l ih =>
    obtain ⟨hr, -, hl⟩ := h
    simp only [List.length_cons] at hf
    obtain ⟨fuel, rfl⟩ : ∃ k, fuel = k + 1 := ⟨fuel - 1, by omega⟩
    rw [hr, Chains.hlistFind, List.find?_cons]
    cases hp : p k with
    | true => rfl
    | false => exact ih hl fuel (by omega)

end linked

section writes
variable [DecidableEq H] [DecidableEq N] {m : Chains H N} {p : Slot H N} {h : H} {n x : N}

theorem read_store (s t : Slot H N) (y : Option N) :
    (m.store s y).read t = if t = s then y else m.read t := by
  cases s <;> cases t <;> simp [store, read, Function.update_apply]

theorem pprev_store (s : Slot H N) (y : Option N) : (m.store s y).pprev = m.pprev := by
  cases s <;> rfl

omit [DecidableEq H] in
theorem read_setPprev (s : Option (Slot H N)) (t : Slot H N) : (m.setPprev n s).read t = m.read t := by
  cases t <;> rfl

omit [DecidableEq H] in
theorem pprev_setPprev (s : Option (Slot H N)) :
    (m.setPprev n s).pprev x = if x = n then s else m.pprev x :=
  Function.update_apply ..

/-- What putting a node in front of a chain writes. -/
theorem read_addHead (t : Slot H N) : (m.hlistAddHead n h).read t =
    if t = .first h then some n else if t = .next n then m.first h else m.read t := by
  rw [hlistAddHead, read_setPprev, read_store]
  congr 1
  cases m.first h <;> simp only [read_setPprev, read_store]

theorem pprev_addHead : (m.hlistAddHead n h).pprev x =
    if x = n then some (.first h) else if m.first h = some x then some (.next n) else m.pprev x := by
  rw [hlistAddHead, pprev_setPprev, pprev_store]
  congr 1
  cases m.first h <;> simp only [pprev_setPprev, pprev_store] <;> simp [eq_comm]

/-- What deleting a node writes. -/
theorem read_delInit (hp : m.pprev n = some p) (t : Slot H N) : (m.hlistDelInit n).read t =
    if t = .next n then none else if t = p then m.next n else m.read t := by
  rw [hlistDelInit, hp]
  simp only [initHlistNode, hlistBypass, read_setPprev, read_store]
  congr 1
  cases m.next n <;> simp only [read_setPprev, read_store]

theorem pprev_delInit (hp : m.pprev n = some p) : (m.hlistDelInit n).pprev x =
    if x = n then none else if m.next n = some x then some p else m.pprev x := by
  rw [hlistDelInit, hp]
  simp only [initHlistNode, hlistBypass, pprev_setPprev, pprev_store]
  congr 1
  cases m.next n <;> simp only [pprev_setPprev, pprev_store] <;> simp [eq_comm]

theorem read_initHlistNode (t : Slot H N) :
    (m.initHlistNode n).read t = if t = .next n then none else m.read t := by
  simp only [initHlistNode, read_setPprev, read_store]

theorem pprev_initHlistNode : (m.initHlistNode n).pprev x = if x = n then none else m.pprev x := by
  simp only [initHlistNode, pprev_setPprev, pprev_store]

/-- A chain with one node taken out. -/
theorem Linked.del {s : Slot H N} {u v : List N} (hl : m.Linked s (u ++ n :: v))
    (hd : (u ++ n :: v).Nodup) (hp : m.pprev n = some p) (hs : ∀ x ∈ u ++ n :: v, s ≠ .next x) :
    (m.hlistDelInit n).Linked s (u ++ v) := by
  have hnext := hl.next
  induction u generalizing s with
  | nil =>
    obtain ⟨-, hps, hv⟩ := hl
    obtain rfl := Option.some.inj (hps.symm.trans hp)
    obtain ⟨hnv, hv'⟩ := List.nodup_cons.mp hd
    have hne : ∀ x ∈ v, x ≠ n := fun x hx e => hnv (e ▸ hx)
    refine hv.reseat ?_ (fun x hx => ?_) (fun x hx => ?_) fun x hx => ?_
    · rw [read_delInit hp, if_neg (hs n (by simp)), if_pos rfl]
      rfl
    · rw [pprev_delInit hp, if_neg (hne x (List.mem_of_mem_head? hx)), if_pos (hnext.trans hx)]
    · rw [pprev_delInit hp, if_neg (hne x (List.mem_of_mem_tail hx)), if_neg]
      rw [hnext]
      exact head_ne_of_mem_tail hv' hx
    · refine (read_delInit hp (.next x)).trans ?_
      rw [if_neg (by simpa using hne x hx), if_neg (hs x (by simp [hx])).symm]
      rfl
  | cons k u ih =>
    obtain ⟨hr, hpk, hl'⟩ := hl
    obtain ⟨hk, hd'⟩ := List.nodup_cons.mp hd
    have hkn : k ≠ n := fun e => hk (by simp [e])
    have hsp : s ≠ p := by
      rintro rfl
      rcases hl'.pprev with ⟨-, he⟩ | ⟨y, hy, he⟩
      · exact hs k (by simp) (Option.some.inj (hp.symm.trans he))
      · exact hs y (by simp [hy]) (Option.some.inj (hp.symm.trans he))
    refine ⟨?_, ?_, ih hl' hd' fun x hx => ?_⟩
    · rw [read_delInit hp, if_neg (hs n (by simp)), if_neg hsp, hr]
    · rw [pprev_delInit hp, if_neg hkn, if_neg, hpk]
      rw [hnext]
      exact fun he => hk (by simp [List.mem_of_mem_head? he])
    · rintro ⟨⟩
      exact hk hx

end writes

/-! ## Heaps that hold chains -/

/-- The chains are the lists of `L`, and a node on none of them is unhashed. -/
structure Represents (m : Chains H N) (L : Lists H N) : Prop where
  apart : L.Apart
  linked : ∀ h, m.Linked (.first h) (L h)
  unhashed : ∀ n, (∀ h, n ∉ L h) → m.pprev n = none

namespace Represents
variable {m : Chains H N} {L : Lists H N} {h : H} {n : N}

theorem unique {L' : Lists H N} (hR : m.Represents L) (hR' : m.Represents L') : L = L' :=
  funext fun h => (hR.linked h).unique (hR'.linked h)

/-- In memory that is all 0 every chain is empty. -/
theorem zero : Represents ⟨fun _ => none, fun _ => none, fun _ => none⟩ (fun _ => [] : Lists H N) where
  apart := ⟨fun _ => .nil, fun hn => by cases hn⟩
  linked _ := rfl
  unhashed _ _ := rfl

theorem hlistEmpty_iff (hR : m.Represents L) : m.hlistEmpty h = true ↔ L h = [] := by
  have hl := hR.linked h
  cases hL : L h with
  | nil =>
    rw [hL] at hl
    simpa [hlistEmpty] using show m.first h = none from hl
  | cons k l =>
    rw [hL] at hl
    simp [hlistEmpty, show m.first h = some k from hl.1]

theorem hlistUnhashed_iff (hR : m.Represents L) : m.hlistUnhashed n = true ↔ ∀ h, n ∉ L h := by
  rw [hlistUnhashed, Option.isNone_iff_eq_none]
  refine ⟨fun hp h hn => ?_, hR.unhashed n⟩
  obtain ⟨u, v, hL⟩ := List.append_of_mem hn
  have hl := hR.linked h
  rw [hL] at hl
  rcases hl.pprev with ⟨-, he⟩ | ⟨k, -, he⟩ <;> cases hp.symm.trans he

variable [DecidableEq H] [DecidableEq N]

theorem hlistFind [Fintype N] (hR : m.Represents L) (p : N → Bool) :
    m.hlistFind p (Fintype.card N + 1) (m.first h) = some ((L h).find? p) :=
  (hR.linked h).hlistFind (Nat.lt_succ_of_le (hR.apart.nodup h).length_le_card)

/-- `INIT_HLIST_NODE` of a node that is on no chain. -/
theorem initHlistNode (hR : m.Represents L) (hn : ∀ h, n ∉ L h) : (m.initHlistNode n).Represents L where
  apart := hR.apart
  linked h := by
    have hne : ∀ x ∈ L h, x ≠ n := fun x hx e => hn h (e ▸ hx)
    refine (hR.linked h).frame (read_initHlistNode _) (fun x hx => ?_) fun x hx => ?_
    · rw [pprev_initHlistNode, if_neg (hne x hx)]
    · exact (read_initHlistNode (.next x)).trans (if_neg (by simpa using hne x hx))
  unhashed x hx := by
    rw [pprev_initHlistNode, hR.unhashed x hx, ite_self]

/-- `hlistAddHead` of a node that is on no chain is `push`. -/
theorem hlistAddHead (hR : m.Represents L) (hn : ∀ h, n ∉ L h) :
    (m.hlistAddHead n h).Represents (L.push h n) where
  apart := hR.apart.push hn
  linked k := by
    have hne : ∀ {k x}, x ∈ L k → x ≠ n := fun hx e => hn _ (e ▸ hx)
    have hnext : ∀ x ∈ L k, (m.hlistAddHead n h).next x = m.next x := fun x hx =>
      (read_addHead (.next x)).trans (by simp [hne hx, read])
    by_cases hk : k = h
    · subst hk
      rw [Lists.push_self]
      refine ⟨by simp [read_addHead], by simp [pprev_addHead], (hR.linked k).reseat ?_ ?_ ?_ hnext⟩
      · exact (read_addHead _).trans (by simp [read])
      · intro x hx
        have hf : m.first k = some x := (hR.linked k).first_eq.trans hx
        simp [pprev_addHead, hf, hne (List.mem_of_mem_head? hx)]
      · intro x hx
        have hf : m.first k ≠ some x := by
          rw [(hR.linked k).first_eq]
          exact head_ne_of_mem_tail (hR.apart.nodup k) hx
        simp [pprev_addHead, hf, hne (List.mem_of_mem_tail hx)]
    · rw [Lists.push_of_ne hk]
      refine (hR.linked k).frame ((read_addHead _).trans (by simp [hk])) (fun x hx => ?_) hnext
      have hf : m.first h ≠ some x := by
        rw [(hR.linked h).first_eq]
        exact fun he => hk (hR.apart.unique hx (List.mem_of_mem_head? he))
      simp [pprev_addHead, hf, hne hx]
  unhashed x hx := by
    have hxL : ∀ k, x ∉ L k := fun k hk => hx k (Lists.mem_push.mpr (.inl hk))
    have hxn : x ≠ n := fun e => hx h (Lists.mem_push.mpr (.inr ⟨rfl, e⟩))
    have hf : m.first h ≠ some x := by
      rw [(hR.linked h).first_eq]
      exact fun he => hxL h (List.mem_of_mem_head? he)
    simp [pprev_addHead, hxn, hf, hR.unhashed x hxL]

/-- `hlistDelInit` is `unlink`, of a node on a chain or on none. -/
theorem hlistDelInit (hR : m.Represents L) (n : N) : (m.hlistDelInit n).Represents (L.unlink n) := by
  by_cases hun : m.hlistUnhashed n
  · have hn := hR.hlistUnhashed_iff.mp hun
    rw [Lists.unlink_of_free hn, Chains.hlistDelInit, hR.unhashed n hn]
    exact hR
  obtain ⟨h, hn⟩ : ∃ h, n ∈ L h := by
    rw [hR.hlistUnhashed_iff, not_forall] at hun
    simpa using hun
  obtain ⟨u, v, hL⟩ := List.append_of_mem hn
  have hd := hR.apart.nodup h
  have hl := hR.linked h
  rw [hL] at hd hl
  have hnext := hl.next
  obtain ⟨p, hp, hpu⟩ : ∃ p, m.pprev n = some p ∧ (p = .first h ∨ ∃ k ∈ u, p = .next k) := by
    rcases hl.pprev with ⟨-, hp⟩ | ⟨k, hk, hp⟩
    · exact ⟨_, hp, .inl rfl⟩
    · exact ⟨_, hp, .inr ⟨k, hk, rfl⟩⟩
  have hu : L.unlink n h = u ++ v := by
    rw [Lists.unlink, hL]
    grind [List.filter_eq_self]
  refine ⟨hR.apart.unlink n, fun k => ?_, fun x hx => ?_⟩
  · by_cases hk : k = h
    · subst hk
      rw [hu]
      exact hl.del hd hp (by simp)
    · rw [hR.apart.unlink_other hn hk]
      have off : ∀ x ∈ L k, x ∉ L h := fun x hx hxh => hk (hR.apart.unique hx hxh)
      have hne : ∀ x ∈ L k, x ≠ n := fun x hx e => off x hx (e ▸ hn)
      refine (hR.linked k).frame ?_ (fun x hx => ?_) fun x hx => ?_
      · rw [read_delInit hp, if_neg (by simp), if_neg]
        rcases hpu with rfl | ⟨y, -, rfl⟩
        · simpa using hk
        · simp
      · rw [pprev_delInit hp, if_neg (hne x hx), if_neg]
        intro he
        rw [hnext] at he
        exact off x hx (by simp [hL, List.mem_of_mem_head? he])
      · refine (read_delInit hp (.next x)).trans ?_
        rw [if_neg (by simpa using hne x hx), if_neg]
        · rfl
        rcases hpu with rfl | ⟨y, hy, rfl⟩
        · simp
        · rintro ⟨⟩
          exact off x hx (by simp [hL, hy])
  · by_cases hxn : x = n
    · rw [pprev_delInit hp, if_pos hxn]
    · have hxL : ∀ k, x ∉ L k := fun k hk => hx k (Lists.mem_unlink.mpr ⟨hk, hxn⟩)
      rw [pprev_delInit hp, if_neg hxn, if_neg, hR.unhashed x hxL]
      intro he
      rw [hnext] at he
      exact hxL h (by simp [hL, List.mem_of_mem_head? he])

end Represents

end Chains

end Intrusive
