import Pandos.Lib.Calls
import Pandos.Lib.Rings
import Pandos.Phase1.Process

/-!
# The process tree, pointer by pointer

The tree functions of `process.c` on `list_head` cells: the `p_child` of every
pcb is a sentinel, its `p_sib` a link field. `p_parent` is kept when a child is
taken off its list, so it may name a pcb that no longer has that child.
-/

namespace Pandos
open Intrusive

structure TreeHeap where
  links : Heap Pcb Pcb
  pParent : Pcb → Option Pcb

namespace TreeHeap

/-! ## The code -/

section code
variable (t : TreeHeap)

/-- `reset`, of the fields of the tree. -/
def reset (pcb : Pcb) : TreeHeap where
  links := (t.links.initListHead (.head pcb)).initListHead (.node pcb)
  pParent := Function.update t.pParent pcb none

def emptyChild (p : Pcb) : Bool := t.links.listEmpty (.head p)

def insertChild (parent child : Pcb) : Option TreeHeap := do
  let pParent := Function.update t.pParent child (some parent)
  let links ← t.links.listAddTailSafe (.node child) (.head parent)
  return { links, pParent }

def removeChild (parent : Pcb) : Option (Option Pcb × TreeHeap) := do
  let (child, links) ← t.links.takeFirst (.head parent)
  return (child, { t with links })

def outChild (child : Pcb) : Option (Option Pcb × TreeHeap) :=
  match t.pParent child with
  | none => some (none, t)
  | some parent => do
    let (found, links) ← t.links.takeOut (maxProc + 1) (.head parent) child
    return (found, { t with links })

end code

/-! ## The invariant -/

/-- The two `list_head` of every pcb in `A`. -/
def cells (A : Set Pcb) : Set (Cell Pcb Pcb) := fun
  | .head p => p ∈ A
  | .node p => p ∈ A

/-- What `reset` leaves of a pcb. -/
def Fresh (t : TreeHeap) (p : Pcb) : Prop :=
  t.pParent p = none ∧ t.links.Edge (.head p) (.head p) ∧ t.links.Edge (.node p) (.node p)

instance (t : TreeHeap) (p : Pcb) : Decidable (t.Fresh p) := inferInstanceAs (Decidable (_ ∧ _ ∧ _))

theorem fresh_reset (t : TreeHeap) (p : Pcb) : (t.reset p).Fresh p :=
  ⟨Function.update_self .., edge_head, Heap.edge_init⟩
where
  edge_head : (t.reset p).links.Edge (.head p) (.head p) :=
    Heap.edge_init.init (by simp) (by simp)

/-- The child lists of the pcbs in `A`. A child names its parent; a pcb may
name a parent it is not a child of, but it is one of the pcbs in `A`. -/
structure Holds (t : TreeHeap) (A : Set Pcb) (C : Lists Pcb Pcb) : Prop where
  represents : t.links.Represents (cells A) C
  parent : ∀ {q c}, c ∈ C q → t.pParent c = some q
  parent_mem : ∀ {q c}, c ∈ A → t.pParent c = some q → q ∈ A

theorem holds_of_fresh {t : TreeHeap} {A : Set Pcb} (h : ∀ p ∈ A, t.Fresh p) :
    t.Holds A fun _ => [] where
  represents :=
    { apart := ⟨fun _ => .nil, fun hn => by cases hn⟩
      mem_live := fun hn => by cases hn
      chain := fun p hp => List.isChain_cons_cons.mpr ⟨(h p hp).2.1, .singleton _⟩
      alone := fun p hp _ => (h p hp).2.2 }
  parent hc := by cases hc
  parent_mem hc hq := by
    rw [(h _ hc).1] at hq
    cases hq

section calls
variable {t : TreeHeap} {A : Set Pcb} {C : Lists Pcb Pcb} (hH : t.Holds A C)
include hH

/-- A child is moved to the end of its new parent's children. -/
theorem Holds.insertChild {q c : Pcb} (hq : q ∈ A) (hc : c ∈ A) :
    ∃ t', t.insertChild q c = some t' ∧ t'.Holds A ((C.unlink c).append q c) := by
  obtain ⟨links, hl, hR⟩ := hH.represents.listAddTailSafe (h := q) (n := c) hq hc
  refine ⟨⟨links, Function.update t.pParent c (some q)⟩, by simp [TreeHeap.insertChild, hl], hR, ?_, ?_⟩
  · intro r d hd
    rcases Lists.mem_append.mp hd with hd | ⟨rfl, rfl⟩
    · obtain ⟨hd, hne⟩ := Lists.mem_unlink.mp hd
      simpa [hne] using hH.parent hd
    · simp
  · intro r d hd hr
    by_cases hdc : d = c
    · subst hdc
      simp only [Function.update_self, Option.some.injEq] at hr
      exact hr ▸ hq
    · simp only [Function.update_of_ne hdc] at hr
      exact hH.parent_mem hd hr

/-- Fewer children: who is left still has his parent. -/
theorem Holds.fewer {links : Heap Pcb Pcb} {D : Lists Pcb Pcb}
    (hR : links.Represents (cells A) D) (hD : ∀ q c, c ∈ D q → c ∈ C q) :
    ({ t with links } : TreeHeap).Holds A D where
  represents := hR
  parent hc := hH.parent (hD _ _ hc)
  parent_mem := hH.parent_mem

theorem Holds.removeChild {q : Pcb} (hq : q ∈ A) :
    ∃ t', t.removeChild q = some ((C q).head?, t') ∧
      t'.Holds A (Function.update C q (C q).tail) ∧
      ∀ c ∈ (C q).head?, t'.links.Edge (.node c) (.node c) := by
  obtain ⟨links, hl, hR, halone⟩ := hH.represents.takeFirst (h := q) hq
  refine ⟨{ t with links }, by simp [TreeHeap.removeChild, hl], hH.fewer hR fun r c hc => ?_, halone⟩
  by_cases hr : r = q
  · subst hr
    exact List.mem_of_mem_tail (by simpa using hc)
  · simpa [hr] using hc

/-- A child is found through its `p_parent`. -/
theorem Holds.outChild {q c : Pcb} (hc : c ∈ C q) :
    ∃ t', t.outChild c = some (some c, t') ∧
      t'.Holds A (Function.update C q ((C q).erase c)) ∧ t'.links.Edge (.node c) (.node c) := by
  obtain ⟨links, hl, hR, halone⟩ := hH.represents.takeOut hc
  rw [Fintype.card_fin] at hl
  refine ⟨{ t with links }, by simp [TreeHeap.outChild, hH.parent hc, hl],
    hH.fewer hR fun r d hd => ?_, halone⟩
  by_cases hr : r = q
  · subst hr
    exact List.mem_of_mem_erase (by simpa using hd)
  · simpa [hr] using hd

/-- A pcb that is nobody's child is not found, whatever its `p_parent`. -/
theorem Holds.outChild_off {c : Pcb} (hA : c ∈ A) (hc : ∀ q, c ∉ C q) :
    t.outChild c = some (none, t) := by
  cases hp : t.pParent c with
  | none => simp [TreeHeap.outChild, hp]
  | some q =>
    have hl := hH.represents.takeOut_off (hH.parent_mem hA hp) (hc q)
    rw [Fintype.card_fin] at hl
    simp [TreeHeap.outChild, hp, hl]

end calls

/-! ## Any sequence of calls -/

/-- Heap and child lists agree, and go on to agree whatever is called next. -/
structure Refines (t : TreeHeap) (A : Set Pcb) (C : Lists Pcb Pcb) : Prop where
  holds : t.Holds A C
  empty : ∀ q ∈ A, t.emptyChild q = true ↔ C q = []
  insert : ∀ q ∈ A, ∀ c ∈ A, ∃ t', t.insertChild q c = some t' ∧
    t'.Holds A ((C.unlink c).append q c)
  remove : ∀ q ∈ A, ∃ t', t.removeChild q = some ((C q).head?, t') ∧
    t'.Holds A (Function.update C q (C q).tail) ∧
    ∀ c ∈ (C q).head?, t'.links.Edge (.node c) (.node c)
  out : ∀ q, ∀ c ∈ C q, ∃ t', t.outChild c = some (some c, t') ∧
    t'.Holds A (Function.update C q ((C q).erase c)) ∧ t'.links.Edge (.node c) (.node c)
  off : ∀ c ∈ A, (∀ q, c ∉ C q) → t.outChild c = some (none, t)

theorem Holds.refines {t : TreeHeap} {A : Set Pcb} {C : Lists Pcb Pcb} (hH : t.Holds A C) :
    t.Refines A C where
  holds := hH
  empty _ hq := hH.represents.listEmpty_iff hq
  insert _ hq _ hc := hH.insertChild hq hc
  remove _ hq := hH.removeChild hq
  out _ _ hc := hH.outChild hc
  off _ hA hc := hH.outChild_off hA hc

inductive Call
  | insertChild (parent child : Pcb)
  | removeChild (parent : Pcb)
  | outChild (child : Pcb)

namespace Call

/-- The pcbs it is about are in `A`. -/
def Within (A : Set Pcb) : Call → Prop
  | .insertChild parent child => parent ∈ A ∧ child ∈ A
  | .removeChild parent => parent ∈ A
  | .outChild child => child ∈ A

/-- The call on the pointers. -/
def exec (t : TreeHeap) : Call → Option (Option Pcb × TreeHeap)
  | .insertChild parent child => (t.insertChild parent child).map (none, ·)
  | .removeChild parent => t.removeChild parent
  | .outChild child => t.outChild child

/-- The call on the child lists. -/
def spec (C : Lists Pcb Pcb) : Call → Option Pcb × Lists Pcb Pcb
  | .insertChild parent child => (none, (C.unlink child).append parent child)
  | .removeChild parent => ((C parent).head?, Function.update C parent (C parent).tail)
  | .outChild child => if ∃ q, child ∈ C q then (some child, C.unlink child) else (none, C)

variable {t : TreeHeap} {A : Set Pcb} {C : Lists Pcb Pcb}

theorem exec_holds (hH : t.Holds A C) {c : Call} (hc : c.Within A) :
    ∃ t', c.exec t = some ((c.spec C).1, t') ∧ t'.Holds A (c.spec C).2 := by
  have h := hH.refines
  cases c with
  | insertChild q c =>
    obtain ⟨t', ht, hH'⟩ := h.insert q hc.1 c hc.2
    exact ⟨t', by simp [exec, spec, ht], hH'⟩
  | removeChild q =>
    obtain ⟨t', ht, hH', -⟩ := h.remove q hc
    exact ⟨t', ht, hH'⟩
  | outChild c =>
    by_cases hq : ∃ q, c ∈ C q
    · obtain ⟨q, hq⟩ := hq
      obtain ⟨t', ht, hH', -⟩ := h.out q c hq
      rw [← hH.represents.apart.unlink_eq_update hq] at hH'
      have hq : ∃ q, c ∈ C q := ⟨q, hq⟩
      exact ⟨t', by simp [exec, spec, ht, hq], by simpa [spec, hq] using hH'⟩
    · have := h.off c hc (not_exists.mp hq)
      exact ⟨t, by simp [exec, spec, this, hq], by simpa [spec, hq] using hH⟩

/-- The tree on pointers is a tree of child lists, though `p_parent` goes stale:
from fresh pcbs, after any calls about them, the results are those on the child
lists and the heap still holds them. -/
theorem tree_is_child_lists (h : ∀ p ∈ A, t.Fresh p) {calls : List Call}
    (hc : ∀ c ∈ calls, c.Within A) :
    ∃ t', Calls.run exec t calls = some ((Calls.specRun spec (fun _ => []) calls).1, t') ∧
      t'.Refines A (Calls.specRun spec (fun _ => []) calls).2 := by
  obtain ⟨t', ht, hH⟩ := Calls.run_refines exec spec (Holds · A) (Within A)
    (fun _ _ _ hH hc => exec_holds hH hc) (holds_of_fresh h) hc
  exact ⟨t', ht, hH.refines⟩

/-- Three pcbs that have been reset, the others as the loader left them. -/
def sampleHeap : TreeHeap := [1, 2, 3].foldl reset ⟨⟨fun _ => none, fun _ => none⟩, fun _ => none⟩

/-- The first child is taken off, looked for, and put under its brother. -/
def sampleCalls : List Call :=
  [.insertChild 1 2, .insertChild 1 3, .removeChild 1, .outChild 2, .insertChild 3 2,
    .outChild 3, .outChild 2, .removeChild 3]

theorem tree_is_child_lists_sample : ∃ t', Calls.run exec sampleHeap sampleCalls =
    some ([none, none, some 2, none, none, some 3, some 2, none], t') ∧
    t'.Refines {p | p ∈ [1, 2, 3]} (Calls.specRun spec (fun _ => []) sampleCalls).2 :=
  tree_is_child_lists
    (by simp only [Set.mem_ofPred_eq]; decide) (by simp [sampleCalls, Within])

/-- The call on the tables of phase 1. -/
def onTables (t : Tables) : Call → Option Pcb × Tables
  | .insertChild parent child => (none, t.insertChild parent child)
  | .removeChild parent => t.removeChild parent
  | .outChild child => t.outChild child

/-- The children in the tables are the child lists. -/
theorem onTables_spec {T : Tables} (ha : T.pChild.Apart)
    (hp : ∀ {q c}, c ∈ T.pChild q → (T.pcbs c).pParent = some q) (c : Call) :
    c.spec T.pChild = ((c.onTables T).1, (c.onTables T).2.pChild) := by
  cases c with
  | insertChild q c => rfl
  | removeChild q =>
    cases hq : T.pChild q with
    | nil =>
      have := Function.update_eq_self q T.pChild
      rw [hq] at this
      simp [spec, onTables, Tables.removeChild, hq, this]
    | cons c l =>
      have := ha.unlink_eq_update (h := q) (n := c) (by simp [hq])
      simp [spec, onTables, Tables.removeChild, hq, this]
  | outChild c =>
    by_cases hq : ∃ q, c ∈ T.pChild q
    · obtain ⟨q, hc⟩ := hq
      have hq : ∃ q, c ∈ T.pChild q := ⟨q, hc⟩
      simp [spec, onTables, Tables.outChild, hq, hp hc, hc]
    · have hn := not_exists.mp hq
      cases hc : (T.pcbs c).pParent with
      | none => simp [spec, onTables, Tables.outChild, hn, hc]
      | some q => simp [spec, onTables, Tables.outChild, hn, hc]

/-- What a call writes to `p_parent`. -/
theorem exec_pParent {c : Call} {r : Option Pcb} {t' : TreeHeap} {T : Tables}
    (h : c.exec t = some (r, t')) (hp : t.pParent = fun p => (T.pcbs p).pParent) :
    t'.pParent = fun p => ((c.onTables T).2.pcbs p).pParent := by
  cases c with
  | insertChild q c =>
    obtain ⟨u, hu, heq⟩ := Option.map_eq_some_iff.mp h
    obtain ⟨links, -, hu⟩ := Option.bind_eq_some_iff.mp hu
    cases heq
    cases hu
    funext p
    by_cases hpc : p = c <;> simp [onTables, Tables.insertChild, Tables.modPcb, hpc, hp]
  | removeChild q =>
    obtain ⟨links, -, h⟩ := Option.bind_eq_some_iff.mp h
    cases h
    change t.pParent = _
    rw [hp]
    funext p
    simp only [onTables, Tables.removeChild]
    split <;> rfl
  | outChild c =>
    have ht : t'.pParent = t.pParent := by
      simp only [exec, TreeHeap.outChild] at h
      split at h
      · cases h
        rfl
      · obtain ⟨links, -, h⟩ := Option.bind_eq_some_iff.mp h
        cases h
        rfl
    rw [ht, hp]
    funext p
    simp only [onTables, Tables.outChild]
    split
    · rfl
    · split <;> rfl

/-- A heap that holds the child lists and parents of the tables goes on to. -/
theorem exec_onTables {T : Tables} (hH : t.Holds A T.pChild)
    (hp : t.pParent = fun p => (T.pcbs p).pParent) {c : Call} (hc : c.Within A) :
    ∃ t', c.exec t = some ((c.onTables T).1, t') ∧ t'.Holds A (c.onTables T).2.pChild ∧
      t'.pParent = fun p => ((c.onTables T).2.pcbs p).pParent := by
  obtain ⟨t', ht, hH'⟩ := exec_holds hH hc
  have hpar : ∀ {q c}, c ∈ T.pChild q → (T.pcbs c).pParent = some q := by
    intro q c hc
    have := hH.parent hc
    rwa [hp] at this
  rw [onTables_spec hH.represents.apart hpar] at ht hH'
  exact ⟨t', ht, hH', exec_pParent ht hp⟩

end Call

end TreeHeap

end Pandos
