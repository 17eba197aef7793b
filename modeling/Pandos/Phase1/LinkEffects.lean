import Pandos.Phase1.Alike
import Pandos.Phase1.Effects
import Pandos.Phase1.Links

/-!
# What the pointers of phase 1 hold

`Holds` says that the pointers thread the lists of the tables. Every function
keeps it and returns what the same function returns on the tables.
-/

namespace Pandos
open Intrusive

namespace TreeHeap
variable {t : TreeHeap} {A : Set Pcb} {C : Lists Pcb Pcb} {p : Pcb}

/-- A pcb without parent and children can be reset, also one that never was. -/
theorem Holds.reset (hH : t.Holds A C) (hc : C p = []) (hp : ∀ q, p ∉ C q) :
    (t.reset p).Holds (insert p A) C where
  represents := by
    have hcells : (insert (.node p) (insert (.head p) (cells A)) : Set (Cell Pcb Pcb)) =
        cells (insert p A) := by
      ext a
      cases a <;> simp only [Set.mem_insert_iff, Cell.head.injEq, Cell.node.injEq, reduceCtorEq,
        false_or] <;> exact Iff.rfl
    have hhead : t.links.initListHead (.head p) |>.Represents (insert (.head p) (cells A)) C := by
      refine hH.represents.renew fun hA => ?_
      have hchain := hH.represents.chain p hA
      rw [hc] at hchain
      exact (List.isChain_cons_cons.mp hchain).1
    rw [← hcells]
    exact hhead.renew fun hA => hhead.alone p hA hp
  parent := by
    intro q c hcq
    have hne : c ≠ p := fun e => hp q (e ▸ hcq)
    simpa [TreeHeap.reset, hne] using hH.parent hcq
  parent_mem := by
    intro q c hcA hcq
    by_cases hcp : c = p
    · simp [TreeHeap.reset, hcp] at hcq
    · have hcq : t.pParent c = some q := by simpa [TreeHeap.reset, hcp] using hcq
      exact .inr (hH.parent_mem (hcA.resolve_left hcp) hcq)

end TreeHeap

namespace Links

/-- The initialised cells: the `s_procq` of a free descriptor is none. -/
def cells (free : List Semd) : Set (Cell ProcQ Pcb) := fun
  | .head (.sProcq i) => i ∉ free
  | _ => True

/-- The pointers thread the lists of the tables; `A` are the pcbs that have been
allocated. A free descriptor is in no bucket, and a free pcb nobody's child. -/
structure Holds (V : Blur) (t : Links) (A : Set Pcb) (T : Tables) : Prop where
  pcbs : ∀ p, (t.pcbs p).Alike V (T.pcbs p)
  queues : t.pList.Represents (cells T.semdFreeH) T.procQ
  tree : t.tree.Holds A T.pChild
  keys : t.sKey = T.sKey
  free : t.sFreelink.Represents Set.univ fun _ => T.semdFreeH
  hash : t.sLink.Represents T.semdH
  stocked : ∀ i ∈ T.semdFreeH, T.procQ (.sProcq i) = [] ∧ ∀ b, i ∉ T.semdH b
  used : ∀ p, p ∉ T.free → p ∈ A
  detached : ∀ p ∈ T.free, T.pChild p = [] ∧ ∀ q, p ∉ T.pChild q

variable {V : Blur} {t : Links} {A : Set Pcb} {T : Tables} {p : Pcb} {head : ProcQ} {a : Word} {i : Semd}

@[simp] theorem node_mem_cells {free : List Semd} : .node p ∈ cells free := trivial

@[simp] theorem pcbFreeH_mem_cells {free : List Semd} : .head .pcbFreeH ∈ cells free := trivial

@[simp] theorem gReadyQueue_mem_cells {free : List Semd} : .head .gReadyQueue ∈ cells free := trivial

@[simp] theorem sProcq_mem_cells {free : List Semd} : .head (.sProcq i) ∈ cells free ↔ i ∉ free := Iff.rfl

namespace Holds

/-- The pointers thread the same lists for everybody. -/
theorem unique {V' : Blur} {A' : Set Pcb} {T' : Tables} (h : t.Holds V A T) (h' : t.Holds V' A' T') :
    T.procQ = T'.procQ ∧ T.pChild = T'.pChild ∧ T.sKey = T'.sKey ∧ T.semdFreeH = T'.semdFreeH ∧
      T.semdH = T'.semdH := by
  have hfree : T.semdFreeH = T'.semdFreeH := h.free.unique (h := ()) h'.free trivial trivial
  have hpcb : T.free = T'.free := h.queues.unique h'.queues trivial trivial
  refine ⟨funext fun k => ?_, funext fun p => ?_, h.keys.symm.trans h'.keys, hfree, h.hash.unique h'.hash⟩
  · cases k with
    | pcbFreeH => exact hpcb
    | gReadyQueue => exact h.queues.unique h'.queues trivial trivial
    | sProcq i =>
      by_cases hi : i ∈ T.semdFreeH
      · rw [(h.stocked i hi).1, (h'.stocked i (hfree ▸ hi)).1]
      · exact h.queues.unique h'.queues hi (hfree ▸ hi)
  · by_cases hp : p ∈ T.free
    · rw [(h.detached p hp).1, (h'.detached p (hpcb ▸ hp)).1]
    · exact h.tree.represents.unique h'.tree.represents (h.used p hp) (h'.used p (hpcb ▸ hp))

/-- Records that are the same are alike. -/
theorem blur (h : t.Holds .exact A T) : t.Holds V A T :=
  { h with pcbs := fun p => (h.pcbs p).eq ▸ .refl _ }

/-- Only the queues change. -/
theorem withQueues (h : t.Holds V A T) {m : Heap ProcQ Pcb} {procQ : Lists ProcQ Pcb}
    (hR : m.Represents (cells T.semdFreeH) procQ)
    (hs : ∀ i ∈ T.semdFreeH, procQ (.sProcq i) = []) (hu : ∀ p, p ∉ procQ .pcbFreeH → p ∈ A)
    (hd : ∀ p ∈ procQ .pcbFreeH, T.pChild p = [] ∧ ∀ q, p ∉ T.pChild q) :
    ({ t with pList := m } : Links).Holds V A { T with procQ } :=
  { h with queues := hR, stocked := fun i hi => ⟨hs i hi, (h.stocked i hi).2⟩, used := hu, detached := hd }

/-- Only a record changes, and not its parent. -/
theorem modPcb (h : t.Holds V A T) {f g : PcbT → PcbT} (hf : (f (t.pcbs p)).Alike V (g (T.pcbs p)))
    (hp : (f (t.pcbs p)).pParent = (t.pcbs p).pParent) :
    (t.modPcb p f).Holds V A (T.modPcb p g) := by
  have hparent : (t.modPcb p f).tree = t.tree := by
    simp only [Links.tree, Links.modPcb]
    congr 1
    funext q
    by_cases hq : q = p
    · subst hq
      simpa using hp
    · simp [hq]
  refine { h with pcbs := fun q => ?_, tree := hparent ▸ h.tree }
  by_cases hq : q = p
  · subst hq
    simpa [Links.modPcb, Tables.modPcb] using hf
  · simpa [Links.modPcb, Tables.modPcb, hq] using h.pcbs q

theorem setSemAdd (h : t.Holds V A T) : (t.modPcb p ({ · with pSemAdd := a })).Holds V A
    (T.modPcb p ({ · with pSemAdd := a })) :=
  h.modPcb { h.pcbs p with pSemAdd := rfl } rfl

/-- The parents in the records are those of the tree. -/
theorem parents (h : t.Holds V A T) : t.tree.pParent = fun p => (T.pcbs p).pParent :=
  funext fun p => (h.pcbs p).pParent

section queues
variable (h : t.Holds V A T)
include h

theorem not_free_of_mem (hp : p ∈ T.procQ head) (hf : head ≠ .pcbFreeH) : p ∈ A :=
  h.used p fun hm => hf (h.queues.apart.unique hp hm)

theorem listDeleteSafe (hp : p ∈ A) :
    ∃ t', t.listDeleteSafe (.node p) = some t' ∧ t'.Holds V A (T.listDel p) := by
  obtain ⟨m, hm, hR⟩ := h.queues.listDeleteSafe (n := p) trivial
  refine ⟨{ t with pList := m }, by simp [Links.listDeleteSafe, hm], h.withQueues hR (fun i hi => ?_) (fun q hq => ?_) fun q hq => ?_⟩
  · simp [Lists.unlink, (h.stocked i hi).1]
  · by_cases hqp : q = p
    · exact hqp ▸ hp
    · exact h.used q fun hf => hq (Lists.mem_unlink.mpr ⟨hf, hqp⟩)
  · exact h.detached q (Lists.mem_unlink.mp hq).1

theorem insertProcQ (hp : p ∈ A) (hh : .head head ∈ cells T.semdFreeH) (hf : head ≠ .pcbFreeH) :
    ∃ t', t.insertProcQ head p = some t' ∧ t'.Holds V A (T.insertProcQ head p) := by
  obtain ⟨m, hm, hR⟩ := h.queues.moveLast hh (n := p) trivial
  have hmem : ∀ {k q}, q ∈ (T.procQ.unlink p).append head p k ↔ q ∈ T.procQ k ∧ q ≠ p ∨ k = head ∧ q = p := by
    intro k q
    rw [Lists.mem_append, Lists.mem_unlink]
  refine ⟨{ t with pList := m }, ?_, h.withQueues hR (fun i hi => ?_) (fun q hq => ?_) fun q hq => ?_⟩
  · have hm : QueueHeap.insertProcQ t.pList head p = some m := hm
    simp [Links.insertProcQ, hm]
  · have hne : ProcQ.sProcq i ≠ head := by
      rintro rfl
      exact hh hi
    rw [Lists.append_of_ne hne]
    simp [Lists.unlink, (h.stocked i hi).1]
  · by_cases hqp : q = p
    · exact hqp ▸ hp
    · exact h.used q fun hf => hq (hmem.mpr (.inl ⟨hf, hqp⟩))
  · rcases hmem.mp hq with ⟨hq, -⟩ | ⟨he, -⟩
    · exact h.detached q hq
    · exact absurd he.symm hf

theorem emptyProcQ (hh : .head head ∈ cells T.semdFreeH) : t.emptyProcQ head = T.emptyProcQ head := by
  rw [Bool.eq_iff_iff, Tables.emptyProcQ, List.isEmpty_iff]
  exact h.queues.listEmpty_iff hh

theorem headProcQ (hh : .head head ∈ cells T.semdFreeH) : t.headProcQ head = some (T.headProcQ head) := by
  have he := h.emptyProcQ hh
  have hn := h.queues.next_head hh
  have hempty : QueueHeap.emptyProcQ t.pList head = (T.procQ head).isEmpty := he
  simp only [Links.headProcQ, QueueHeap.headProcQ, Tables.headProcQ, hempty, hn]
  cases T.procQ head <;> rfl

theorem removeProcQ (hh : .head head ∈ cells T.semdFreeH) (hf : head ≠ .pcbFreeH) :
    ∃ t', t.removeProcQ head = some ((T.removeProcQ head).1, t') ∧
      t'.Holds V A (T.removeProcQ head).2 := by
  have he := h.emptyProcQ hh
  have hn := h.queues.next_head hh
  have hempty : t.pList.listEmpty (.head head) = (T.procQ head).isEmpty := he
  cases hq : T.procQ head with
  | nil =>
    refine ⟨t, ?_, by simpa [Tables.removeProcQ, hq] using h⟩
    simp [Links.removeProcQ, QueueHeap.removeProcQ, Heap.takeFirst, hempty, hq, Tables.removeProcQ]
  | cons p l =>
    obtain ⟨t', ht, hH⟩ := h.listDeleteSafe (h.not_free_of_mem (p := p) (by simp [hq]) hf)
    obtain ⟨m, hm, ht⟩ := Option.bind_eq_some_iff.mp ht
    refine ⟨t', ?_, by simpa [Tables.removeProcQ, hq] using hH⟩
    cases ht
    simp [Links.removeProcQ, QueueHeap.removeProcQ, Heap.takeFirst, hempty, hq, hn, Cell.containerOf, hm,
      Tables.removeProcQ]

theorem outProcQ (hh : .head head ∈ cells T.semdFreeH) (hf : head ≠ .pcbFreeH) :
    ∃ t', t.outProcQ head p = some ((T.outProcQ head p).1, t') ∧
      t'.Holds V A (T.outProcQ head p).2 := by
  have hl := h.queues.listFind hh (n := p)
  have hn := h.queues.next_head hh
  rw [Fintype.card_fin, hn, Option.bind_some] at hl
  by_cases hp : p ∈ T.procQ head
  · obtain ⟨t', ht, hH⟩ := h.listDeleteSafe (h.not_free_of_mem hp hf)
    obtain ⟨m, hm, ht⟩ := Option.bind_eq_some_iff.mp ht
    refine ⟨t', ?_, by simpa [Tables.outProcQ, hp] using hH⟩
    cases ht
    simp [Links.outProcQ, QueueHeap.outProcQ, Heap.takeOut, hn, hl, hp, hm, Tables.outProcQ]
  · refine ⟨t, ?_, by simpa [Tables.outProcQ, hp] using h⟩
    simp [Links.outProcQ, QueueHeap.outProcQ, Heap.takeOut, hn, hl, hp, Tables.outProcQ]

/-! ### The free list -/

theorem freePcb (hp : p ∈ A) (hc : T.pChild p = []) (ho : ∀ q, p ∉ T.pChild q) :
    ∃ t', t.freePcb p = some t' ∧ t'.Holds V A (T.freePcb p) := by
  have he := h.queues.listEmpty_node (n := p) trivial
  obtain ⟨t', ht, hH⟩ : ∃ t', (if t.pList.listEmpty (.node p) then some t
      else t.listDeleteSafe (.node p)) = some t' ∧ t'.Holds V A (T.listDel p) := by
    split
    · next hl =>
      refine ⟨t, rfl, ?_⟩
      rw [Tables.listDel, Lists.unlink_of_free (he.mp hl)]
      exact h
    · exact h.listDeleteSafe hp
  obtain ⟨m, hm, hR⟩ := hH.queues.listAdd pcbFreeH_mem_cells (n := p) fun k hk => (Lists.mem_unlink.mp hk).2 rfl
  rw [Set.insert_eq_of_mem node_mem_cells] at hR
  rw [Tables.freePcb_eq]
  refine ⟨{ t' with pList := m }, ?_, hH.withQueues hR (fun i hi => ?_) (fun q hq => ?_) fun q hq => ?_⟩
  · cases hl : t.pList.listEmpty (.node p) with
    | true =>
      obtain rfl : t = t' := by simpa [hl] using ht
      simp [Links.freePcb, hl, hm]
    | false =>
      have ht : t.listDeleteSafe (.node p) = some t' := by simpa [hl] using ht
      simp [Links.freePcb, hl, ht, hm]
  · rw [Lists.push_of_ne (by simp)]
    exact (hH.stocked i hi).1
  · exact hH.used q fun hf => hq (Lists.mem_push.mpr (.inl hf))
  · rcases Lists.mem_push.mp hq with hq | ⟨-, rfl⟩
    · exact hH.detached q hq
    · exact ⟨hc, ho⟩

theorem allocPcb_empty (hf : T.free = []) : t.allocPcb = some (none, t) := by
  have he := (h.queues.listEmpty_iff (h := .pcbFreeH) (by simp)).mpr hf
  simp [Links.allocPcb, he]

/-- The new pcb is out of the free list, and all its links are as good as new. -/
theorem allocPcb {l : List Pcb} (hf : T.free = p :: l) :
    ∃ t', t.allocPcb = some (some p, t') ∧ t'.Holds V (insert p A) ((T.listDel p).resetPcb p) := by
  have hp : p ∈ T.free := by simp [hf]
  obtain ⟨hc, ho⟩ := h.detached p hp
  have hne : t.pList.listEmpty (.head .pcbFreeH) = false := by
    rw [Bool.eq_false_iff, ne_eq, h.queues.listEmpty_iff (by simp)]
    simp [hf]
  have hn := h.queues.next_head (h := .pcbFreeH) (by simp)
  obtain ⟨m, hm, hR⟩ := h.queues.listDeleteSafe (n := p) trivial
  have hR' := hR.renew (a := .node p) fun _ => hR.alone_of_unlink trivial
  rw [Set.insert_eq_of_mem node_mem_cells] at hR'
  have hsame : ((T.listDel p).resetPcb p).pChild = T.pChild := by
    show Function.update T.pChild p [] = T.pChild
    rw [← hc, Function.update_eq_self]
  refine ⟨({ t with pList := m } : Links).reset p, ?_, ?_⟩
  · simp [Links.allocPcb, hne, hn, hf, hm, Links.listDeleteSafe, Cell.containerOf]
  have htree : (({ t with pList := m } : Links).reset p).tree = t.tree.reset p := by
    simp only [Links.tree, Links.reset, TreeHeap.reset]
    congr 1
    funext q
    by_cases hq : q = p <;> simp [hq, PcbT.zero]
  have hunlinked : ∀ {q}, q ∈ ((T.listDel p).resetPcb p).free → q ∈ T.free := fun hq =>
    (Lists.mem_unlink.mp hq).1
  exact {
    pcbs := fun q => by
      by_cases hq : q = p
      · simpa [Links.reset, Tables.resetPcb, Tables.modPcb, hq] using .refl _
      · simpa [Links.reset, Tables.resetPcb, Tables.modPcb, Tables.listDel, hq] using h.pcbs q
    queues := hR'
    tree := by
      rw [hsame, htree]
      exact h.tree.reset hc ho
    keys := h.keys
    free := h.free
    hash := h.hash
    stocked := fun i hi => ⟨by
      show (T.procQ (.sProcq i)).filter _ = []
      rw [(h.stocked i hi).1, List.filter_nil], (h.stocked i hi).2⟩
    used := fun q hq => by
      by_cases hqp : q = p
      · exact .inl hqp
      · exact .inr (h.used q fun hf => hq (Lists.mem_unlink.mpr ⟨hf, hqp⟩))
    detached := fun q hq => by
      rw [hsame]
      exact h.detached q (hunlinked hq) }

end queues

/-! ### The tree -/

/-- What a call about the tree leaves as it is. -/
theorem onTables_frame (T : Tables) (c : TreeHeap.Call) :
    (c.onTables T).2 = { T with
      pcbs := fun p => { T.pcbs p with pParent := ((c.onTables T).2.pcbs p).pParent }
      pChild := (c.onTables T).2.pChild } := by
  cases c with
  | insertChild q c =>
    refine Tables.eq_of (funext fun p => ?_) rfl rfl rfl rfl rfl
    by_cases hp : p = c <;> simp [TreeHeap.Call.onTables, Tables.insertChild, Tables.modPcb, hp]
  | removeChild q =>
    simp only [TreeHeap.Call.onTables, Tables.removeChild]
    split <;> rfl
  | outChild c =>
    simp only [TreeHeap.Call.onTables, Tables.outChild]
    split
    · rfl
    · split <;> rfl

theorem treeCall (h : t.Holds V A T) {c : TreeHeap.Call} (hc : c.Within A)
    (hnew : ∀ q x, x ∈ (c.onTables T).2.pChild q → x ∈ T.pChild q ∨ q ∉ T.free ∧ x ∉ T.free) :
    ∃ u, c.exec t.tree = some ((c.onTables T).1, u) ∧ (t.withTree u).Holds V A (c.onTables T).2 := by
  obtain ⟨u, hu, hH, hp⟩ := TreeHeap.Call.exec_onTables h.tree h.parents hc
  refine ⟨u, hu, ?_⟩
  rw [onTables_frame T c]
  refine { h with pcbs := ?_, tree := hH, detached := fun p hf => ⟨?_, fun q hq => ?_⟩ }
  · exact fun q => { h.pcbs q with pParent := congrFun hp q }
  · refine List.eq_nil_iff_forall_not_mem.mpr fun x hx => ?_
    rcases hnew p x hx with hx | ⟨hn, -⟩
    · rw [(h.detached p hf).1] at hx
      cases hx
    · exact hn hf
  · rcases hnew q p hq with hq | ⟨-, hn⟩
    · exact (h.detached p hf).2 q hq
    · exact hn hf

section tree
variable (h : t.Holds V A T)
include h

theorem emptyChild (hp : p ∈ A) : t.emptyChild p = T.emptyChild p := by
  rw [Bool.eq_iff_iff, Tables.emptyChild, List.isEmpty_iff]
  exact h.tree.represents.listEmpty_iff hp

theorem children (hp : p ∈ A) : t.children p = some (T.pChild p) := by
  have hn := h.tree.represents.listNodes (h := p) hp
  rwa [Fintype.card_fin] at hn

theorem insertChild {q : Pcb} (hq : q ∉ T.free) (hp : p ∉ T.free) :
    ∃ t', t.insertChild q p = some t' ∧ t'.Holds V A (T.insertChild q p) := by
  obtain ⟨u, hu, hH⟩ := h.treeCall (c := .insertChild q p) ⟨h.used q hq, h.used p hp⟩ fun r x hx => by
    rcases Lists.mem_append.mp hx with hx | ⟨rfl, rfl⟩
    · exact .inl (Lists.mem_unlink.mp hx).1
    · exact .inr ⟨hq, hp⟩
  obtain ⟨u', hu', hx⟩ := Option.map_eq_some_iff.mp hu
  cases hx
  exact ⟨_, by simp [Links.insertChild, hu'], hH⟩

theorem removeChild (hp : p ∈ A) :
    ∃ t', t.removeChild p = some ((T.removeChild p).1, t') ∧ t'.Holds V A (T.removeChild p).2 := by
  obtain ⟨u, hu, hH⟩ := h.treeCall (c := .removeChild p) hp fun r x hx => by
    refine .inl ?_
    simp only [TreeHeap.Call.onTables, Tables.removeChild] at hx
    split at hx
    · exact hx
    · exact (Lists.mem_unlink.mp hx).1
  have hu : t.tree.removeChild p = some ((T.removeChild p).1, u) := hu
  exact ⟨_, by simp [Links.removeChild, hu], hH⟩

theorem outChild (hp : p ∈ A) :
    ∃ t', t.outChild p = some ((T.outChild p).1, t') ∧ t'.Holds V A (T.outChild p).2 := by
  obtain ⟨u, hu, hH⟩ := h.treeCall (c := .outChild p) hp fun r x hx => by
    refine .inl ?_
    simp only [TreeHeap.Call.onTables, Tables.outChild] at hx
    split at hx
    · exact hx
    · split at hx
      · exact (Lists.mem_unlink.mp hx).1
      · exact hx
  have hu : t.tree.outChild p = some ((T.outChild p).1, u) := hu
  exact ⟨_, by simp [Links.outChild, hu], hH⟩

/-- A child has been allocated. -/
theorem child_used {q : Pcb} (hp : p ∈ T.pChild q) : p ∈ A :=
  h.used p fun hf => (h.detached p hf).2 q hp

/-- After `outChild`, nobody has the pcb as a child. -/
theorem outChild_orphan (q : Pcb) : p ∉ (T.outChild p).2.pChild q := by
  intro hm
  have parent : ∀ {q}, p ∈ T.pChild q → (T.pcbs p).pParent = some q := fun hq => by
    have := h.tree.parent hq
    rwa [h.parents] at this
  unfold Tables.outChild at hm
  split at hm
  · next hn =>
    rw [parent hm] at hn
    cases hn
  · next r hr =>
    split at hm
    · exact (Lists.mem_unlink.mp hm).2 rfl
    · next hout =>
      obtain rfl : q = r := Option.some.inj ((parent hm).symm.trans hr)
      exact hout hm

end tree

/-! ### Semaphores -/

section semaphores
variable (h : t.Holds V A T)
include h

theorem findSem : t.findSem a = some (T.findSem a) := by
  simp only [Links.findSem, h.keys, Tables.findSem]
  split
  · next he => rw [h.hash.hlistEmpty_iff.mp he, List.find?_nil]
  · have hf := h.hash.hlistFind (fun i => T.sKey i = a) (h := hashMin a)
    rwa [Fintype.card_fin] at hf

/-- A descriptor that is found is in use. -/
theorem not_free_of_findSem (hf : T.findSem a = some i) : i ∉ T.semdFreeH := fun hi =>
  (h.stocked i hi).2 _ (List.mem_of_find?_eq_some hf)

theorem allocSemd_empty (hf : T.semdFreeH = []) : t.allocSemd = some (none, t) := by
  have he := (h.free.listEmpty_iff (h := ()) (Set.mem_univ _)).mpr hf
  simp [Links.allocSemd, he]

/-- The queue of a new descriptor is initialised, and it is in no bucket. -/
theorem allocSemd {rest : List Semd} (hf : T.semdFreeH = i :: rest) :
    ∃ t', t.allocSemd = some (some i, t') ∧
      t'.Holds V A (({ T with semdFreeH := rest } : Tables).resetSemd i) := by
  have hi : i ∈ T.semdFreeH := by simp [hf]
  obtain ⟨hq, ho⟩ := h.stocked i hi
  have hnd : i ∉ rest := by
    have := h.free.apart.nodup ()
    rw [hf] at this
    exact (List.nodup_cons.mp this).1
  have hne : t.sFreelink.listEmpty (.head ()) = false := by
    rw [Bool.eq_false_iff, ne_eq, h.free.listEmpty_iff (Set.mem_univ _)]
    simp [hf]
  have hn := h.free.next_head (h := ()) (Set.mem_univ _)
  obtain ⟨m, hm, hR⟩ := h.free.listDeleteSafe (n := i) (Set.mem_univ _)
  have hR' := hR.renew (a := .node i) fun _ => hR.alone_of_unlink (Set.mem_univ _)
  have hrest : Lists.unlink (fun _ : Unit => T.semdFreeH) i = fun _ => rest := by
    funext u
    exact h.free.apart.unlink_cons (h := u) hf
  rw [Set.insert_eq_of_mem (Set.mem_univ _), hrest] at hR'
  have hqueues := h.queues.initListHead (a := .head (.sProcq i)) fun hl => hl hi
  have hcells : (insert (.head (.sProcq i)) (cells T.semdFreeH) : Set (Cell ProcQ Pcb)) = cells rest := by
    ext c
    rcases c with (_ | _ | j) | p
    · simp
    · simp
    · by_cases hj : j = i <;> simp [hf, hj, hnd]
    · simp
  have hsame : Function.update T.procQ (.sProcq i) [] = T.procQ := by
    rw [← hq, Function.update_eq_self]
  rw [hcells] at hqueues
  refine ⟨({ t with sFreelink := m } : Links).resetSemd i, ?_, ?_⟩
  · simp [Links.allocSemd, hne, hn, hf, hm, Cell.containerOf]
  exact {
    pcbs := h.pcbs
    queues := by
      show (t.pList.initListHead _).Represents (cells rest) (Function.update T.procQ _ [])
      rwa [hsame]
    tree := h.tree
    keys := by
      show Function.update t.sKey i 0 = Function.update T.sKey i 0
      rw [h.keys]
    free := hR'
    hash := h.hash.initHlistNode ho
    stocked := fun j hj => by
      show Function.update T.procQ _ [] (.sProcq j) = [] ∧ ∀ b, j ∉ T.semdH b
      rw [hsame]
      exact h.stocked j (hf ▸ List.mem_cons_of_mem i hj)
    used := h.used
    detached := h.detached }

theorem hashAdd (hi : i ∉ T.semdFreeH) (ho : ∀ b, i ∉ T.semdH b) :
    (t.hashAdd i a).Holds V A (T.hashAdd i a) :=
  { h with
    keys := by
      show Function.update t.sKey i a = Function.update T.sKey i a
      rw [h.keys]
    hash := h.hash.hlistAddHead ho
    stocked := fun j hj => ⟨(h.stocked j hj).1, fun b hb => by
      rcases Lists.mem_push.mp hb with hb | ⟨-, rfl⟩
      · exact (h.stocked j hj).2 b hb
      · exact hi hj⟩ }

/-- The descriptor found or taken from the free list is in use. -/
theorem semFor : ∃ t', t.semFor a = some ((T.semFor a).1, t') ∧ t'.Holds V A (T.semFor a).2 ∧
    ∀ i ∈ (T.semFor a).1, i ∉ (T.semFor a).2.semdFreeH := by
  have hfind := h.findSem (a := a)
  cases hf : T.findSem a with
  | some i =>
    refine ⟨t, by simp [Links.semFor, Tables.semFor, hfind, hf], by simpa [Tables.semFor, hf] using h, ?_⟩
    simpa [Tables.semFor, hf] using h.not_free_of_findSem hf
  | none =>
    cases hs : T.semdFreeH with
    | nil =>
      refine ⟨t, ?_, ?_, ?_⟩
      · simp [Links.semFor, Tables.semFor, hfind, hf, h.allocSemd_empty hs, Tables.allocSemd, hs]
      · simpa [Tables.semFor, Tables.allocSemd, hf, hs] using h
      · simp [Tables.semFor, Tables.allocSemd, hf, hs]
    | cons i rest =>
      obtain ⟨t', ht, hH⟩ := h.allocSemd hs
      have hnd : i ∉ rest := by
        have := h.free.apart.nodup ()
        rw [hs] at this
        exact (List.nodup_cons.mp this).1
      refine ⟨t'.hashAdd i a, ?_, ?_, ?_⟩
      · simp [Links.semFor, Tables.semFor, hfind, hf, ht, Tables.allocSemd, hs]
      · have hadd := hH.hashAdd (a := a) hnd (h.stocked i (by simp [hs])).2
        simpa [Tables.semFor, Tables.allocSemd, hf, hs] using hadd
      · simpa [Tables.semFor, Tables.allocSemd, hf, hs, Tables.hashAdd, Tables.resetSemd,
          Tables.mkEmptyProcQ] using hnd

theorem freeSemdIfempty (hi : i ∉ T.semdFreeH) :
    ∃ t', t.freeSemdIfempty i = some t' ∧ t'.Holds V A (T.freeSemdIfempty i) := by
  have he := h.emptyProcQ (sProcq_mem_cells.mpr hi)
  simp only [Links.freeSemdIfempty, Tables.freeSemdIfempty, he]
  split
  · next hempty =>
    have hq : T.procQ (.sProcq i) = [] := by simpa [Tables.emptyProcQ] using hempty
    obtain ⟨m, hm, hR⟩ := h.free.listAdd (h := ()) (n := i) (Set.mem_univ _) fun _ => hi
    have hpush : Lists.push (fun _ : Unit => T.semdFreeH) () i = fun _ => i :: T.semdFreeH := by
      funext u
      exact Lists.push_self
    rw [Set.insert_eq_of_mem (Set.mem_univ _), hpush] at hR
    refine ⟨_, by rw [hm]; rfl, ?_⟩
    exact {
      pcbs := h.pcbs
      queues := by
        refine h.queues.shrink ?_ fun {k n} hn => ⟨?_, trivial⟩
        · rintro ((_ | _ | j) | p) hc
          · trivial
          · trivial
          · exact fun hj => hc (List.mem_cons_of_mem i hj)
          · trivial
        · rcases k with _ | _ | j
          · trivial
          · trivial
          · rintro (_ | ⟨_, hj⟩)
            · simp [hq] at hn
            · simp [(h.stocked j hj).1] at hn
      tree := h.tree
      keys := h.keys
      free := hR
      hash := h.hash.hlistDelInit i
      stocked := by
        rintro j (_ | ⟨_, hj⟩)
        · exact ⟨hq, fun b => by simp⟩
        · exact ⟨(h.stocked j hj).1, fun b hb => (h.stocked j hj).2 b (Lists.mem_unlink.mp hb).1⟩
      used := h.used
      detached := h.detached }
  · exact ⟨t, rfl, h⟩

theorem insertBlocked (hp : p ∈ A) : ∃ t', t.insertBlocked a p = some ((T.insertBlocked a p).1, t') ∧
    t'.Holds V A (T.insertBlocked a p).2 := by
  obtain ⟨t₁, h₁, hH₁, hlive⟩ := h.semFor (a := a)
  simp only [Links.insertBlocked, Tables.insertBlocked, h₁]
  generalize T.semFor a = fitted at hH₁ hlive ⊢
  obtain ⟨_ | i, u⟩ := fitted
  · exact ⟨t₁, rfl, hH₁⟩
  · obtain ⟨t₂, h₂, hH₂⟩ := hH₁.listDeleteSafe hp
    obtain ⟨t₃, h₃, hH₃⟩ := hH₂.insertProcQ hp (sProcq_mem_cells.mpr (hlive i rfl)) (by simp)
    refine ⟨t₃.modPcb p ({ · with pSemAdd := a }), ?_, hH₃.setSemAdd⟩
    simp [h₂, h₃]

theorem removeBlocked : ∃ t', t.removeBlocked a = some ((T.removeBlocked a).1, t') ∧
    t'.Holds V A (T.removeBlocked a).2 := by
  simp only [Links.removeBlocked, h.findSem, Tables.removeBlocked]
  cases hf : T.findSem a with
  | none => exact ⟨t, rfl, h⟩
  | some i =>
    have hi := h.not_free_of_findSem hf
    have he := h.emptyProcQ (sProcq_mem_cells.mpr hi)
    have hn := h.queues.next_head (h := .sProcq i) (sProcq_mem_cells.mpr hi)
    cases hq : T.procQ (.sProcq i) with
    | nil => exact ⟨t, by simp [he, Tables.emptyProcQ, hq], by simpa [hq] using h⟩
    | cons p l =>
      have hp : p ∈ T.procQ (.sProcq i) := by simp [hq]
      have hp := h.not_free_of_mem hp (by simp)
      obtain ⟨t₁, h₁, hH₁⟩ := (h.setSemAdd (p := p) (a := 0)).listDeleteSafe hp
      obtain ⟨t₂, h₂, hH₂⟩ := hH₁.freeSemdIfempty (i := i) hi
      refine ⟨t₂, ?_, by simpa [hq] using hH₂⟩
      simp only [BitVec.ofNat_eq_ofNat] at h₁
      simp [he, Tables.emptyProcQ, hq, hn, Cell.containerOf, h₁, h₂]

/-- Who is woken has been allocated. -/
theorem removeBlocked_used (hp : p ∈ (T.removeBlocked a).1) : p ∈ A := by
  unfold Tables.removeBlocked at hp
  cases hf : T.findSem a with
  | none => simp [hf] at hp
  | some i =>
    cases hq : T.procQ (.sProcq i) with
    | nil => simp [hf, hq] at hp
    | cons q l =>
      obtain rfl : q = p := by simpa [hf, hq] using hp
      have hmem : q ∈ T.procQ (.sProcq i) := by simp [hq]
      exact h.not_free_of_mem hmem (by simp)

omit h in
theorem scan_of_chain {m : Heap ProcQ Pcb} {c : Cell ProcQ Pcb} {l : List Pcb} {fuel : Nat} {met : Bool}
    (hc : (c :: (l.map .node ++ [.head head])).IsChain m.Edge) (hf : l.length < fuel) :
    (m.next c).bind (scan m (.head head) (.node p) fuel met) = some (met || decide (p ∈ l)) := by
  obtain ⟨fuel, rfl⟩ : ∃ k, fuel = k + 1 := ⟨fuel - 1, by omega⟩
  induction l generalizing c fuel met with
  | nil =>
    have := (List.isChain_cons_cons.mp hc).1
    simp [this.1, scan]
  | cons x l ih =>
    obtain ⟨hcx, hc⟩ := List.isChain_cons_cons.mp hc
    simp only [List.length_cons] at hf
    obtain ⟨fuel, rfl⟩ : ∃ k, fuel = k + 1 := ⟨fuel - 1, by omega⟩
    rw [hcx.1, Option.bind_some, scan, if_neg (by simp), ih hc fuel (by omega)]
    by_cases hx : p = x <;> simp [hx]

omit h in
/-- The loop meets a pcb if and only if it is in the queue. -/
theorem scan_eq {m : Heap ProcQ Pcb} {L : Lists ProcQ Pcb} {live : Set (Cell ProcQ Pcb)}
    (hR : m.Represents live L) (hh : .head head ∈ live) :
    (m.next (.head head)).bind (scan m (.head head) (.node p) (maxProc + 1) false) =
      some (decide (p ∈ L head)) := by
  refine (scan_of_chain (hR.chain head hh) ?_).trans (by simp)
  exact Nat.lt_succ_of_le (by simpa using (hR.apart.nodup head).length_le_card)

theorem outBlocked : ∃ t', t.outBlocked p = some ((T.outBlocked p).1, t') ∧
    t'.Holds V A (T.outBlocked p).2 := by
  simp only [Links.outBlocked, h.findSem, (h.pcbs p).pSemAdd, Tables.outBlocked]
  cases hf : T.findSem (T.pcbs p).pSemAdd with
  | none => exact ⟨t, rfl, h⟩
  | some i =>
    have hi := h.not_free_of_findSem hf
    have hh : .head (.sProcq i) ∈ cells T.semdFreeH := hi
    have hn := h.queues.next_head hh
    have hs := scan_eq (p := p) h.queues hh
    rw [hn, Option.bind_some] at hs
    by_cases hq : p ∈ T.procQ (.sProcq i)
    · obtain ⟨t₁, h₁, hH₁⟩ := h.listDeleteSafe (h.not_free_of_mem hq (by simp))
      obtain ⟨t₂, h₂, hH₂⟩ := hH₁.freeSemdIfempty (i := i) hi
      refine ⟨t₂.modPcb p ({ · with pSemAdd := 0 }), ?_, by simpa [hq] using hH₂.setSemAdd⟩
      simp [hn, hs, hq, h₁, h₂]
    · exact ⟨t, by simp [hn, hs, hq], by simpa [hq] using h⟩

theorem headBlocked : t.headBlocked a = some (T.headBlocked a) := by
  simp only [Links.headBlocked, h.findSem, Tables.headBlocked]
  cases hf : T.findSem a with
  | none => rfl
  | some i => exact h.headProcQ (sProcq_mem_cells.mpr (h.not_free_of_findSem hf))

end semaphores

end Holds

end Links

end Pandos
