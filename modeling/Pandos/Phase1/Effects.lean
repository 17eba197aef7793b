import Pandos.Phase1.Queues

/-!
# What the operations of phase 1 do

Each operation keeps the queues and the hash consistent, and moves processes
between their places as its comment in `process.h` or `semaphore.h` says.
-/

namespace Pandos.Tables
open Intrusive

variable {t t' u : Tables} {a : Word} {i j : Semd} {p q : Pcb} {l : List Pcb}

namespace Queued

theorem waiters_of_key (h : Queued t) (hk : t.sKey i = a) (hne : t.procQ (.sProcq i) ≠ []) :
    t.waiters a = t.procQ (.sProcq i) := by
  have hi : i ∉ t.semdFreeH := fun hf => hne ((h.waiting i).mpr hf)
  simp [waiters, h.findSem_iff.mpr ⟨hi, hk⟩]

theorem waiters_iff (h : Queued t) (hl : l ≠ []) :
    t.waiters a = l ↔ ∃ i, t.sKey i = a ∧ t.procQ (.sProcq i) = l := by
  constructor
  · intro hw
    obtain ⟨p, l, rfl⟩ := List.exists_cons_of_ne_nil hl
    obtain ⟨i, -, hq, -, hk⟩ := h.waiters_cons hw
    exact ⟨i, hk, hq⟩
  · rintro ⟨i, hk, hq⟩
    rw [h.waiters_of_key hk (hq ▸ hl), hq]

theorem waiters_eq_nil (h : Queued t) :
    t.waiters a = [] ↔ ∀ i, t.sKey i = a → t.procQ (.sProcq i) = [] := by
  rw [h.waiters_nil, h.findSem_none]
  constructor
  · intro hn i hk
    by_contra hne
    exact hn i (fun hf => hne ((h.waiting i).mpr hf)) hk
  · intro hn i hi hk
    exact hi ((h.waiting i).mp (hn i hk))

/-- The queues of the descriptors decide the queues of the addresses. -/
theorem waiters_map (h : Queued t) (h' : Queued t') (f : List Pcb → List Pcb) (hf : f [] = [])
    (hk : ∀ i, t.procQ (.sProcq i) ≠ [] → t'.sKey i = t.sKey i)
    (hq : ∀ i, t'.procQ (.sProcq i) = f (t.procQ (.sProcq i))) (a : Word) :
    t'.waiters a = f (t.waiters a) := by
  have old : ∀ i, t'.procQ (.sProcq i) ≠ [] → t.procQ (.sProcq i) ≠ [] := by
    intro i hne he
    exact hne (by rw [hq, he, hf])
  by_cases hw : t.waiters a = []
  · rw [hw, hf, h'.waiters_eq_nil]
    intro i hi
    by_contra hne
    exact old i hne (h.waiters_eq_nil.mp hw i ((hk i (old i hne)).symm.trans hi))
  · have : ∃ i, t.sKey i = a ∧ t.procQ (.sProcq i) ≠ [] := by
      by_contra hn
      push Not at hn
      exact hw (h.waiters_eq_nil.mpr hn)
    obtain ⟨i, hi, hne⟩ := this
    rw [h.waiters_of_key hi hne, ← hq]
    by_cases he : t'.procQ (.sProcq i) = []
    · rw [he, h'.waiters_eq_nil]
      intro j hj
      by_contra hne'
      have hkj := (hk j (old j hne')).symm.trans hj
      have active : ∀ k, t.procQ (.sProcq k) ≠ [] → k ∉ t.semdFreeH :=
        fun k hk hf => hk ((h.waiting k).mpr hf)
      have := h.keyUnique i j (active i hne) (active j (old j hne')) (hi.trans hkj.symm)
      exact hne' (this ▸ he)
    · exact h'.waiters_of_key ((hk i hne).trans hi) he

end Queued

/-! ## Free and ready processes -/

namespace Queued

/-- Nodes can move among the other queues, and records and children can change,
as long as no process gets on or off a semaphore. -/
theorem relink (h : Queued t) (ha : t'.procQ.Apart)
    (hq : ∀ i, t'.procQ (.sProcq i) = t.procQ (.sProcq i)) (hk : t'.sKey = t.sKey)
    (hf : t'.semdFreeH = t.semdFreeH) (hh : t'.semdH = t.semdH)
    (hs : ∀ p, (t'.pcbs p).pSemAdd = (t.pcbs p).pSemAdd) : Queued t' where
  freeNodup := hf ▸ h.freeNodup
  bucketNodup := hh ▸ h.bucketNodup
  placed := by rw [hh, hf, hk]; exact h.placed
  keyUnique := by rw [hf, hk]; exact h.keyUnique
  keyNe := by rw [hf, hk]; exact h.keyNe
  apart := ha
  waiting i := by rw [hq, hf]; exact h.waiting i
  keyed i p hp := by rw [hs, hk]; exact h.keyed i p (hq i ▸ hp)
  blocked p hp := by
    obtain ⟨i, hi⟩ := h.blocked p (hs p ▸ hp)
    exact ⟨i, (hq i).symm ▸ hi⟩

/-- Only `p_semAdd` of a record matters. -/
theorem modPcb (h : Queued t) {f : PcbT → PcbT} (hf : (f (t.pcbs p)).pSemAdd = (t.pcbs p).pSemAdd) :
    Queued (t.modPcb p f) := by
  refine h.relink h.apart (fun _ => rfl) rfl rfl rfl fun q => ?_
  by_cases hq : q = p
  · subst hq
    simpa [Tables.modPcb] using hf
  · simp [Tables.modPcb, hq]

end Queued

theorem waiters_congr (hq : ∀ i, t'.procQ (.sProcq i) = t.procQ (.sProcq i))
    (hk : t'.sKey = t.sKey) (hh : t'.semdH = t.semdH) (a : Word) : t'.waiters a = t.waiters a := by
  simp only [waiters, findSem, hk, hh, hq]

theorem queue_ext {l : Lists Place Pcb} (hf : t.free = l .free) (hr : t.ready = l .ready)
    (hw : ∀ a, t.waiters a = l (.sem a)) : t.queues.queue = l := by
  funext k
  cases k with
  | free => exact hf
  | ready => exact hr
  | sem a => exact hw a

theorem insertProcQ_procQ (t : Tables) (head k : ProcQ) (p : Pcb) :
    (t.insertProcQ head p).procQ k =
      if k = head then t.procQ.unlink p k ++ [p] else t.procQ.unlink p k := by
  split
  · next h => exact h ▸ Lists.append_self
  · next h => exact Lists.append_of_ne h

theorem freePcb_eq (t : Tables) (p : Pcb) :
    t.freePcb p = { t with procQ := (t.procQ.unlink p).push .pcbFreeH p } := by
  unfold freePcb
  split
  · rfl
  · next hl =>
    have hn : ∀ k, p ∉ t.procQ k := by
      simp only [linked, Bool.or_eq_true, decide_eq_true_eq, List.any_eq_true, not_or] at hl
      intro k
      cases k with
      | pcbFreeH => exact hl.1.1
      | gReadyQueue => exact hl.1.2
      | sProcq i => exact fun hm => hl.2 ⟨i, List.mem_finRange i, hm⟩
    rw [Lists.unlink_of_free hn]
    rfl

theorem freePcb_procQ (t : Tables) (k : ProcQ) (p : Pcb) :
    (t.freePcb p).procQ k =
      if k = .pcbFreeH then p :: t.procQ.unlink p k else t.procQ.unlink p k := by
  rw [freePcb_eq]
  split
  · next h => exact h ▸ Lists.push_self
  · next h => exact Lists.push_of_ne h

section unblocked
variable (h : Queued t) (hp : (t.pcbs p).pSemAdd = 0)
include h hp

theorem unlink_sem (i : Semd) : t.procQ.unlink p (.sProcq i) = t.procQ (.sProcq i) :=
  Lists.unlink_of_not_mem (h.semAdd_eq_zero.mp hp i)

theorem unlink_waiters (a : Word) : t.queues.queue.unlink p (.sem a) = t.waiters a := by
  apply Lists.unlink_of_not_mem
  intro hm
  obtain ⟨ha, he⟩ := h.mem_waiters.mp hm
  exact ha (he.symm.trans hp)

theorem listDel_queued : Queued (t.listDel p) :=
  h.relink (h.apart.unlink p) (unlink_sem h hp) rfl rfl rfl fun _ => rfl

theorem listDel_queues : (t.listDel p).queues = t.queues.unlink p := by
  apply Queues.ext
  · rfl
  · apply queue_ext
    · rfl
    · rfl
    · intro a
      have hs : ∀ i, (t.listDel p).procQ (.sProcq i) = t.procQ (.sProcq i) := unlink_sem h hp
      have hw : (t.listDel p).waiters a = t.waiters a := waiters_congr hs rfl rfl a
      exact hw.trans (unlink_waiters h hp a).symm
  · rfl

theorem insertProcQ_sem (i : Semd) :
    (t.insertProcQ .gReadyQueue p).procQ (.sProcq i) = t.procQ (.sProcq i) := by
  rw [insertProcQ_procQ, if_neg (by simp), unlink_sem h hp]

theorem insertProcQ_queued : Queued (t.insertProcQ .gReadyQueue p) :=
  h.relink ((h.apart.unlink p).append fun _ => by simp) (insertProcQ_sem h hp) rfl rfl rfl
    fun _ => rfl

/-- `insertProcQ` moves a process to the end of the ready queue. -/
theorem insertProcQ_queues :
    (t.insertProcQ .gReadyQueue p).queues = t.queues.moveLast .ready p := by
  apply Queues.ext
  · rfl
  · apply queue_ext
    · rw [Queues.queue_moveLast, if_neg (by simp), free, insertProcQ_procQ, if_neg (by simp)]
      rfl
    · rw [Queues.queue_moveLast, if_pos rfl, ready, insertProcQ_procQ, if_pos rfl]
      rfl
    · intro a
      rw [waiters_congr (insertProcQ_sem h hp) rfl rfl, Queues.queue_moveLast, if_neg (by simp)]
      exact (unlink_waiters h hp a).symm
  · rfl

theorem freePcb_sem (i : Semd) : (t.freePcb p).procQ (.sProcq i) = t.procQ (.sProcq i) := by
  rw [freePcb_procQ, if_neg (by simp), unlink_sem h hp]

theorem freePcb_queued : Queued (t.freePcb p) := by
  refine h.relink ?_ (freePcb_sem h hp) ?_ ?_ ?_ ?_ <;> rw [freePcb_eq]
  · exact (h.apart.unlink p).push fun _ => by simp
  · exact fun _ => rfl

/-- `freePcb` moves a process to the front of the free list. -/
theorem freePcb_queues : (t.freePcb p).queues = t.queues.moveFirst .free p := by
  have hw : ∀ a, (t.freePcb p).waiters a = t.waiters a :=
    waiters_congr (freePcb_sem h hp) (by rw [freePcb_eq]) (by rw [freePcb_eq])
  apply Queues.ext
  · rw [freePcb_eq]
    rfl
  · apply queue_ext
    · rw [Queues.queue_moveFirst, if_pos rfl, free, freePcb_procQ, if_pos rfl]
      rfl
    · rw [Queues.queue_moveFirst, if_neg (by simp), ready, freePcb_procQ, if_neg (by simp)]
      rfl
    · intro a
      rw [hw, Queues.queue_moveFirst, if_neg (by simp)]
      exact (unlink_waiters h hp a).symm
  · rw [freePcb_eq]
    rfl

end unblocked

theorem removeProcQ_cons {l : List Pcb} (hr : t.ready = p :: l) :
    t.removeProcQ .gReadyQueue = (some p, t.listDel p) := by
  simp only [removeProcQ, show t.procQ .gReadyQueue = p :: l from hr]

/-- `allocPcb` fails on an empty free list only, and then changes nothing. -/
theorem allocPcb_nil (hf : t.free = []) : t.allocPcb = (none, t) := by
  rw [allocPcb, hf]

theorem allocPcb_cons (hf : t.free = p :: l) :
    t.allocPcb = (some p, (t.listDel p).resetPcb p) := by
  rw [allocPcb, hf]

theorem allocPcb_queued (h : Queued t) (hp : p ∈ t.free) :
    Queued ((t.listDel p).resetPcb p) := by
  have hs := h.semAdd_of_free hp
  have hd := (listDel_queued h hs).modPcb (p := p) (f := fun _ => .zero) hs.symm
  exact hd.relink hd.apart (fun _ => rfl) rfl rfl rfl fun _ => rfl

theorem allocPcb_queues (h : Queued t) (hp : p ∈ t.free) :
    ((t.listDel p).resetPcb p).queues = t.queues.alloc p := by
  have hd := listDel_queues h (h.semAdd_of_free hp)
  apply Queues.ext
  · rfl
  · exact (congrArg Queues.queue hd :)
  · rfl

theorem initPcbs_eq (t : Tables) : t.initPcbs =
    { t with procQ := Function.update t.procQ .pcbFreeH ((List.finRange maxProc).reverse ++ t.free) } := by
  have fold : ∀ (l : List Pcb) (t : Tables), l.foldl (fun t p => t.listAdd .pcbFreeH p) t =
      { t with procQ := Function.update t.procQ .pcbFreeH (l.reverse ++ t.free) } := by
    intro l
    induction l with
    | nil => intro t; simp
    | cons p l ih =>
      intro t
      rw [List.foldl_cons, ih]
      simp [listAdd, Lists.push, free]
  exact fold _ t

/-! ## Waiting processes -/

theorem initASH_eq (t : Tables) : t.initASH =
    { t with semdFreeH := (List.finRange maxProc).reverse ++ t.semdFreeH } := by
  have fold : ∀ (l : List Semd) (t : Tables),
      l.foldl (fun t i => { t with semdFreeH := i :: t.semdFreeH }) t =
      { t with semdFreeH := l.reverse ++ t.semdFreeH } := by
    intro l
    induction l with
    | nil => intro t; simp
    | cons i l ih =>
      intro t
      rw [List.foldl_cons, ih]
      simp
  exact fold _ t

/-- Taking a process off the semaphore it waits on, and the descriptor back to
the free list if it was the last. -/
def unqueue (t : Tables) (i : Semd) (p : Pcb) : Tables :=
  ((t.modPcb p ({ · with pSemAdd := 0 })).listDel p).freeSemdIfempty i

theorem unqueue_fields (t : Tables) (i : Semd) (p : Pcb) :
    (t.unqueue i p).procQ = t.procQ.unlink p ∧ (t.unqueue i p).sKey = t.sKey ∧
    (t.unqueue i p).pcbs = Function.update t.pcbs p { t.pcbs p with pSemAdd := 0 } ∧
    (t.unqueue i p).pChild = t.pChild := by
  unfold unqueue freeSemdIfempty
  split <;> exact ⟨rfl, rfl, rfl, rfl⟩

theorem unqueue_hashed (h : Queued t) (hi : i ∉ t.semdFreeH) : Hashed (t.unqueue i p) := by
  have hk := (t.unqueue_fields i p).2.1
  unfold unqueue freeSemdIfempty at hk ⊢
  split
  · constructor
    · exact List.nodup_cons.mpr ⟨hi, h.freeNodup⟩
    · exact fun b => (h.bucketNodup b).filter _
    · intro b j
      have := h.placed b j
      simp only [listDel, modPcb, Lists.mem_unlink, List.mem_cons, not_or]
      tauto
    · intro j k hj hk
      exact h.keyUnique j k (List.not_mem_of_not_mem_cons hj) (List.not_mem_of_not_mem_cons hk)
    · intro j hj
      exact h.keyNe j (List.not_mem_of_not_mem_cons hj)
  · exact ⟨h.freeNodup, h.bucketNodup, h.placed, h.keyUnique, h.keyNe⟩

/-- The descriptor is freed with the last of its processes. -/
theorem unqueue_semds (t : Tables) (i : Semd) (p : Pcb) :
    (t.unqueue i p).semdFreeH =
      (if t.procQ.unlink p (.sProcq i) = [] then i :: t.semdFreeH else t.semdFreeH) ∧
    (t.unqueue i p).semdH =
      if t.procQ.unlink p (.sProcq i) = [] then t.semdH.unlink i else t.semdH := by
  simp only [unqueue, freeSemdIfempty, emptyProcQ, List.isEmpty_iff]
  by_cases he : t.procQ.unlink p (.sProcq i) = []
  · rw [if_pos he, if_pos he, if_pos (by exact he)]
    exact ⟨rfl, rfl⟩
  · rw [if_neg he, if_neg he, if_neg (by exact he)]
    exact ⟨rfl, rfl⟩

theorem unqueue_queued (h : Queued t) (hp : p ∈ t.procQ (.sProcq i)) : Queued (t.unqueue i p) := by
  obtain ⟨hq, hk, hr, -⟩ := t.unqueue_fields i p
  have hi := h.active_of_mem hp
  refine ⟨unqueue_hashed h hi, hq ▸ h.apart.unlink p, ?_, ?_, ?_⟩
  · intro j
    rw [hq, (t.unqueue_semds i p).1]
    by_cases hj : j = i
    · subst hj
      split <;> simp_all
    · have hne : ProcQ.sProcq j ≠ .sProcq i := by simpa using hj
      rw [h.apart.unlink_other hp hne, h.waiting j]
      split <;> simp [hj]
  · intro j q hm
    rw [hq] at hm
    obtain ⟨hm, hne⟩ := Lists.mem_unlink.mp hm
    rw [hr, hk, Function.update_of_ne hne]
    exact h.keyed j q hm
  · intro q hs
    have hne : q ≠ p := by
      rintro rfl
      simp [hr] at hs
    rw [hr, Function.update_of_ne hne] at hs
    obtain ⟨j, hj⟩ := h.blocked q hs
    exact ⟨j, hq ▸ Lists.mem_unlink.mpr ⟨hj, hne⟩⟩

theorem unqueue_queues (h : Queued t) (hp : p ∈ t.procQ (.sProcq i)) :
    (t.unqueue i p).queues = t.queues.wake p := by
  obtain ⟨hq, hk, hr, hc⟩ := t.unqueue_fields i p
  apply Queues.ext
  · exact hr
  · apply queue_ext
    · exact congrFun hq _
    · exact congrFun hq _
    · exact h.waiters_map (unqueue_queued h hp) (·.filter (· ≠ p)) rfl
        (fun _ _ => congrFun hk _) (fun _ => congrFun hq _)
  · exact hc

/-- `removeBlocked` wakes nobody when nobody waits. -/
theorem removeBlocked_nil (h : Queued t) (hw : t.waiters a = []) :
    t.removeBlocked a = (none, t) := by
  simp [removeBlocked, h.waiters_nil.mp hw]

/-- `removeBlocked` pops the oldest waiter. -/
theorem removeBlocked_cons (h : Queued t) (hw : t.waiters a = p :: l) :
    ∃ t', t.removeBlocked a = (some p, t') ∧ Queued t' ∧ t'.queues = t.queues.wake p := by
  obtain ⟨i, hf, hq, -, -⟩ := h.waiters_cons hw
  have hp : p ∈ t.procQ (.sProcq i) := by simp [hq]
  refine ⟨t.unqueue i p, ?_, unqueue_queued h hp, unqueue_queues h hp⟩
  simp [removeBlocked, hf, hq, unqueue]

theorem outBlocked_found (hf : t.findSem (t.pcbs p).pSemAdd = some i)
    (hp : p ∈ t.procQ (.sProcq i)) : t.outBlocked p = (some p, t.unqueue i p) := by
  simp only [outBlocked, hf, hp, if_true, unqueue, freeSemdIfempty]
  congr 1
  by_cases he : t.procQ.unlink p (.sProcq i) = []
  · simp [emptyProcQ, listDel, modPcb, he]
  · simp [emptyProcQ, listDel, modPcb, he]

theorem outBlocked_eq (h : Queued t) (hp : p ∈ t.procQ (.sProcq i)) :
    t.outBlocked p = (some p, t.unqueue i p) := by
  apply outBlocked_found _ hp
  exact h.findSem_iff.mpr ⟨h.active_of_mem hp, (h.keyed i p hp).symm⟩

/-- `outBlocked` takes a blocked process off its queue, wherever it is there. -/
theorem outBlocked_blocked (h : Queued t) (hp : (t.pcbs p).pSemAdd ≠ 0) :
    ∃ t', t.outBlocked p = (some p, t') ∧ Queued t' ∧ t'.queues = t.queues.wake p := by
  obtain ⟨i, hi⟩ := h.blocked p hp
  exact ⟨_, outBlocked_eq h hi, unqueue_queued h hi, unqueue_queues h hi⟩

/-- `outBlocked` finds no process that is not blocked. -/
theorem outBlocked_free (h : Queued t) (hp : (t.pcbs p).pSemAdd = 0) :
    t.outBlocked p = (none, t) := by
  have hf : t.findSem 0 = none := h.findSem_none.mpr fun i hi => h.keyNe i hi
  rw [outBlocked, hp, hf]

/-- `t'` is `t` with a descriptor `i` for `a`, which was there or is fresh. -/
structure Fitted (t t' : Tables) (a : Word) (i : Semd) : Prop where
  hashed : Hashed t'
  active : i ∉ t'.semdFreeH
  key : t'.sKey i = a
  queue : t.waiters a = t.procQ (.sProcq i)
  oldKey : ∀ p ∈ t.procQ (.sProcq i), t.sKey i = a
  otherKey : ∀ j, j ≠ i → t'.sKey j = t.sKey j
  otherFree : ∀ j, j ≠ i → (j ∈ t'.semdFreeH ↔ j ∈ t.semdFreeH)
  same : t'.procQ = t.procQ ∧ t'.pcbs = t.pcbs ∧ t'.pChild = t.pChild

theorem semFor_fresh (h : Queued t) (ha : a ≠ 0) (hn : t.findSem a = none) {rest : List Semd}
    (hf : t.semdFreeH = i :: rest) :
    Fitted t ((({ t with semdFreeH := rest }).resetSemd i).hashAdd i a) a i := by
  have hd := List.nodup_cons.mp (hf ▸ h.freeNodup)
  have active : ∀ j, j ∉ t.semdFreeH ↔ j ≠ i ∧ j ∉ rest := by
    intro j
    rw [hf, List.mem_cons, not_or]
  have hempty : t.procQ (.sProcq i) = [] := (h.waiting i).mpr (by simp [hf])
  have hkey : ∀ j, j ≠ i → Function.update (Function.update t.sKey i 0) i a j = t.sKey j :=
    fun j hj => by rw [Function.update_of_ne hj, Function.update_of_ne hj]
  refine ⟨⟨hd.2, ?_, ?_, ?_, ?_⟩, hd.1, Function.update_self .., ?_, ?_, hkey, ?_, ?_, rfl,
    rfl⟩
  · intro b
    by_cases hb : b = hashMin a
    · subst hb
      have hm : i ∉ t.semdH (hashMin a) := fun hm => ((active i).mp ((h.placed _ _).mp hm).1).1 rfl
      simpa [hashAdd, resetSemd, mkEmptyProcQ] using ⟨hm, h.bucketNodup _⟩
    · simpa [hashAdd, resetSemd, mkEmptyProcQ, Lists.push_of_ne hb] using h.bucketNodup b
  · intro b j
    simp only [hashAdd, resetSemd, mkEmptyProcQ, Lists.mem_push, h.placed, active]
    by_cases hj : j = i
    · subst hj
      simp [hd.1]
    · simp [hj]
  · intro j k hj hk
    have inactive : ∀ j, j ∉ rest → t.sKey j = a → j = i := by
      intro j hj hk
      by_contra hne
      exact h.findSem_none.mp hn j ((active j).mpr ⟨hne, hj⟩) hk
    simp only [hashAdd, resetSemd, mkEmptyProcQ]
    by_cases hji : j = i <;> by_cases hki : k = i
    · exact fun _ => hji.trans hki.symm
    · subst hji
      rw [hkey k hki, Function.update_self]
      exact fun e => (inactive k hk e.symm).symm
    · subst hki
      rw [hkey j hji, Function.update_self]
      exact fun e => inactive j hj e
    · rw [hkey j hji, hkey k hki]
      exact h.keyUnique j k ((active j).mpr ⟨hji, hj⟩) ((active k).mpr ⟨hki, hk⟩)
  · intro j hj
    simp only [hashAdd, resetSemd, mkEmptyProcQ]
    by_cases hji : j = i
    · subst hji
      rw [Function.update_self]
      exact ha
    · rw [hkey j hji]
      exact h.keyNe j ((active j).mpr ⟨hji, hj⟩)
  · rw [h.waiters_nil.mpr hn, hempty]
  · simp [hempty]
  · intro j hj
    simp [hashAdd, resetSemd, mkEmptyProcQ, hf, hj]
  · funext q
    by_cases hq : q = .sProcq i
    · subst hq
      simp [hashAdd, resetSemd, mkEmptyProcQ, hempty]
    · simp [hashAdd, resetSemd, mkEmptyProcQ, hq]

/-- A descriptor is found or taken from the free list, unless that is empty. -/
theorem semFor_cases (h : Queued t) (ha : a ≠ 0) :
    t.semFor a = (none, t) ∧ t.findSem a = none ∧ t.semdFreeH = [] ∨
    (t.findSem a ≠ none ∨ t.semdFreeH ≠ []) ∧ ∃ i t', t.semFor a = (some i, t') ∧ Fitted t t' a i := by
  cases hn : t.findSem a with
  | some i =>
    have hi := h.findSem_iff.mp hn
    refine .inr ⟨.inl (by simp), i, t, by simp [semFor, hn], h.toHashed, hi.1, hi.2, ?_,
      fun _ _ => hi.2, fun _ _ => rfl, fun _ _ => Iff.rfl, rfl, rfl, rfl⟩
    simp [waiters, hn]
  | none =>
    cases hf : t.semdFreeH with
    | nil => exact .inl ⟨by simp [semFor, hn, allocSemd, hf], rfl, rfl⟩
    | cons i rest =>
      exact .inr ⟨.inr (by simp), i, _, by simp [semFor, hn, allocSemd, hf], semFor_fresh h ha hn hf⟩

theorem semFor_fitted (h : Queued t) (ha : a ≠ 0) (hp : (t.pcbs p).pSemAdd = 0) :
    ∃ i t', t.semFor a = (some i, t') ∧ Fitted t t' a i := by
  rcases semFor_cases h ha with ⟨-, -, hf⟩ | ⟨-, hfit⟩
  · exact absurd hf (h.semdFree_ne_nil hp)
  · exact hfit

/-- `p` at the end of the queue of a descriptor. -/
def put (t : Tables) (i : Semd) (a : Word) (p : Pcb) : Tables :=
  ((t.listDel p).insertProcQ (.sProcq i) p).modPcb p ({ · with pSemAdd := a })

theorem insertBlocked_fitted (hu : t.semFor a = (some i, u)) :
    t.insertBlocked a p = (false, u.put i a p) := by
  simp [insertBlocked, hu, put]

namespace Fitted
variable {k : ProcQ} (hf : Fitted t u a i)
include hf

theorem put_pcbs : (u.put i a p).pcbs = Function.update t.pcbs p { t.pcbs p with pSemAdd := a } := by
  rw [← hf.same.2.1]
  rfl

theorem put_procQ : (u.put i a p).procQ = (t.procQ.unlink p).append (.sProcq i) p := by
  show ((u.procQ.unlink p).unlink p).append (.sProcq i) p = _
  rw [Lists.unlink_unlink, hf.same.1]

theorem put_self : (u.put i a p).procQ (.sProcq i) = t.procQ.unlink p (.sProcq i) ++ [p] := by
  rw [hf.put_procQ, Lists.append_self]

theorem put_other (hk : k ≠ .sProcq i) : (u.put i a p).procQ k = t.procQ.unlink p k := by
  rw [hf.put_procQ, Lists.append_of_ne hk]

theorem findSem_put : (u.put i a p).findSem a = some i :=
  hf.hashed.findSem_iff.mpr ⟨hf.active, hf.key⟩

end Fitted

section unblocked
variable (h : Queued t) (hp : (t.pcbs p).pSemAdd = 0) (hf : Fitted t u a i)
include h hp hf

theorem put_last : (u.put i a p).procQ (.sProcq i) = t.procQ (.sProcq i) ++ [p] := by
  rw [hf.put_self, unlink_sem h hp]

theorem put_away (hj : j ≠ i) : (u.put i a p).procQ (.sProcq j) = t.procQ (.sProcq j) := by
  rw [hf.put_other (by simpa using hj), unlink_sem h hp]

theorem put_queued : Queued (u.put i a p) := by
  refine ⟨⟨hf.hashed.freeNodup, hf.hashed.bucketNodup, hf.hashed.placed, hf.hashed.keyUnique,
    hf.hashed.keyNe⟩, ?_, ?_, ?_, ?_⟩
  · rw [hf.put_procQ]
    exact (h.apart.unlink p).append fun _ => by simp
  · intro j
    by_cases hj : j = i
    · subst hj
      rw [put_last h hp hf]
      exact iff_of_false (by simp) hf.active
    · rw [put_away h hp hf hj, h.waiting j]
      exact (hf.otherFree j hj).symm
  · intro j q hm
    rw [hf.put_pcbs]
    by_cases hj : j = i
    · subst hj
      rw [put_last h hp hf] at hm
      show _ = u.sKey j
      rw [hf.key]
      by_cases hqp : q = p
      · simp [hqp]
      · have hm : q ∈ t.procQ (.sProcq j) := by simpa [hqp] using hm
        rw [Function.update_of_ne hqp, h.keyed j q hm, hf.oldKey q hm]
    · rw [put_away h hp hf hj] at hm
      have hqp : q ≠ p := fun e => h.semAdd_eq_zero.mp hp j (e ▸ hm)
      rw [Function.update_of_ne hqp, h.keyed j q hm]
      exact (hf.otherKey j hj).symm
  · intro q hs
    by_cases hqp : q = p
    · exact ⟨i, by simp [put_last h hp hf, hqp]⟩
    · rw [hf.put_pcbs, Function.update_of_ne hqp] at hs
      obtain ⟨j, hj⟩ := h.blocked q hs
      by_cases hji : j = i
      · subst hji
        exact ⟨j, by simp [put_last h hp hf, hj]⟩
      · exact ⟨j, put_away h hp hf hji ▸ hj⟩

/-- The process waits for `a` now, and nothing has changed for the others. -/
theorem put_waiters (b : Word) :
    (u.put i a p).waiters b = if b = a then t.waiters b ++ [p] else t.waiters b := by
  have hq' := put_queued h hp hf
  split
  · next hb =>
    subst hb
    rw [hq'.waiters_of_key (i := i) hf.key (by simp [put_last h hp hf]), put_last h hp hf, hf.queue]
  · next hb =>
    have same : ∀ l, l ≠ [] → ((u.put i a p).waiters b = l ↔ t.waiters b = l) := by
      intro l hl
      rw [hq'.waiters_iff hl, h.waiters_iff hl]
      constructor
      · rintro ⟨j, hj, hq⟩
        have hji : j ≠ i := by
          rintro rfl
          exact hb (hj.symm.trans hf.key)
        exact ⟨j, (hf.otherKey j hji).symm.trans hj, put_away h hp hf hji ▸ hq⟩
      · rintro ⟨j, hj, hq⟩
        have hji : j ≠ i := by
          rintro rfl
          obtain ⟨q, hm⟩ := List.exists_mem_of_ne_nil _ (hq ▸ hl)
          exact hb (hj.symm.trans (hf.oldKey q hm))
        exact ⟨j, (hf.otherKey j hji).trans hj, (put_away h hp hf hji).trans hq⟩
    by_cases hw : t.waiters b = []
    · by_contra hne
      rw [hw] at hne
      exact hne (((same _ hne).mp rfl).symm.trans hw)
    · exact (same _ hw).mpr rfl

theorem put_queues : (u.put i a p).queues = t.queues.block a p := by
  apply Queues.ext
  · exact hf.put_pcbs
  · apply queue_ext
    · rw [Queues.queue_block, if_neg (by simp)]
      exact hf.put_other (by simp)
    · rw [Queues.queue_block, if_neg (by simp)]
      exact hf.put_other (by simp)
    · intro b
      rw [Queues.queue_block, unlink_waiters h hp b, put_waiters h hp hf b]
      simp
  · exact hf.same.2.2

end unblocked

/-- `insertBlocked` of a process that is not blocked never fails. -/
theorem insertBlocked_eq (h : Queued t) (ha : a ≠ 0) (hp : (t.pcbs p).pSemAdd = 0) :
    ∃ t', t.insertBlocked a p = (false, t') ∧ Queued t' ∧ t'.queues = t.queues.block a p := by
  obtain ⟨i, u, hu, hf⟩ := semFor_fitted h ha hp
  exact ⟨u.put i a p, insertBlocked_fitted hu, put_queued h hp hf, put_queues h hp hf⟩

end Pandos.Tables
