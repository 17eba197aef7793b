import Pandos.Lib.KeyedFifo
import Pandos.Phase1.Effects

/-!
# Sequences of calls of `semaphore.c`

After `initASH`, `insertBlocked` never fails for a process that is in no queue,
and the hash does what queues under keys do.
-/

namespace Pandos
open Intrusive KeyedFifo

/-- A call of `semaphore.c` with its semaphore and its process. -/
abbrev SemCall := KeyedFifo.Call Word Pcb

namespace Tables

def call (t : Tables) : SemCall → Answer Pcb × Tables
  | .insert semAdd p => (.full (t.insertBlocked semAdd p).1, (t.insertBlocked semAdd p).2)
  | .remove semAdd => (.found (t.removeBlocked semAdd).1, (t.removeBlocked semAdd).2)
  | .out p => (.found (t.outBlocked p).1, (t.outBlocked p).2)
  | .head semAdd => (.found (t.headBlocked semAdd), t)

/-- Sequences of calls that satisfy `ok`, with what every call returned. -/
inductive Calls (ok : Tables → SemCall → Prop) (t₀ : Tables) :
    List (SemCall × Answer Pcb) → Tables → Prop
  | start : Calls ok t₀ [] t₀
  | call {l : List (SemCall × Answer Pcb)} {t : Tables} (c : SemCall) : Calls ok t₀ l t → ok t c →
      Calls ok t₀ (l ++ [(c, (t.call c).1)]) (t.call c).2

/-- `p` is in the queue of no semaphore. -/
def Unblocked (t : Tables) (p : Pcb) : Prop := ∀ i, p ∉ t.procQ (.sProcq i)

/-- Only a process that is not blocked is inserted. -/
def Blockable (t : Tables) : SemCall → Prop
  | .insert _ p => t.Unblocked p
  | _ => True

instance (t : Tables) (p : Pcb) : Decidable (t.Unblocked p) := by
  unfold Unblocked
  infer_instance

instance (t : Tables) : (c : SemCall) → Decidable (t.Blockable c)
  | .insert _ p => inferInstanceAs (Decidable (t.Unblocked p))
  | .remove _ | .out _ | .head _ => inferInstanceAs (Decidable True)

/-- No semaphore has been used yet. -/
structure Unused (t : Tables) : Prop where
  apart : t.procQ.Apart
  unblocked : ∀ i, t.procQ (.sProcq i) = []
  free : t.semdFreeH = []
  buckets : ∀ b, t.semdH b = []

/-! ## Descriptors never run out -/

/-- A descriptor is in a bucket exactly when processes are in its queue, and
else it is free. -/
structure Stocked (t : Tables) : Prop where
  apart : t.procQ.Apart
  placed : ∀ b, ∀ i ∈ t.semdH b, i ∉ t.semdFreeH
  free : ∀ i, t.procQ (.sProcq i) = [] ↔ i ∈ t.semdFreeH
  nodup : t.semdFreeH.Nodup

variable {t : Tables} {a : Word} {i : Semd} {p : Pcb}

theorem mem_bucket (h : t.findSem a = some i) : i ∈ t.semdH (hashMin a) :=
  List.mem_of_find?_eq_some h

theorem Unused.stocked (h : t.Unused) : t.initASH.Stocked := by
  rw [initASH_eq]
  refine ⟨h.apart, fun b i hi => ?_, fun i => ?_, ?_⟩
  · rw [h.buckets] at hi
    cases hi
  · simp [h.unblocked]
  · rw [h.free, List.append_nil]
    exact List.nodup_reverse.mpr (List.nodup_finRange _)

namespace Stocked

/-- Each active descriptor has a process of its own in its queue, and `p` is
none of them. -/
theorem free_ne_nil (h : t.Stocked) (hp : t.Unblocked p) : t.semdFreeH ≠ [] := by
  intro hnil
  have hfull : Full (Fintype.card Pcb) fun i => t.procQ (.sProcq i) := by
    refine ⟨Finset.univ, by simp, fun i _ he => ?_⟩
    have hi := (h.free i).mp he
    rw [hnil] at hi
    cases hi
  refine not_full ⟨fun i => h.apart.nodup _, fun hi hj => ?_⟩ hp hfull
  exact ProcQ.sProcq.inj (h.apart.unique hi hj)

/-- Descriptor `i` is taken for a process to be put in its queue. -/
structure Taken (t : Tables) (i : Semd) : Prop where
  apart : t.procQ.Apart
  placed : ∀ b, ∀ i ∈ t.semdH b, i ∉ t.semdFreeH
  free : ∀ j, j ≠ i → (t.procQ (.sProcq j) = [] ↔ j ∈ t.semdFreeH)
  nodup : t.semdFreeH.Nodup
  active : i ∉ t.semdFreeH

theorem Taken.enqueue (h : Taken t i) (hp : t.Unblocked p) (f : PcbT → PcbT) :
    (((t.listDel p).insertProcQ (.sProcq i) p).modPcb p f).Stocked := by
  refine ⟨?_, h.placed, fun j => ?_, h.nodup⟩
  · exact ((h.apart.unlink p).unlink p).append fun _ => by simp
  · show ((t.procQ.unlink p).unlink p).append (.sProcq i) p (.sProcq j) = [] ↔ j ∈ t.semdFreeH
    rw [Lists.unlink_unlink]
    by_cases hj : j = i
    · subst hj
      simp [h.active]
    · rw [Lists.append_of_ne (by simpa using hj), Lists.unlink_of_not_mem (hp j)]
      exact h.free j hj

theorem taken_fresh {rest : List Semd} (h : t.Stocked) (hf : t.semdFreeH = i :: rest) :
    Taken ((({ t with semdFreeH := rest }).resetSemd i).hashAdd i a) i := by
  have hi := List.nodup_cons.mp (hf ▸ h.nodup)
  have hprocQ : Function.update t.procQ (.sProcq i) [] = t.procQ := by
    rw [← (h.free i).mpr (by simp [hf])]
    exact Function.update_eq_self _ _
  refine ⟨?_, fun b j hj => ?_, fun j hj => ?_, hi.2, hi.1⟩
  · show Lists.Apart (Function.update t.procQ (.sProcq i) [])
    rw [hprocQ]
    exact h.apart
  · rcases Lists.mem_push.mp hj with hj | ⟨-, rfl⟩
    · exact fun hm => h.placed b j hj (hf ▸ List.mem_cons_of_mem i hm)
    · exact hi.1
  · show Function.update t.procQ (.sProcq i) [] (.sProcq j) = [] ↔ j ∈ rest
    rw [hprocQ, h.free j, hf]
    simp [hj]

/-- `insertBlocked` finds a descriptor and puts the process at its end. -/
theorem insertBlocked (h : t.Stocked) (hp : t.Unblocked p) (a : Word) :
    (t.insertBlocked a p).1 = false ∧ (t.insertBlocked a p).2.Stocked ∧
    ∃ i l, (t.insertBlocked a p).2.findSem a = some i ∧
      (t.insertBlocked a p).2.procQ (.sProcq i) = l ++ [p] := by
  cases hf : t.findSem a with
  | some i =>
    have hi : i ∉ t.semdFreeH := h.placed _ i (mem_bucket hf)
    have ht : Taken t i := ⟨h.apart, h.placed, fun j _ => h.free j, h.nodup, hi⟩
    simp only [Tables.insertBlocked, semFor, hf]
    exact ⟨trivial, ht.enqueue hp _, i, _, hf, Lists.append_self⟩
  | none =>
    obtain ⟨i, rest, hr⟩ := List.exists_cons_of_ne_nil (h.free_ne_nil hp)
    simp only [Tables.insertBlocked, semFor, hf, allocSemd, hr]
    refine ⟨trivial, (h.taken_fresh hr).enqueue ?_ _, i, _, ?_, Lists.append_self⟩
    · intro j hj
      by_cases hji : j = i
      · subst hji
        simp [hashAdd, resetSemd, mkEmptyProcQ] at hj
      · exact hp j (by simpa [hashAdd, resetSemd, mkEmptyProcQ, hji] using hj)
    · simp [findSem, hashAdd, resetSemd, mkEmptyProcQ, listDel, insertProcQ, modPcb]

/-- A process leaves the queue of its descriptor, which is freed with its last
process. -/
theorem dequeue (h : t.Stocked) (hp : p ∈ t.procQ (.sProcq i)) : (t.unqueue i p).Stocked := by
  have hi : i ∉ t.semdFreeH := fun hf => by
    rw [(h.free i).mpr hf] at hp
    cases hp
  have hother : ∀ j, j ≠ i → t.procQ.unlink p (.sProcq j) = t.procQ (.sProcq j) := fun j hj =>
    h.apart.unlink_other hp (by simpa using hj)
  have hq := (t.unqueue_fields i p).1
  obtain ⟨hfree, hactive⟩ := t.unqueue_semds i p
  refine ⟨hq ▸ h.apart.unlink p, fun b j hj => ?_, fun j => ?_, ?_⟩
  · have hj' : j ∈ t.semdH b ∧ (t.procQ.unlink p (.sProcq i) = [] → j ≠ i) := by
      rw [hactive] at hj
      split at hj
      · exact ⟨(Lists.mem_unlink.mp hj).1, fun _ => (Lists.mem_unlink.mp hj).2⟩
      · next hne => exact ⟨hj, fun he => absurd he hne⟩
    rw [hfree]
    split
    · next he => exact List.not_mem_cons_of_ne_of_not_mem (hj'.2 he) (h.placed b j hj'.1)
    · exact h.placed b j hj'.1
  · rw [hq, hfree]
    by_cases hj : j = i
    · subst hj
      split
      · next he => simp [he]
      · next he => simp [he, hi]
    · rw [hother j hj, h.free j]
      split
      · simp [hj]
      · rfl
  · rw [hfree]
    split
    · exact List.nodup_cons.mpr ⟨hi, h.nodup⟩
    · exact h.nodup

theorem call {c : SemCall} (h : t.Stocked) (hc : t.Blockable c) : (t.call c).2.Stocked := by
  cases c with
  | insert a p => exact (h.insertBlocked hc a).2.1
  | remove a =>
    simp only [Tables.call, removeBlocked]
    split
    · exact h
    · split
      · exact h
      · next p l hq =>
        apply h.dequeue
        rw [hq]
        exact List.mem_cons_self
  | out p =>
    simp only [Tables.call]
    cases hf : t.findSem (t.pcbs p).pSemAdd with
    | none => simpa only [outBlocked, hf] using h
    | some i =>
      by_cases hp : p ∈ t.procQ (.sProcq i)
      · rw [outBlocked_found hf hp]
        exact h.dequeue hp
      · simpa only [outBlocked, hf, hp, if_false] using h
  | head a => exact h

end Stocked

theorem Calls.stocked {t₀ : Tables} {l : List (SemCall × Answer Pcb)} (h₀ : t₀.Unused)
    (h : Calls Blockable t₀.initASH l t) : t.Stocked := by
  induction h with
  | start => exact h₀.stocked
  | call c _ hc ih => exact ih.call hc

/-- Blocking never fails: the process ends up last in the queue of the
semaphore, whatever has been called before. -/
theorem insertBlocked_never_fails {t₀ : Tables} {l : List (SemCall × Answer Pcb)} (h₀ : t₀.Unused)
    (h : Calls Blockable t₀.initASH l t) (hp : t.Unblocked p) (a : Word) :
    (t.insertBlocked a p).1 = false ∧ ∃ i ahead, (t.insertBlocked a p).2.findSem a = some i ∧
      (t.insertBlocked a p).2.procQ (.sProcq i) = ahead ++ [p] := by
  obtain ⟨hfull, -, hqueue⟩ := (h.stocked h₀).insertBlocked hp a
  exact ⟨hfull, hqueue⟩

/-- The tables before `main()`. -/
def zero : Tables where
  pcbs := fun _ => .zero
  procQ := fun _ => []
  pChild := fun _ => []
  sKey := fun _ => 0
  semdFreeH := []
  semdH := fun _ => []

theorem zero_unused : zero.Unused :=
  ⟨⟨fun _ => List.nodup_nil, fun h => by cases h⟩, fun _ => rfl, rfl, fun _ => rfl⟩

/-- Two processes wait for the semaphore at `NULL`, and a third blocks. -/
theorem insertBlocked_never_fails_null : ((((zero.initASH.call (.insert 0 3)).2.call
    (.insert 0 4)).2).insertBlocked 0x2000 5).1 = false :=
  (insertBlocked_never_fails zero_unused
    (.call (.insert 0 4) (.call (.insert 0 3) .start (by decide +kernel)) (by decide +kernel))
    (by decide +kernel) _).1

/-! ## The hash is a map of queues -/

/-- Moreover no semaphore is at `NULL`. -/
def Orderly (t : Tables) : SemCall → Prop
  | .insert semAdd p => semAdd ≠ 0 ∧ t.Unblocked p
  | .remove semAdd | .head semAdd => semAdd ≠ 0
  | .out _ => True

instance (t : Tables) : (c : SemCall) → Decidable (t.Orderly c)
  | .insert _ _ => inferInstanceAs (Decidable (_ ∧ _))
  | .remove _ | .head _ => inferInstanceAs (Decidable (_ ≠ _))
  | .out _ => inferInstanceAs (Decidable True)

/-- The hash holds the queues `m`. -/
structure Holds (t : Tables) (m : KeyedFifo.Map Word Pcb) : Prop where
  placed : ∀ i, i ∈ t.semdFreeH ∧ (∀ b, i ∉ t.semdH b) ∨
    i ∉ t.semdFreeH ∧ ∀ b, i ∈ t.semdH b ↔ b = hashMin (t.sKey i)
  once : t.semdFreeH.Nodup ∧ ∀ b, (t.semdH b).Nodup
  keyUnique : ∀ i j, i ∉ t.semdFreeH → j ∉ t.semdFreeH → t.sKey i = t.sKey j → i = j
  queue : ∀ i, i ∉ t.semdFreeH → t.procQ (.sProcq i) = m (t.sKey i) ∧ m (t.sKey i) ≠ []
  active : ∀ a, m a ≠ [] → ∃ i, i ∉ t.semdFreeH ∧ t.sKey i = a
  semAdd : ∀ a p, a ≠ 0 → ((t.pcbs p).pSemAdd = a ↔ p ∈ m a)

theorem Queued.holds (h : t.Queued) : t.Holds t.waiters where
  placed i := by
    by_cases hi : i ∈ t.semdFreeH
    · exact .inl ⟨hi, fun b hb => ((h.placed b i).mp hb).1 hi⟩
    · exact .inr ⟨hi, fun b => (h.placed b i).trans (and_iff_right hi)⟩
  once := ⟨h.freeNodup, h.bucketNodup⟩
  keyUnique := h.keyUnique
  queue i hi := by
    have hne : t.procQ (.sProcq i) ≠ [] := fun he => hi ((h.waiting i).mp he)
    rw [h.waiters_of_key rfl hne]
    exact ⟨rfl, hne⟩
  active a hne := by
    obtain ⟨p, l, hw⟩ := List.exists_cons_of_ne_nil hne
    obtain ⟨i, -, -, hi⟩ := h.waiters_cons hw
    exact ⟨i, hi⟩
  semAdd a p ha := by
    rw [h.mem_waiters]
    exact (and_iff_right ha).symm

theorem Queued.waiters_apart (h : t.Queued) : Lists.Apart t.waiters :=
  ⟨h.waiters_nodup, fun hj hk => Place.sem.inj (h.queue_apart.unique hj hk)⟩

theorem waiters_of_queues {q : Queues} (h : t.queues = q) (a : Word) : t.waiters a = q.waiters a :=
  congrFun (congrArg Queues.queue h) (.sem a)

theorem Queued.insert_waiters {t' : Tables} (h : t.Queued) (hp : (t.pcbs p).pSemAdd = 0)
    (hq : t'.queues = t.queues.block a p) :
    t'.waiters = Function.update t.waiters a (t.waiters a ++ [p]) := by
  funext b
  rw [waiters_of_queues hq, Queues.waiters, Queues.queue_block, unlink_waiters h hp]
  by_cases hb : b = a
  · subst hb
    simp
  · simp [hb]

theorem Queued.remove_waiters {t' : Tables} {l : List Pcb} (h : t.Queued)
    (hw : t.waiters a = p :: l) (hq : t'.queues = t.queues.wake p) :
    t'.waiters = Function.update t.waiters a l := by
  funext b
  rw [waiters_of_queues hq]
  by_cases hb : b = a
  · subst hb
    rw [Function.update_self]
    exact h.waiters_apart.unlink_cons hw
  · rw [Function.update_of_ne hb]
    exact h.waiters_apart.unlink_other (h := a) (by simp [hw]) hb

/-- Every call does to the queues what it does to the map of queues. -/
theorem Queued.call {c : SemCall} (h : t.Queued) (hc : t.Orderly c) :
    (t.call c).2.Queued ∧
      KeyedFifo.Map.call maxProc t.waiters c = ((t.call c).1, (t.call c).2.waiters) := by
  cases c with
  | insert a p =>
    have h0 : (t.pcbs p).pSemAdd = 0 := h.semAdd_eq_zero.mpr hc.2
    obtain ⟨t', ht', hq, he⟩ := insertBlocked_eq h hc.1 h0
    have hroom : ¬Full maxProc t.waiters := by
      have hp : ∀ a, p ∉ t.waiters a := fun a hm => (h.mem_waiters.mp hm).1
        ((h.mem_waiters.mp hm).2.symm.trans h0)
      simpa using not_full h.waiters_apart hp
    simp only [Tables.call, ht']
    refine ⟨hq, ?_⟩
    rw [call_insert hroom, h.insert_waiters h0 he]
  | remove a =>
    simp only [Tables.call]
    cases hw : t.waiters a with
    | nil =>
      rw [removeBlocked_nil h hw]
      exact ⟨h, call_remove_nil hw⟩
    | cons p l =>
      obtain ⟨t', ht', hq, he⟩ := removeBlocked_cons h hw
      rw [ht', call_remove_cons hw, h.remove_waiters hw he]
      exact ⟨hq, rfl⟩
  | out p =>
    simp only [Tables.call]
    by_cases h0 : (t.pcbs p).pSemAdd = 0
    · rw [outBlocked_free h h0]
      refine ⟨h, call_out_none fun a hm => ?_⟩
      exact (h.mem_waiters.mp hm).1 ((h.mem_waiters.mp hm).2.symm.trans h0)
    · obtain ⟨t', ht', hq, he⟩ := outBlocked_blocked h h0
      rw [ht', call_out (h.mem_waiters.mpr ⟨h0, rfl⟩)]
      refine ⟨hq, congrArg (Prod.mk _) ?_⟩
      funext b
      exact (waiters_of_queues he b).symm
  | head a =>
    refine ⟨h, ?_⟩
    have hhead : t.headBlocked a = (t.waiters a).head? := by
      unfold headBlocked waiters
      cases t.findSem a <;> rfl
    simp only [Tables.call, KeyedFifo.Map.call, hhead]

theorem Unused.queued {t₀ : Tables} (h : t₀.Unused) (h0 : ∀ p, (t₀.pcbs p).pSemAdd = 0) :
    t₀.initASH.Queued := by
  have hs := h.stocked
  have free : ∀ i, i ∈ t₀.initASH.semdFreeH := fun i => (hs.free i).mp (by
    rw [initASH_eq]
    exact h.unblocked i)
  have buckets : ∀ b, t₀.initASH.semdH b = [] := by
    rw [initASH_eq]
    exact h.buckets
  refine ⟨⟨hs.nodup, fun b => ?_, fun b i => ?_, fun i _ hi => absurd (free i) hi,
    fun i hi => absurd (free i) hi⟩, hs.apart, hs.free, fun i p hp => ?_, fun p hp => ?_⟩
  · simp [buckets]
  · simp [buckets, free]
  · rw [(hs.free i).mpr (free i)] at hp
    cases hp
  · rw [initASH_eq] at hp
    exact absurd (h0 p) hp

theorem Unused.waiters {t₀ : Tables} (h : t₀.Unused) : t₀.initASH.waiters = fun _ => [] := by
  funext a
  have hnone : t₀.initASH.findSem a = none := by
    rw [initASH_eq, findSem]
    simp [h.buckets]
  simp only [Tables.waiters, hnone]

/-- Whatever is called after `initASH`, every call returns what it returns on a
map of queues, and the hash holds that map. -/
theorem hash_refines {t₀ : Tables} {l : List (SemCall × Answer Pcb)} (h₀ : t₀.Unused)
    (h0 : ∀ p, (t₀.pcbs p).pSemAdd = 0) (h : Calls Orderly t₀.initASH l t) :
    ∃ m, KeyedFifo.Run maxProc l m ∧ t.Holds m := by
  have hrun : t.Queued ∧ KeyedFifo.Run maxProc l t.waiters := by
    induction h with
    | start => exact ⟨h₀.queued h0, h₀.waiters ▸ .start⟩
    | @call l t c _ hc ih =>
      obtain ⟨hq, hcall⟩ := ih.1.call hc
      have hrun := ih.2.call c
      rw [hcall] at hrun
      exact ⟨hq, hrun⟩
  exact ⟨t.waiters, hrun.2, hrun.1.holds⟩

/-- Two semaphores of one bucket have a waiter each; one is terminated, the
other is woken. -/
theorem hash_refines_collision : ∃ m, KeyedFifo.Run maxProc
    [(.insert 0x1000 3, .full false), (.insert 0x104c 4, .full false),
      (.out 3, .found (some 3)), (.remove 0x104c, .found (some 4))] m ∧
    (((((zero.initASH.call (.insert 0x1000 3)).2.call (.insert 0x104c 4)).2.call
      (.out 3)).2.call (.remove 0x104c)).2).Holds m :=
  hash_refines zero_unused (fun _ => rfl)
    (.call (.remove 0x104c) (.call (.out 3) (.call (.insert 0x104c 4)
      (.call (.insert 0x1000 3) .start (by decide +kernel)) (by decide +kernel)) trivial)
      (by decide +kernel))

end Tables

end Pandos
