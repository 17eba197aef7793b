import Pandos.Scenario

/-!
# A tick of the pseudo clock

What `handleSysTimer` leaves, down to the descriptor of the clock: the loop
empties a queue whose descriptor goes back to the free list under the last of
its processes.
-/

namespace Pandos
open Intrusive Outcome

namespace Tables
variable {t : Tables} {a : Word} {i : Semd} {p q : Pcb} {l : List Pcb}

/-- One process is taken off its semaphore and put at the end of the ready queue. -/
def rouse (t : Tables) (i : Semd) (p : Pcb) : Tables :=
  (t.unqueue i p).insertProcQ .gReadyQueue p

/-- Everyone who waits on a descriptor is ready, and the descriptor is free. -/
def flush (t : Tables) (i : Semd) : Tables :=
  { t with
    pcbs := fun p => if p ∈ t.procQ (.sProcq i) then { t.pcbs p with pSemAdd := 0 } else t.pcbs p
    procQ := Function.update (Function.update t.procQ (.sProcq i) []) .gReadyQueue
      (t.ready ++ t.procQ (.sProcq i))
    semdFreeH := i :: t.semdFreeH
    semdH := t.semdH.unlink i }

@[simp] theorem flush_ready : (t.flush i).ready = t.ready ++ t.procQ (.sProcq i) := by
  simp [flush, ready]

@[simp] theorem flush_free : (t.flush i).free = t.free := by
  simp [flush, free]

section
variable (h : Queued t) (hq : t.procQ (.sProcq i) = p :: l)
include h hq

theorem unlink_waiter : t.procQ.unlink p = Function.update t.procQ (.sProcq i) l := by
  rw [h.apart.unlink_eq_update (h := .sProcq i) (by simp [hq]), hq, List.erase_cons_head]

theorem rouse_procQ : (t.rouse i p).procQ =
    Function.update (Function.update t.procQ (.sProcq i) l) .gReadyQueue (t.ready ++ [p]) := by
  change ((t.unqueue i p).procQ.unlink p).append .gReadyQueue p = _
  rw [(t.unqueue_fields i p).1, Lists.unlink_unlink, unlink_waiter h hq]
  rfl

theorem rouse_queued : Queued (t.rouse i p) := by
  have hp : p ∈ t.procQ (.sProcq i) := by simp [hq]
  apply insertProcQ_queued (unqueue_queued h hp)
  simp [(t.unqueue_fields i p).2.2.1]

/-- The last process takes the descriptor with it. -/
theorem rouse_last (hl : l = []) : t.rouse i p = t.flush i := by
  subst hl
  have he : t.procQ.unlink p (.sProcq i) = [] := by
    rw [unlink_waiter h hq, Function.update_self]
  obtain ⟨-, hk, hr, hc⟩ := t.unqueue_fields i p
  obtain ⟨hf, hh⟩ := t.unqueue_semds i p
  rw [if_pos he] at hf hh
  apply Tables.eq_of
  · change (t.unqueue i p).pcbs = _
    rw [hr]
    funext q
    by_cases hqp : q = p <;> simp [flush, hq, hqp]
  · rw [rouse_procQ h hq, ← hq]
    rfl
  · exact hc
  · exact hk
  · exact hf
  · exact hh

/-- Otherwise the descriptor stays, and the others are still to come. -/
theorem rouse_more (hl : l ≠ []) : (t.rouse i p).findSem = t.findSem ∧
    (t.rouse i p).procQ (.sProcq i) = l ∧ (t.rouse i p).flush i = t.flush i := by
  have he : t.procQ.unlink p (.sProcq i) ≠ [] := by
    rwa [unlink_waiter h hq, Function.update_self]
  obtain ⟨-, hk, hr, hc⟩ := t.unqueue_fields i p
  obtain ⟨hf, hh⟩ := t.unqueue_semds i p
  rw [if_neg he] at hf hh
  have hl : (t.rouse i p).procQ (.sProcq i) = l := by
    rw [rouse_procQ h hq]
    simp
  refine ⟨?_, hl, ?_⟩
  · funext a
    change (t.unqueue i p).findSem a = _
    simp only [findSem, hk, hh]
  · apply Tables.eq_of
    · change (fun q => if q ∈ (t.rouse i p).procQ (.sProcq i) then
        { (t.unqueue i p).pcbs q with pSemAdd := 0 } else (t.unqueue i p).pcbs q) = _
      rw [hl, hr]
      funext q
      by_cases hqp : q = p <;> simp [flush, hq, hqp]
    · change Function.update (Function.update (t.rouse i p).procQ (.sProcq i) []) .gReadyQueue
        ((t.rouse i p).ready ++ (t.rouse i p).procQ (.sProcq i)) = _
      rw [hl, ready, rouse_procQ h hq]
      funext k
      simp only [flush, hq, Function.update_apply]
      split
      · simp
      · by_cases hk : k = .sProcq i <;> simp [hk]
    · exact hc
    · exact hk
    · exact congrArg (i :: ·) hf
    · exact congrArg (Lists.unlink · i) hh

end

theorem flush_queued (h : Queued t) (hq : t.procQ (.sProcq i) = p :: l) : Queued (t.flush i) := by
  induction l generalizing t p with
  | nil => exact rouse_last h hq rfl ▸ rouse_queued h hq
  | cons q l ih =>
    obtain ⟨-, hq', hflush⟩ := rouse_more h hq (List.cons_ne_nil _ _)
    exact hflush ▸ ih (rouse_queued h hq) hq'

/-- Nobody but the flushed descriptor is lost or found. -/
theorem findSem_flush (h : Queued t) (h' : Queued (t.flush i)) (hi : i ∉ t.semdFreeH) (a : Word) :
    (t.flush i).findSem a = if a = t.sKey i then none else t.findSem a := by
  split
  · next ha =>
    subst ha
    refine h'.findSem_none.mpr fun j hj hk => ?_
    have hj : j ∉ i :: t.semdFreeH := hj
    exact List.ne_of_not_mem_cons hj
      (h.keyUnique j i (List.not_mem_of_not_mem_cons hj) hi hk)
  · next ha =>
    apply Option.ext
    intro j
    rw [h'.findSem_iff, h.findSem_iff]
    constructor
    · rintro ⟨hj, hk⟩
      exact ⟨List.not_mem_of_not_mem_cons hj, hk⟩
    · rintro ⟨hj, hk⟩
      refine ⟨List.not_mem_cons_of_ne_of_not_mem ?_ hj, hk⟩
      rintro rfl
      exact ha hk.symm

theorem flush_procQ {j : Semd} (hj : j ≠ i) :
    (t.flush i).procQ (.sProcq j) = t.procQ (.sProcq j) := by
  simp [flush, hj]

theorem waiters_flush (h : Queued t) (hq : t.procQ (.sProcq i) = p :: l) (hi : i ∉ t.semdFreeH)
    (a : Word) : (t.flush i).waiters a = if a = t.sKey i then [] else t.waiters a := by
  have hfind := findSem_flush h (flush_queued h hq) hi a
  split
  · next ha =>
    rw [waiters, hfind, if_pos ha]
  · next ha =>
    rw [waiters, hfind, if_neg ha, waiters]
    split
    · next j hj =>
      apply flush_procQ
      rintro rfl
      exact ha (h.findSem_iff.mp hj).2.symm
    · rfl

theorem removeBlocked_found (hf : t.findSem a = some i) (hq : t.procQ (.sProcq i) = p :: l) :
    t.removeBlocked a = (some p, t.unqueue i p) := by
  simp [removeBlocked, hf, hq, unqueue]

end Tables

variable {L : Layout} {s : Kernel} {i : Semd} {p : Pcb} {l : List Pcb} {fuel : Nat}

/-- One pass of the loop wakes the first process. -/
theorem wakeClock_step (hf : s.findSem (L.addr .clock) = some i)
    (hq : s.procQ (.sProcq i) = p :: l) :
    wakeClock L (fuel + 1) s = wakeClock L fuel
      { s with toTables := s.rouse i p, gSoftBlockCount := s.gSoftBlockCount - 1 } := by
  have hr := Tables.removeBlocked_found hf hq
  rw [wakeClock, bind_of_ok (a := some p) (t := { s with toTables := s.unqueue i p })]
  · rfl
  · rw [K.fromTables_run, hr]

theorem wakeClock_none (hf : s.findSem (L.addr .clock) = none) :
    wakeClock L (fuel + 1) s = .ok () s := by
  have hr : s.removeBlocked (L.addr .clock) = (none, s.toTables) := by
    simp [Tables.removeBlocked, hf]
  rw [wakeClock, bind_of_ok (a := none) (t := s)]
  · rfl
  · rw [K.fromTables_run, hr]

/-- The loop wakes everyone, first come first served. -/
theorem wakeClock_all (h : s.Queued) (hf : s.findSem (L.addr .clock) = some i)
    (hq : s.procQ (.sProcq i) = p :: l) (hfuel : (p :: l).length < fuel) :
    wakeClock L fuel s = .ok () { s with
      toTables := s.flush i, gSoftBlockCount := s.gSoftBlockCount - (p :: l).length } := by
  induction l generalizing s p fuel with
  | nil =>
    obtain ⟨fuel, rfl⟩ : ∃ k, fuel = k + 2 := ⟨fuel - 2, by simp at hfuel; omega⟩
    have hi := h.findSem_iff.mp hf
    have hlast : (s.flush i).findSem (L.addr .clock) = none := by
      rw [Tables.findSem_flush h (Tables.flush_queued h hq) hi.1, if_pos hi.2.symm]
    rw [wakeClock_step hf hq, Tables.rouse_last h hq rfl, wakeClock_none hlast]
    rfl
  | cons q l ih =>
    obtain ⟨fuel, rfl⟩ : ∃ k, fuel = k + 1 := ⟨fuel - 1, by simp at hfuel; omega⟩
    obtain ⟨hf', hq', hflush⟩ := Tables.rouse_more h hq (List.cons_ne_nil _ _)
    rw [wakeClock_step hf hq, ih (Tables.rouse_queued h hq) (hf' ▸ hf) hq' (by simp at hfuel ⊢; omega)]
    have hcount : s.gSoftBlockCount - 1 - (q :: l).length =
        s.gSoftBlockCount - (p :: q :: l).length := by
      simp only [List.length_cons]
      omega
    simp only [hflush, hcount]

/-- What a tick does: everyone who waits for the clock is ready, in the order
in which they blocked, and nothing else has happened. -/
structure Tick (L : Layout) (s s' : Kernel) : Prop where
  ready : s'.ready = s.ready ++ s.waiters (L.addr .clock)
  woken : ∀ p ∈ s.waiters (L.addr .clock), s'.pcbs p = { s.pcbs p with pSemAdd := 0 }
  others : ∀ p ∉ s.waiters (L.addr .clock), s'.pcbs p = s.pcbs p
  descriptor : ∀ i, s.findSem (L.addr .clock) = some i → s'.procQ (.sProcq i) = [] ∧
    s'.semdFreeH = i :: s.semdFreeH ∧ s'.semdH = s.semdH.unlink i
  noDescriptor : s.findSem (L.addr .clock) = none →
    s'.semdFreeH = s.semdFreeH ∧ s'.semdH = s.semdH
  nobody : s'.waiters (L.addr .clock) = []
  free : s'.free = s.free
  queues : ∀ i, s.findSem (L.addr .clock) ≠ some i → s'.procQ (.sProcq i) = s.procQ (.sProcq i)
  waiters : ∀ a, a ≠ L.addr .clock → s'.waiters a = s.waiters a
  keys : s'.sKey = s.sKey
  children : s'.pChild = s.pChild
  globals : s'.toGlobals = { s.toGlobals with
    gSoftBlockCount := s.gSoftBlockCount - (s.waiters (L.addr .clock)).length
    gPseudoClock := 0 }
  queued : s'.Queued

theorem handleSysTimer_of_wakeClock {s' : Kernel} (h : wakeClock L (maxProc + 1) s = .ok () s') :
    handleSysTimer L s = .ok () { s' with gPseudoClock := 0 } := by
  rw [handleSysTimer, bind_of_ok h]
  rfl

theorem tick_nobody (h : s.Queued) (hf : s.findSem (L.addr .clock) = none) :
    Tick L s { s with gPseudoClock := 0 } := by
  have hw : s.waiters (L.addr .clock) = [] := h.waiters_nil.mpr hf
  exact
    { ready := by simp [hw]
      woken := by simp [hw]
      others := fun _ _ => rfl
      descriptor := by simp [hf]
      noDescriptor := fun _ => ⟨rfl, rfl⟩
      nobody := hw
      free := rfl
      queues := fun _ _ => rfl
      waiters := fun _ _ => rfl
      keys := rfl
      children := rfl
      globals := by simp [hw]
      queued := h }

theorem tick_flush (h : s.Queued) (hf : s.findSem (L.addr .clock) = some i)
    (hq : s.procQ (.sProcq i) = p :: l) : Tick L s { s with
      toTables := s.flush i
      gSoftBlockCount := s.gSoftBlockCount - (p :: l).length
      gPseudoClock := 0 } := by
  have hi := h.findSem_iff.mp hf
  have hw : s.waiters (L.addr .clock) = s.procQ (.sProcq i) := by simp [Tables.waiters, hf]
  have hwait := Tables.waiters_flush h hq hi.1
  exact
    { ready := hw ▸ Tables.flush_ready
      woken := fun p hp => if_pos (hw ▸ hp)
      others := fun p hp => if_neg (hw ▸ hp)
      descriptor := by
        intro j hj
        obtain rfl : i = j := Option.some.inj (hf.symm.trans hj)
        exact ⟨by simp [Tables.flush], rfl, rfl⟩
      noDescriptor := by simp [hf]
      nobody := (hwait _).trans (if_pos hi.2.symm)
      free := Tables.flush_free
      queues := fun j hj => Tables.flush_procQ fun e => hj (e ▸ hf)
      waiters := fun a ha => (hwait a).trans (if_neg fun e => ha (e.trans hi.2))
      keys := rfl
      children := rfl
      globals := by simp [hw, hq]
      queued := Tables.flush_queued h hq }

/-- `handleSysTimer` wakes everybody once. -/
theorem handleSysTimer_wakes_all (h : s.Queued) :
    ∃ s', handleSysTimer L s = .ok () s' ∧ Tick L s s' := by
  cases hf : s.findSem (L.addr .clock) with
  | none => exact ⟨_, handleSysTimer_of_wakeClock (wakeClock_none hf), tick_nobody h hf⟩
  | some i =>
    have hi := (h.findSem_iff.mp hf).1
    obtain ⟨p, l, hq⟩ := List.exists_cons_of_ne_nil fun he => hi ((h.waiting i).mp he)
    have hlen : (p :: l).length < maxProc + 1 := by
      have := (hq ▸ h.apart.nodup (.sProcq i)).length_le_card
      simp only [Fintype.card_fin] at this
      omega
    exact ⟨_, handleSysTimer_of_wakeClock (wakeClock_all h hf hq hlen), tick_flush h hf hq⟩

/-- Two processes sleep until the next tick. -/
def asleep : Machine := sampleBoot.run sampleLayout
  [call 1 0x20060000 0 0, call 7 0 0 0, call 7 0 0 0, call 7 0 0 0]

example : asleep.kernel.waiters (sampleLayout.addr .clock) = [19, 18] := by decide +kernel

theorem handleSysTimer_wakes_all_asleep : ∃ s',
    handleSysTimer sampleLayout asleep.kernel = .ok () s' ∧ Tick sampleLayout asleep.kernel s' :=
  handleSysTimer_wakes_all (by
    have hr : Machine.Reachable sampleLayout (Machine.Lawful sampleLayout) asleep :=
      .run (.boot _ _ _) (by decide +kernel)
    obtain ⟨N, hN⟩ := hr.sound
    exact hN.refines.queued)

end Pandos
