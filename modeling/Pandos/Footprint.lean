import Pandos.CodeWrites
import Pandos.Scenario

/-!
# Where an exception writes

An exception changes the memory of processes only where it is told to: a
semaphore, the array for the children, the state passed up to a support
structure, and the values of requests to devices.
-/

namespace Pandos
open Intrusive Outcome Linked

variable {L : Layout}

/-- Through which of the two areas of a support structure `t` is passed up. -/
def Trap.passUpType (t : Trap) : Nat :=
  if excCode (t.old 1) = 8 ∨ 3 < excCode (t.old 1) then generalExcept else pgFaultExcept

namespace Machine
variable {m : Machine} {N : Nucleus} {t : Trap}

/-- The processes that use a device or wait for one in use. -/
def atDevices (L : Layout) (m : Machine) : Set Pcb :=
  {p | ∃ d, p ∈ m.kernel.waiters (L.addr (.semMut d)) ∨ (m.kernel.gSysiostates d).waitingProcess = some p}

/-- The words of processes that the kernel may write in handling `t`. -/
inductive Touches (L : Layout) (m : Machine) (t : Trap) : Word → Prop
  | semaphore : t.Calls 3 ∨ t.Calls 4 → Touches L m t (t.old 8)
  | child {i : Nat} : t.Calls 10 → i < (t.old 9).toInt.toNat → Touches L m t (wordAt (t.old 8) i)
  | passUp {c : Pcb} (i : Fin 35) : t.PassesUp → m.kernel.gCurrentProcess = some c →
      (m.kernel.pcbs c).pSupportStruct ≠ 0 →
      Touches L m t (supExceptState (m.kernel.pcbs c).pSupportStruct t.passUpType + BitVec.ofNat 32 (4 * i))
  | answer {p : Pcb} {a : Word} : excCode (t.old 1) = 0 → p ∈ m.atDevices L →
      a ∈ request (m.kernel.pcbs p).cmdAddr (m.kernel.pcbs p).cmdValues → Touches L m t a

/-- The context with which the handler of `t` starts to write. -/
def entry (m : Machine) (t : Trap) : StateT :=
  if excCode (t.old 1) = 8 then (m.served t).gOldState else (m.trapped t).gOldState

/-- The kernel in which it does. -/
def entered (m : Machine) (t : Trap) : Kernel := { m.trapped t with gOldState := m.entry t }

/-- What the kernel may write in handling `t`. -/
def range (L : Layout) (m : Machine) (t : Trap) : Range where
  fresh := {p | t.Calls 1 ∧ p ∈ m.kernel.free.head?}
  caller := m.kernel.gCurrentProcess
  asked := {p | excCode (t.old 1) = 0 ∧ p ∈ m.atDevices L}
  words := {a | m.Touches L t a}
  interrupt := excCode (t.old 1) = 0
  old := m.entry t

theorem serves_range (h8 : excCode (t.old 1) = 8) :
    (m.range L t).Serves L (m.served t) (t.old 7) (t.old 8) (t.old 9) := by
  have up : ¬(1 ≤ (t.old 7).toNat ∧ (t.old 7).toNat ≤ 10) → t.PassesUp := fun hn =>
    ⟨by simp [h8], fun _ => hn⟩
  have htype : t.passUpType = generalExcept := if_pos (.inl h8)
  refine ⟨fun hn p l hf => ⟨⟨h8, hn⟩, ?_⟩, fun hn => ?_, fun hn i hi => ?_, fun hn c hc h0 i => ?_⟩
  · have hf : m.kernel.free = p :: l := hf
    simp [hf]
  · exact .semaphore (hn.imp (⟨h8, ·⟩) (⟨h8, ·⟩))
  · exact .child ⟨h8, hn⟩ hi
  · exact htype ▸ .passUp i (up hn) hc h0

theorem entered_syscall (h8 : excCode (t.old 1) = 8) : m.entered t = m.served t := by
  simp only [entered, entry, if_pos h8]
  rfl

theorem entered_other (h8 : excCode (t.old 1) ≠ 8) : m.entered t = m.trapped t := by
  simp only [entered, entry, if_neg h8]

theorem handler_trap (h0 : excCode (t.old 1) ≠ 0) (h8 : excCode (t.old 1) ≠ 8) :
    exceptionHandler L (m.trapped t) = passUpOrDie L t.passUpType (m.entered t) := by
  have htype : t.passUpType = if 3 < excCode (t.old 1) then generalExcept else pgFaultExcept := by
    simp only [Trap.passUpType, h8, false_or]
  rw [entered_other h8, htype]
  exact exceptionHandler_trap (s := m.trapped t) h0 h8

theorem inside_entered (hN : m.Sound N) : Inside L (m.range L t) (m.entered t) where
  caller := rfl
  old := .refl _
  waiting h0 d _ hp := ⟨h0, d, .inr hp⟩
  buffered h0 := by
    refine ⟨fun d i hi p hp => ⟨h0, d, .inl ?_⟩, fun p hp a ha => .answer h0 hp.2 ha⟩
    exact hN.refines.queued.mem_waiters.mpr ⟨L.addr_ne_zero _, (hN.refines.queued.keyed i p hp).trans hi⟩

/-- The current process is in no queue. -/
theorem adrift_entered (hN : m.Sound N) : Adrift (m.range L t) (m.entered t) := by
  intro c hc
  obtain ⟨hr, ha⟩ := hN.refines.current c (hN.refines.globals ▸ hc)
  exact ⟨fun hm => hr (hN.refines.ready ▸ hm), hN.refines.pcbs ▸ ha⟩

/-- The handler of `t` writes within its range. -/
theorem exceptionHandler_writes (hN : m.Sound N) : ∃ e s', exceptionHandler L (m.trapped t) = .error e s' ∧
    Writes (m.range L t) (m.entered t) s' ∧ Saved (m.range L t) s' := by
  have hin : Inside L (m.range L t) (m.entered t) := inside_entered hN
  have hadrift : Adrift (m.range L t) (m.entered t) := adrift_entered hN
  have hquits : Ends (exceptionHandler L) (m.trapped t) (fun _ _ => False) fun _ s' =>
      Writes (m.range L t) (m.entered t) s' ∧ Saved (m.range L t) s' := by
    by_cases h8 : excCode (t.old 1) = 8
    · have hserved := entered_syscall (m := m) h8
      have hnot : ¬(m.range L t).interrupt := fun h0 => by
        have h0 : excCode (t.old 1) = 0 := h0
        omega
      have hcode : excCode (m.trapped t).gOldState.cause = 8 := h8
      have hquits : Quits (m.range L t) (syscallHandler L) (m.entered t) :=
        syscallHandler_quits hin hadrift hnot (hserved ▸ serves_range h8)
      rw [hserved] at hquits ⊢
      exact (ends_congr (exceptionHandler_syscall hcode)).mpr hquits
    · by_cases h0 : excCode (t.old 1) = 0
      · have hcode : excCode (m.trapped t).gOldState.cause = 0 := h0
        rw [ends_congr (exceptionHandler_interrupt hcode), ← entered_other h8]
        exact (updateProcessTime_stays hin).bind_quits fun _ _ h => interruptHandler_quits 7 h h0
      · have hup : t.PassesUp := ⟨h0, fun h => absurd h h8⟩
        rw [ends_congr (handler_trap h0 h8)]
        exact passUpOrDie_quits hin hadrift _ fun c hc hs i => .passUp i hup hc hs
  cases hr : exceptionHandler L (m.trapped t) with
  | ok _ s' => exact ((ends_of_ok hr).mp hquits).elim
  | error e s' => exact ⟨e, s', rfl, (ends_of_error hr).mp hquits⟩

/-- What the event writes, and the mode after it. -/
theorem step_writes (hN : m.Sound N) : ∃ e, (m.step L (.exception t)).mode =
      resume m.mode (m.step L (.exception t)).kernel.pcbs e ∧
    Writes (m.range L t) (m.entered t) (m.step L (.exception t)).kernel ∧
    Saved (m.range L t) (m.step L (.exception t)).kernel := by
  obtain ⟨e, s', hleft, hw, hs⟩ := exceptionHandler_writes (L := L) (t := t) hN
  have hstep : m.step L (.exception t) = ⟨s', resume m.mode s'.pcbs e⟩ := enter_left hleft
  rw [hstep]
  exact ⟨e, rfl, hw, hs⟩

/-- Words that an exception does not touch have the value with which it was taken. -/
theorem exception_keeps_memory {ok : Machine → Event → Prop} (h : Reachable L ok m) {a : Word}
    (ha : ¬m.Touches L t a) : (m.step L (.exception t)).kernel.mem a = t.mem a := by
  obtain ⟨N, hN⟩ := h.sound
  obtain ⟨-, -, hw, -⟩ := step_writes (L := L) (t := t) hN
  exact hw.mem ha

theorem touches_interrupt (h0 : excCode (t.old 1) = 0) {a : Word} : m.Touches L t a ↔
    ∃ p ∈ m.atDevices L, a ∈ request (m.kernel.pcbs p).cmdAddr (m.kernel.pcbs p).cmdValues := by
  refine ⟨fun h => ?_, fun ⟨p, hp, ha⟩ => .answer h0 hp ha⟩
  have calls : ∀ n, ¬t.Calls n := fun n hn => by
    have h8 := hn.1
    omega
  cases h with
  | semaphore hc => exact absurd hc (by simp [calls])
  | child hc => exact absurd hc (calls 10)
  | passUp i hu => exact absurd h0 hu.1
  | answer _ hp ha => exact ⟨_, hp, ha⟩

/-- A disk finishes; the word after the four of the request keeps its value. -/
theorem exception_keeps_memory_disk :
    let m := sampleBoot.run sampleLayout [call 1 0x20060000 0 0, call 5 0x10000054 0x20070000 0]
    (m.step sampleLayout (.exception (diskTrap m))).kernel.mem 0x20070010 = 0 := by
  intro m
  have hm : Reachable sampleLayout (Lawful sampleLayout) m := (Reachable.boot _ _ _).run (by decide +kernel)
  have apart : ∀ p, ∀ i < (getNumRegister (m.kernel.pcbs p).cmdAddr).toNat,
      0x20070010 ≠ wordAt (m.kernel.pcbs p).cmdValues i := by
    decide +kernel
  refine exception_keeps_memory hm fun ht => ?_
  obtain ⟨p, -, i, hi, ha⟩ := (touches_interrupt (by decide)).mp ht
  exact apart p i hi ha

end Machine

end Pandos
