import Pandos.Passes
import Pandos.Scenario

/-!
# Interrupts in order of priority

`interruptHandler` calls itself and asks the cause register anew each time. That
comes to one loop over the lines that are pending when the exception is taken.
-/

namespace Pandos
open K Intrusive Outcome

/-- The lines of a cause register with their bits, in the order of their numbers. -/
def pendingBits (cause : Word) : List (Word × Line) := interruptLines.filter fun l => cause &&& l.1 ≠ 0

/-- One branch of `interruptHandler`. -/
def serveBit (L : Layout) (l : Word × Line) : K Unit := do
  globals fun s => { s with gOldState := s.gOldState.setCause (s.gOldState.cause &&& ~~~l.1) }
  handleLine L l.2

/-- The lines are served one after the other. -/
def serveBits (L : Layout) : List (Word × Line) → K Unit
  | [] => pure ()
  | l :: ls => do
    serveBit L l
    serveBits L ls

/-- The end of `interruptHandler`. -/
def endInterrupt : K Unit := do
  let tod ← stck
  globals ({ · with gTod := tod })
  leave .ldst

section
variable {L : Layout} {cause bit : Word} {line : Line} {s t : Kernel} {N : Nucleus}

theorem pendingBits_some (h : firstLine cause = some (bit, line)) :
    pendingBits cause = (bit, line) :: pendingBits (cause &&& ~~~bit) :=
  interruptLines_pending h

theorem pendingBits_eq_nil (h : cause &&& interruptMask = 0) : pendingBits cause = [] :=
  List.map_eq_nil_iff.mp (pendingLines_none h)

theorem serveLine_none (h : firstLine s.gOldState.cause = none) : serveLine L s = .ok () s := by
  refine (bind_of_ok rfl).trans ?_
  rw [h]
  rfl

theorem serveLine_some (h : firstLine s.gOldState.cause = some (bit, line)) :
    serveLine L s = serveBit L (bit, line) s := by
  refine (bind_of_ok rfl).trans ?_
  rw [h]
  rfl

theorem endInterrupt_leaves (s : Kernel) : ∃ t, endInterrupt s = .error .ldst t := ⟨_, rfl⟩

/-- However the lines are served, the kernel is left. -/
theorem serveBits_leaves (ls : List (Word × Line)) (s : Kernel) :
    ∃ e t, (serveBits L ls >>= fun _ => endInterrupt) s = .error e t := by
  cases h : serveBits L ls s with
  | error e t => exact ⟨e, t, bind_of_error h⟩
  | ok _ t =>
    obtain ⟨u, hu⟩ := endInterrupt_leaves t
    exact ⟨.ldst, u, (bind_of_ok h).trans hu⟩

/-- The recursion of `interruptHandler` is a loop. -/
theorem interruptHandler_eq {fuel : Nat} (hs : s.Refines N) (hf : pending s.gOldState.cause < fuel) :
    interruptHandler L fuel s =
      (serveBits L (pendingBits s.gOldState.cause) >>= fun _ => endInterrupt) s := by
  induction fuel generalizing s N with
  | zero => omega
  | succ fuel ih =>
    rw [interruptHandler]
    cases hl : firstLine s.gOldState.cause with
    | none =>
      have h0 := firstLine_none hl
      rw [bind_of_ok (serveLine_none hl), pendingBits_eq_nil h0]
      refine (bind_of_ok rfl).trans ?_
      rw [if_neg (by simpa using h0)]
      rfl
    | some l =>
      obtain ⟨bit, line⟩ := l
      have hserve : serveLine L s = serveBit L (bit, line) s := serveLine_some hl
      rw [pendingBits_some hl]
      cases hr : serveBit L (bit, line) s with
      | error e t =>
        rw [bind_of_error (hserve.trans hr)]
        exact (bind_of_error (bind_of_error hr)).symm
      | ok _ t =>
        obtain ⟨M, hM, hcause⟩ := serveLine_ok hs (hserve.trans hr)
        have hclear : s.gOldState.cause &&& ~~~bit = t.gOldState.cause := by
          rw [hcause, served, hl]
        have hrest : (serveBits L ((bit, line) :: pendingBits (s.gOldState.cause &&& ~~~bit)) >>=
            fun _ => endInterrupt) s = (serveBits L (pendingBits t.gOldState.cause) >>=
              fun _ => endInterrupt) t := by
          rw [hclear]
          show (serveBit L (bit, line) >>= _ >>= _) s = _
          rw [bind_assoc, bind_of_ok hr]
        rw [bind_of_ok (hserve.trans hr), hrest]
        refine (bind_of_ok rfl).trans ?_
        by_cases h0 : t.gOldState.cause &&& interruptMask = 0
        · rw [if_neg (by simpa using h0), pendingBits_eq_nil h0]
          rfl
        · -- the call does not return, and what stands after it is not reached
          rw [if_pos h0]
          have hlt := pending_served (hcause ▸ h0)
          have hcall := ih hM (by rw [hcause]; omega)
          obtain ⟨e, u, hu⟩ := serveBits_leaves (L := L) (pendingBits t.gOldState.cause) t
          rw [hu] at hcall ⊢
          exact bind_of_error hcall

end

namespace Machine
variable {L : Layout} {ok : Machine → Event → Prop} {m : Machine} {t : Trap}

theorem enter_congr {k : Mode} {x y : K Unit} {s u : Kernel} (h : x s = y u) : enter k x s = enter k y u := by
  unfold enter
  rw [h]

/-- The lines that are pending when an interrupt is taken are each served once,
in order of priority. -/
theorem interrupt_in_order (h : Reachable L ok m) (h0 : excCode (t.old 1) = 0) :
    m.step L (.exception t) = enter m.mode (do
      updateProcessTime
      serveBits L (pendingBits (t.old 1))
      endInterrupt) (m.trapped t) := by
  obtain ⟨N, hS⟩ := h.sound
  obtain ⟨hok, hs⟩ := updateProcessTime_ok (trapped_refines hS.refines t)
  have hcode : excCode (m.trapped t).gOldState.cause = 0 := h0
  have hhandler : exceptionHandler L (m.trapped t) = interruptHandler L 7 (m.trapped t).charged :=
    (exceptionHandler_interrupt hcode).trans (bind_of_ok hok)
  have hcause : (m.trapped t).charged.gOldState.cause = t.old 1 := by
    rw [hs.globals]
    rfl
  have hloop := interruptHandler_eq (L := L) hs (Nat.lt_succ_of_le (pending_le _))
  rw [hcause] at hloop
  have hplain := bind_of_ok (f := fun _ => serveBits L (pendingBits (t.old 1)) >>= fun _ => endInterrupt) hok
  exact enter_congr ((hhandler.trans hloop).trans hplain.symm)

/-- The clock and a disk at once: everybody who waits for the clock is woken,
then the disk is served. -/
theorem interrupt_in_order_both :
    let t := interruptTrap 0xC00 [(0x10000040, 1)] [] sampleBoot
    sampleBoot.step sampleLayout (.exception t) = enter sampleBoot.mode (do
      updateProcessTime
      serveBits sampleLayout [(timerInterrupt, .sysTimer), (diskInterrupt, .device diskIntline)]
      endInterrupt) (sampleBoot.trapped t) := by
  intro t
  have hboot : Reachable sampleLayout (Lawful sampleLayout) sampleBoot := .boot _ _ _
  have hbits : pendingBits (t.old 1) =
      [(timerInterrupt, .sysTimer), (diskInterrupt, .device diskIntline)] := by decide
  exact hbits ▸ interrupt_in_order hboot (t := t) (by decide)

end Machine

end Pandos
