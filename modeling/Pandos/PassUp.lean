import Pandos.Contexts

/-!
# Pass up or die

A trap that the kernel does not serve goes to the support structure that the
process got when it was created, or is the end of the process and its progeny.
-/

namespace Pandos
open Intrusive Outcome Linked

section
variable {L : Layout} {g : Globals} {a : Word} {st : StateT}

/-- The stores of distinct words do not disturb one another. -/
theorem mem_stores {l : List (Fin 35)} (i : Fin 35) :
    (l.foldl (fun g j => g.writeMem (wordAt a j) (st.words j)) g).mem (wordAt a i) =
      if i ∈ l then st.words i else g.mem (wordAt a i) := by
  induction l generalizing g with
  | nil => rfl
  | cons j l ih =>
    rw [List.foldl_cons, ih]
    by_cases hij : i = j
    · subst hij
      simp [Globals.writeMem]
    · have hne : wordAt a i ≠ wordAt a j := fun h =>
        hij (Fin.ext (wordAt_inj (by omega) (by omega) h))
      simp [Globals.writeMem, hij, hne]

/-- A state that has been written can be read back. -/
theorem mem_writeState_at (i : Fin 35) : (g.writeState a st).mem (wordAt a i) = st.words i := by
  have h := @mem_stores g a st (List.finRange 35) i
  rwa [if_pos (List.mem_finRange i)] at h

/-- The contexts of a support structure lie behind its states. -/
theorem supExceptContext_apart (support : Word) {n k : Nat} (hn : n ≤ 1) (hk : k < 3) (i : Fin 35) :
    wordAt (supExceptContext support n) k ≠ wordAt (supExceptState support n) i := by
  intro h
  have h := congrArg BitVec.toNat h
  simp only [wordAt, supExceptContext, supExceptState, BitVec.toNat_add, BitVec.toNat_ofNat] at h
  omega

/-- Code that stores and then leaves with what it reads. -/
theorem store_leave (f : Globals → Globals) (exit : Kernel → Exit) (s : Kernel) :
    ((do K.globals f; K.leave (exit (← get))) : K Unit) s =
      .error (exit { s with toGlobals := f s.toGlobals }) { s with toGlobals := f s.toGlobals } := rfl

/-- The state goes to the support structure, and the context comes from it. -/
theorem passUpOrDie_up {s : Kernel} {c : Pcb} {sup : Word} {n : Nat} (hc : s.gCurrentProcess = some c)
    (hsup : (s.pcbs c).pSupportStruct = sup) (h0 : sup ≠ 0) (hn : n ≤ 1) :
    passUpOrDie L n s = .error (.ldcxt (s.mem (supExceptContext sup n)) (s.mem (supExceptContext sup n + 4))
        (s.mem (supExceptContext sup n + 8)))
      { s with toGlobals := s.writeState (supExceptState sup n) s.gOldState } := by
  have context : ∀ k < 3, (s.writeState (supExceptState sup n) s.gOldState).mem
      (wordAt (supExceptContext sup n) k) = s.mem (wordAt (supExceptContext sup n) k) := fun k hk =>
    mem_writeState (supExceptContext_apart sup hn hk)
  have h₀ := context 0 (by decide)
  have h₁ : _ = s.mem (supExceptContext sup n + 4) := context 1 (by decide)
  have h₂ : _ = s.mem (supExceptContext sup n + 8) := context 2 (by decide)
  rw [show wordAt (supExceptContext sup n) 0 = supExceptContext sup n from BitVec.add_zero _] at h₀
  rw [← h₀, ← h₁, ← h₂]
  refine (bind_of_ok rfl).trans ?_
  rw [hc]
  dsimp only
  rw [hsup, if_neg h0]
  exact store_leave _ _ s

end

namespace Machine
variable {L : Layout} {ok : Machine → Event → Prop} {m m' : Machine} {N : Nucleus} {t u : Trap} {c p : Pcb}

/-- What is passed up leaves the kernel as `passUpOrDie` does. -/
theorem handler_passesUp {e : Exit} {s' : Kernel} (hu : t.PassesUp)
    (h : passUpOrDie L t.passUpType (m.entered t) = .error e s') :
    exceptionHandler L (m.trapped t) = .error e s' := by
  have h0 := hu.1
  by_cases h8 : excCode (t.old 1) = 8
  · rw [entered_syscall h8, show t.passUpType = generalExcept from if_pos (.inl h8)] at h
    have hcall : syscall L (t.old 7) (t.old 8) (t.old 9) (t.old 10) (m.served t) = .error e s' := by
      rw [syscall_other (hu.2 h8)]
      exact bind_of_error h
    exact (handler_syscall h8).trans (bind_of_error hcall)
  · exact (handler_trap h0 h8).trans h

/-- The state with which `c` trapped is in its support structure at `sup`, its
handler there is loaded, and nothing else has changed. -/
structure PassedUp (L : Layout) (m : Machine) (t : Trap) (c : Pcb) (sup : Word) : Prop where
  handler : ∃ s', exceptionHandler L (m.trapped t) = .error (.ldcxt (t.mem (supExceptContext sup t.passUpType))
    (t.mem (supExceptContext sup t.passUpType + 4)) (t.mem (supExceptContext sup t.passUpType + 8))) s'
  mode : (m.step L (.exception t)).mode = .running c
  saved : ∀ i : Fin 35, (m.step L (.exception t)).kernel.mem
    (wordAt (supExceptState sup t.passUpType) i) = (m.entry t).words i
  rest : ∃ mem', (m.step L (.exception t)).kernel = { m.entered t with mem := mem' } ∧
    ∀ a, (∀ i : Fin 35, a ≠ wordAt (supExceptState sup t.passUpType) i) → mem' a = t.mem a

theorem passUpType_le (t : Trap) : t.passUpType ≤ 1 := by
  unfold Trap.passUpType
  split <;> decide

theorem step_passes_up {sup : Word} (hS : m.Sound N) (hc : m.mode = .running c) (hu : t.PassesUp)
    (hsup : (m.kernel.pcbs c).pSupportStruct = sup) (h0 : sup ≠ 0) : m.PassedUp L t c sup := by
  have hcur : (m.entered t).gCurrentProcess = some c := hS.current hc
  have hleft := handler_passesUp hu (passUpOrDie_up (L := L) hcur hsup h0 (passUpType_le t))
  have hsaved : ∀ i : Fin 35, ((m.entered t).writeState (supExceptState sup t.passUpType)
      (m.entered t).gOldState).mem (wordAt (supExceptState sup t.passUpType) i) = (m.entry t).words i :=
    fun i => mem_writeState_at i
  have hkept : ∀ a, (∀ i : Fin 35, a ≠ wordAt (supExceptState sup t.passUpType) i) →
      ((m.entered t).writeState (supExceptState sup t.passUpType) (m.entered t).gOldState).mem a = t.mem a :=
    fun a ha => mem_writeState ha
  rw [Globals.writeState_eq] at hleft
  generalize ((m.entered t).writeState (supExceptState sup t.passUpType) (m.entered t).gOldState).mem = mem'
    at hleft hsaved hkept
  have hstep : m.step L (.exception t) = ⟨_, m.mode⟩ := enter_left hleft
  refine ⟨⟨_, hleft⟩, ?_, ?_, ?_⟩
  · rw [hstep]
    exact hc
  · rw [hstep]
    exact hsaved
  · rw [hstep]
    exact ⟨mem', rfl, hkept⟩

theorem entered_refines (hS : m.Sound N) (t : Trap) :
    (m.entered t).Refines ⟨N.toQueues, (m.entered t).toGlobals⟩ := by
  refine ⟨hS.refines.queued, hS.refines.queues, rfl, hS.refines.tree, fun c hc => ?_⟩
  exact hS.refines.current c (hS.refines.globals ▸ hc)

/-- Without a support structure a process ends, and everything below it. -/
theorem step_dies (hS : m.Sound N) (hc : m.mode = .running c) (hu : t.PassesUp)
    (h0 : (m.kernel.pcbs c).pSupportStruct = 0) (q : Pcb) :
    q ∈ (m.step L (.exception t)).kernel.free ↔
      q ∈ m.kernel.free ∨ q = c ∨ m.kernel.nucleus.Below c q := by
  have hcur : (m.entered t).gCurrentProcess = some c := hS.current hc
  have hrun : Runs (passUpOrDie L t.passUpType) ⟨N.toQueues, (m.entered t).toGlobals⟩ (fun _ _ => False)
      fun _ M => ∀ q, q ∈ M.free ↔ q ∈ N.free ∨ q = c ∨ N.Below c q := by
    refine Runs.passUpOrDie (fun hn => ?_) (fun c' hc' _ => ?_) fun c' hc' hs => ?_
    · cases hcur.symm.trans hn
    · obtain rfl : c = c' := Option.some.inj (hcur.symm.trans hc')
      refine Runs.sysTerminateProcess rfl fun S P hr hS' hP _ _ q => ?_
      have hS' : q ∈ S ↔ q = c ∨ N.Below c q := hS' q
      rw [Nucleus.free_schedule hP, hr.free, ← hS']
      by_cases hq : q ∈ S <;> simp [hq]
    · obtain rfl : c = c' := Option.some.inj (hcur.symm.trans hc')
      exact absurd (hS.refines.pcbs ▸ h0) hs
  obtain ⟨e, s', ⟨M, hM, hfree⟩, hleft⟩ := left_of_ends (hrun.leaves (entered_refines hS t))
  have hstep : m.step L (.exception t) = ⟨s', _⟩ := enter_left (handler_passesUp hu hleft)
  rw [hstep, hM.free, hfree, hS.refines.free, hS.refines.nucleus_eq]

/-- A process that traps, however long after its creation, is passed up to the
support structure that its parent gave it, or ends with its progeny if there is
none. -/
theorem pass_up_or_die {l : List Pcb} {ns : Option Nsd} (h : Reachable L ok m) (hc : m.mode = .running c)
    (he : m.Enabled (.exception t)) (h1 : t.Calls 1) (hns : L.toNsd (t.old 10) = some ns)
    (hf : m.kernel.free = p :: l)
    (hrun : Leads L (fun m _ => p ∉ m.kernel.free) (m.step L (.exception t)) m')
    (hp : m'.mode = .running p) (hu : u.PassesUp) :
    (t.old 9 ≠ 0 → m'.PassedUp L u p (t.old 9)) ∧
    (t.old 9 = 0 → ∀ q, q ∈ (m'.step L (.exception u)).kernel.free ↔
      q ∈ m'.kernel.free ∨ q = p ∨ m'.kernel.nucleus.Below p q) := by
  obtain ⟨N, hN⟩ := h.sound
  obtain ⟨M, hM⟩ := hN.step he (L := L)
  obtain ⟨N', hN'⟩ := hrun.sound hM
  have hid := (run_identity hM hrun).trans (step_create_identity h hc h1 hns hf)
  have hsup : (m'.kernel.pcbs p).pSupportStruct = t.old 9 := congrArg (·.2.1) hid
  exact ⟨step_passes_up hN' hp hu hsup, fun h0 => step_dies hN' hp hu (hsup.trans h0)⟩

/-- A child makes a system call that the kernel does not know, while its parent
is blocked. -/
theorem pass_up_or_die_child :
    let t := callTrap 1 0x20060000 0x20070000 0 sampleBoot
    let m' := (sampleBoot.step sampleLayout (.exception t)).run sampleLayout [call 3 0x20080000 0 0]
    m'.PassedUp sampleLayout (callTrap 11 0 0 0 m') 18 0x20070000 := by
  intro t m'
  have hboot : Reachable sampleLayout (Lawful sampleLayout) sampleBoot := .boot _ _ _
  refine (@pass_up_or_die sampleLayout (Lawful sampleLayout) sampleBoot m' t (callTrap 11 0 0 0 m') 19 18
    sampleBoot.kernel.free.tail none hboot ?_ ?_ ?_ ?_ ?_ (Leads.refl.run ?_) ?_ ?_).1 ?_
  all_goals decide +kernel

end Machine

end Pandos
