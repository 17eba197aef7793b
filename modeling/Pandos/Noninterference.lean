import Pandos.Linked.Runs

/-!
# What the kernel does not look at

Two runs have the same devices, the same system calls and the same values in
the semaphores and requests that these name. The other registers and words of
the processes and the clock may differ in every event. The kernel schedules
both runs alike.
-/

namespace Pandos
open Linked

/-- Two records that one is alike to. -/
theorem PcbT.Alike.join {r a b : PcbT} (h : r.Alike .any a) (h' : r.Alike .any b) : a.Alike .any b where
  pParent := h.pParent.symm.trans h'.pParent
  pS := ⟨fun _ => trivial, h.pS.inWait.symm.trans h'.pS.inWait⟩
  pTime := trivial
  pSemAdd := h.pSemAdd.symm.trans h'.pSemAdd
  namespaces := h.namespaces.symm.trans h'.namespaces
  pSupportStruct := h.pSupportStruct.symm.trans h'.pSupportStruct
  cmdAddr := h.cmdAddr.symm.trans h'.cmdAddr
  cmdValues := h.cmdValues.symm.trans h'.cmdValues

theorem Globals.Alike.join {g a b : Globals} (h : g.Alike .any a) (h' : g.Alike .any b) : a.Alike .any b where
  gProcessCount := h.gProcessCount.symm.trans h'.gProcessCount
  gSoftBlockCount := h.gSoftBlockCount.symm.trans h'.gSoftBlockCount
  gCurrentProcess := h.gCurrentProcess.symm.trans h'.gCurrentProcess
  gSysiostates := h.gSysiostates.symm.trans h'.gSysiostates
  gPseudoClock := h.gPseudoClock.symm.trans h'.gPseudoClock
  gTod := trivial
  gOldState := ⟨fun _ => trivial, h.gOldState.inWait.symm.trans h'.gOldState.inWait⟩
  mem _ := trivial
  bus := h.bus.symm.trans h'.bus
  hw := h.hw.symm.trans h'.hw
  stck _ := trivial
  stckReads := h.stckReads.symm.trans h'.stckReads

/-- Two machines that differ in registers, times and memory only. -/
structure Machine.Alike (m m' : Machine) : Prop where
  mode : m.mode = m'.mode
  pcbs : ∀ p, (m.kernel.pcbs p).Alike .any (m'.kernel.pcbs p)
  procQ : m.kernel.procQ = m'.kernel.procQ
  pChild : m.kernel.pChild = m'.kernel.pChild
  sKey : m.kernel.sKey = m'.kernel.sKey
  semdFreeH : m.kernel.semdFreeH = m'.kernel.semdFreeH
  semdH : m.kernel.semdH = m'.kernel.semdH
  globals : m.kernel.toGlobals.Alike .any m'.kernel.toGlobals

namespace Machine
variable {L : Layout} {m m' : Machine} {e e' : Event}

/-- Two runs whose events differ in what the kernel does not look at. -/
inductive Indistinct (L : Layout) : Machine → Machine → Prop
  | boot (bus mem mem' : Word → Word) (stck stck' : Nat → Word) :
      Indistinct L (boot L mem bus stck) (boot L mem' bus stck')
  | step {m m' : Machine} {e e' : Event} : Indistinct L m m' → m.Enabled e → m.Lawful L e →
      e'.Alike L .any m e → Indistinct L (m.step L e) (m'.step L e')

/-- Machines that one machine on pointers mirrors. -/
theorem alike_of_mirrors {M : Linked.Machine} (h : M.Mirrors .any m) (h' : M.Mirrors .any m') :
    m.Alike m' := by
  obtain ⟨hmode, A, hP⟩ := h
  obtain ⟨hmode', A', hP'⟩ := h'
  obtain ⟨hq, hc, hk, hf, hh⟩ := hP.links.unique hP'.links
  exact ⟨hmode.symm.trans hmode', fun p => (hP.pcbs p).join (hP'.pcbs p), hq, hc, hk, hf, hh,
    hP.globals.join hP'.globals⟩

theorem Alike.enabled (h : m.Alike m') (he : e'.Alike L .any m e) (hen : m.Enabled e) : m'.Enabled e' := by
  cases he with
  | wake => exact h.mode.symm.trans hen
  | @exception t' t ht =>
    refine ⟨?_, fun d => ?_⟩
    · rw [ht.args 1 (by simp), ← h.mode]
      exact hen.1
    · rw [ht.hw, ← h.globals.hw]
      exact hen.2 d

theorem Alike.lawful (h : m.Alike m') (he : e'.Alike L .any m e) (hlaw : m.Lawful L e) : m'.Lawful L e' := by
  cases he with
  | wake => trivial
  | @exception t' t ht =>
    have calls : ∀ n, t'.Calls n ↔ t.Calls n := fun n => by
      rw [Trap.Calls, Trap.Calls, ht.args 1 (by simp), ht.args 7 (by simp)]
    have hfree : m'.kernel.free = m.kernel.free := congrFun h.procQ.symm _
    simp only [Lawful, calls, ht.args 8 (by simp), hfree]
    exact hlaw

/-- A second run is mirrored by the machine that mirrors the first. -/
theorem Indistinct.mirrored (h : Indistinct L m m') : Reachable L (Lawful L) m ∧ Reachable L (Lawful L) m' ∧
    ∃ M : Linked.Machine, M.Mirrors .any m ∧ M.Mirrors .any m' := by
  induction h with
  | boot bus mem mem' stck stck' =>
    exact ⟨.boot _ _ _, .boot _ _ _, .boot L mem bus stck,
      Linked.Machine.mirrors_boot (fun _ => trivial) fun _ => trivial,
      Linked.Machine.mirrors_boot (fun _ => trivial) fun _ => trivial⟩
  | step _ hen hlaw he ih =>
    obtain ⟨hr, hr', M, hM, hM'⟩ := ih
    obtain ⟨N, hN⟩ := hr.sound
    obtain ⟨N', hN'⟩ := hr'.sound
    have halike := alike_of_mirrors hM hM'
    have hen' := halike.enabled he hen
    have hlaw' := halike.lawful he hlaw
    exact ⟨hr.step hen hlaw, hr'.step hen' hlaw', _, hM.step hN he hen hlaw,
      hM'.step hN' (.refl _) hen' hlaw'⟩

/-- Whatever the registers, the memory and the times of the processes are, the
kernel has the same processes in the same queues and leaves in the same mode. -/
theorem scheduling_ignores_data (h : Indistinct L m m') : m.Alike m' := by
  obtain ⟨-, -, M, hM, hM'⟩ := h.mirrored
  exact alike_of_mirrors hM hM'

/-- The exception `t` with other registers and another memory. -/
def disguise (t : Trap) : Trap where
  old i := if i.val ∈ [1, 7, 8, 9, 10] then t.old i else 0x99
  mem a := if a = t.old 8 then t.mem a else a
  bus := t.bus
  hw := t.hw

theorem alike_disguise {t : Trap} (h5 : ¬t.Calls 5) (hm : ∀ d, m.kernel.waiters (L.addr (.semMut d)) = []) :
    (Event.exception (disguise t)).Alike L .any m (.exception t) := by
  refine .exception ⟨fun _ => trivial, fun i hi => if_pos hi, fun _ => trivial, ?_, rfl, rfl⟩
  rintro a (⟨-, rfl⟩ | ⟨hc, -⟩ | ⟨p, ⟨d, hp⟩, -⟩)
  · exact if_pos rfl
  · exact absurd hc h5
  · rw [hm d] at hp
    cases hp

/-- A process makes a child, and both wait for the same semaphore. -/
theorem scheduling_ignores_data_sample :
    let create := callTrap 1 0x20060000 0 0
    let wait := callTrap 3 0x20060000 0 0
    let other := boot sampleLayout id (fun _ => 0) fun n => BitVec.ofNat 32 (7 * n)
    let m := sampleBoot.step sampleLayout (.exception (create sampleBoot))
    let m' := other.step sampleLayout (.exception (disguise (create sampleBoot)))
    (m.step sampleLayout (.exception (wait m))).Alike
      (m'.step sampleLayout (.exception (disguise (wait m)))) := by
  intro create wait other m m'
  have hboot : Indistinct sampleLayout sampleBoot other := .boot _ _ _ _ _
  have hfirst : Indistinct sampleLayout m m' := hboot.step (by decide +kernel) (by decide +kernel)
    (alike_disguise (by decide +kernel) (by decide +kernel))
  exact scheduling_ignores_data (hfirst.step (by decide +kernel) (by decide +kernel)
    (alike_disguise (by decide +kernel) (by decide +kernel)))

end Machine

end Pandos
