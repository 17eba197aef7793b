import Pandos.CreateProcess
import Pandos.Footprint

/-!
# What a process keeps

A process that is interrupted finds its registers as they were, however long it
waits in between. Its parent, its support structure and its namespaces are the
same for as long as it lives.
-/

namespace Pandos
open Intrusive Outcome Linked

namespace Machine
variable {L : Layout} {ok : Machine → Event → Prop} {m m' : Machine} {N : Nucleus} {t : Trap} {e : Event}
  {p : Pcb}

/-- What an event may write in the kernel of `m`. -/
def eventRange (L : Layout) (m : Machine) : Event → Range
  | .exception t => m.range L t
  | .wake => ⟨∅, none, ∅, ∅, False, m.kernel.gOldState⟩

/-- The kernel that an event finds. -/
def found (m : Machine) : Event → Kernel
  | .exception t => m.entered t
  | .wake => m.kernel

theorem pcbs_found (e : Event) : (m.found e).pcbs = m.kernel.pcbs := by cases e <;> rfl

theorem event_writes (hN : m.Sound N) (e : Event) :
    Writes (m.eventRange L e) (m.found e) (m.step L e).kernel := by
  cases e with
  | exception t =>
    obtain ⟨-, -, hw, -⟩ := step_writes (L := L) (t := t) hN
    exact hw
  | wake =>
    have hquits : Quits (m.eventRange L .wake) scheduler m.kernel :=
      scheduler_quits (.inr fun c hc => by cases hc)
    obtain ⟨e, s', h, hstep⟩ := enter_ends (k := m.mode) hquits
    rw [show m.step L .wake = _ from hstep]
    exact h.1

/-- `p` is ready or blocked. -/
def Waits (m : Machine) (p : Pcb) : Prop := p ∈ m.kernel.ready ∨ (m.kernel.pcbs p).pSemAdd ≠ 0

theorem Waits.live (hN : m.Sound N) (hw : m.Waits p) : p ∉ m.kernel.free := by
  intro hf
  rcases hw with hr | ha
  · exact hN.refines.queued.not_free_of_ready hr hf
  · exact ha (hN.refines.queued.semAdd_of_free hf)

theorem Waits.not_current (hN : m.Sound N) (hw : m.Waits p) : m.kernel.gCurrentProcess ≠ some p := by
  intro hc
  obtain ⟨hr, ha⟩ := hN.refines.current p (hN.refines.globals ▸ hc)
  rcases hw with hw | hw
  · exact hr (hN.refines.ready ▸ hw)
  · exact hw (hN.refines.pcbs ▸ ha)

theorem fresh_free (e : Event) (h : p ∈ (m.eventRange L e).fresh) : p ∈ m.kernel.free := by
  cases e with
  | exception t => exact List.mem_of_mem_head? h.2
  | wake => cases h

/-! ## Contexts -/

/-- The word for the result of a request, if the process may be at a device. -/
def results (io : Prop) : Set (Fin 35) := {i | i = 5 ∧ io}

/-- The context of a waiting process outlasts an event. -/
theorem event_context {io : Prop} (hN : m.Sound N) (hw : m.Waits p) (hio : p ∈ m.atDevices L → io) :
    (m.kernel.pcbs p).pS.Kept (results io) ((m.step L e).kernel.pcbs p).pS := by
  have hc : (m.eventRange L e).caller ≠ some p := by
    cases e with
    | exception t => exact hw.not_current hN
    | wake => exact nofun
  have hasked : p ∈ (m.eventRange L e).asked → (5 : Fin 35) ∈ results io := fun ha => by
    cases e with
    | exception t => exact ⟨rfl, hio ha.2⟩
    | wake => cases ha
  have h := (event_writes (L := L) hN e).context (fun hf => hw.live hN (fresh_free e hf)) hc hasked
  rwa [pcbs_found] at h

/-- So does it outlast a run. -/
theorem run_context {io : Prop} (hN : m.Sound N)
    (hrun : Leads L (fun m _ => m.Waits p ∧ (p ∈ m.atDevices L → io)) m m') :
    (m.kernel.pcbs p).pS.Kept (results io) (m'.kernel.pcbs p).pS := by
  obtain ⟨-, -, hkept⟩ := hrun.invariant hN
    (I := fun n => (m.kernel.pcbs p).pS.Kept (results io) (n.kernel.pcbs p).pS) (.refl _)
    fun hP hI _ hok => hI.trans (event_context hP hok.1 hok.2)
  exact hkept

/-- A process that waits after the exception that interrupted it is saved. -/
theorem exception_saves (hN : m.Sound N) (he : m.Enabled (.exception t)) (hc : m.mode = .running p)
    (hw : (m.step L (.exception t)).Waits p) :
    (m.entry t).Kept {1} ((m.step L (.exception t)).kernel.pcbs p).pS := by
  obtain ⟨M, hM⟩ := hN.step he (L := L)
  have hcaller : (m.range L t).caller = some p := hN.current hc
  obtain ⟨-, -, -, hsaved⟩ := step_writes (L := L) (t := t) hN
  rcases hsaved with ⟨hcur, -⟩ | hstored | hadrift
  · exact absurd (hcur.trans hcaller) (hw.not_current hM)
  · exact hstored p hcaller
  · obtain ⟨hr, ha⟩ := hadrift p hcaller
    exact (hw.elim hr fun h => h ha).elim

/-- A process that is interrupted and waits for its turn finds its registers as
they were, whatever happens in between: all but the cause, and the result of a
request to a device. -/
theorem context_restored {io : Prop} (h : Reachable L ok m) (hc : m.mode = .running p)
    (he : m.Enabled (.exception t)) (hw : (m.step L (.exception t)).Waits p)
    (hrun : Leads L (fun m _ => m.Waits p ∧ (p ∈ m.atDevices L → io)) (m.step L (.exception t)) m') :
    (m.entry t).Kept ({1} ∪ results io) (m'.kernel.pcbs p).pS := by
  obtain ⟨N, hN⟩ := h.sound
  obtain ⟨M, hM⟩ := hN.step he (L := L)
  exact ((exception_saves hN he hc hw).mono Set.subset_union_left).trans
    ((run_context hM hrun).mono Set.subset_union_right)

instance decidableWaits (m : Machine) (p : Pcb) : Decidable (m.Waits p) :=
  inferInstanceAs (Decidable (_ ∨ _))

instance decidableAtDevices (L : Layout) (m : Machine) (p : Pcb) : Decidable (p ∈ m.atDevices L) :=
  inferInstanceAs (Decidable (∃ d, p ∈ m.kernel.waiters (L.addr (.semMut d)) ∨
    (m.kernel.gSysiostates d).waitingProcess = some p))

/-- The timer interrupts a process with a number in every register. -/
def timerTrap (m : Machine) : Trap :=
  { interruptTrap 0x200 [] [] m with old := fun i => if i = 1 then 0x200 else BitVec.ofNat 32 (100 + i) }

/-- Its child blocks, and it goes on. -/
theorem context_restored_preempted :
    let m := sampleBoot.step sampleLayout (call 1 0x20060000 0 0 sampleBoot)
    (m.entry (timerTrap m)).Kept ({1} ∪ results False)
      (((m.step sampleLayout (.exception (timerTrap m))).run sampleLayout
        [call 3 0x20060000 0 0]).kernel.pcbs 19).pS := by
  intro m
  have hm : Reachable sampleLayout (Lawful sampleLayout) m :=
    (Reachable.boot _ _ _).step (by decide +kernel) (by decide +kernel)
  refine context_restored hm (by decide +kernel) (by decide +kernel) (by decide +kernel) ?_
  exact Leads.refl.run (by decide +kernel)

/-! ## Identity -/

/-- Who a process is does not change with an event. -/
theorem event_identity (hN : m.Sound N) (hp : p ∉ m.kernel.free) :
    ((m.step L e).kernel.pcbs p).identity = (m.kernel.pcbs p).identity := by
  have h := (event_writes (L := L) hN e).identity fun hf => hp (fresh_free e hf)
  rwa [pcbs_found] at h

/-- Nor with a run in which it lives. -/
theorem run_identity (hN : m.Sound N) (hrun : Leads L (fun m _ => p ∉ m.kernel.free) m m') :
    (m'.kernel.pcbs p).identity = (m.kernel.pcbs p).identity := by
  obtain ⟨-, -, hid⟩ := hrun.invariant hN
    (I := fun n => (n.kernel.pcbs p).identity = (m.kernel.pcbs p).identity) rfl
    fun hP hI _ hok => (event_identity hP hok).trans hI
  exact hid

/-- The namespaces of a new process: those of its parent, unless it gets one of
its own. -/
def bornInto (parent : Fin nsTypeMax → Option Nsd) : Option Nsd → Fin nsTypeMax → Option Nsd
  | some ns => Function.update (fun _ => none) ns.1 (some ns)
  | none => parent

theorem syscall_create {c : Pcb} {l : List Pcb} {ns : Option Nsd} (h : Reachable L ok m)
    (hc : m.mode = .running c) (h1 : t.Calls 1) (hns : L.toNsd (t.old 10) = some ns)
    (hf : m.kernel.free = p :: l) : syscall L (t.old 7) (t.old 8) (t.old 9) (t.old 10) (m.served t) =
      .ok (L.pcb p) ((m.served t).withChild c p ((m.served t).nucleus.newPcb c (t.old 8) (t.old 9) ns)) := by
  obtain ⟨⟨N, hN⟩, hcur, hlive⟩ := h.caller hc t
  unfold syscall
  rw [h1.2, hns]
  exact (bind_of_ok rfl).trans (sysCreateProcess_make hN (l := l) hf hcur hlive)

/-- The record of the pcb that `CREATEPROCESS` takes. -/
theorem step_create {c : Pcb} {l : List Pcb} {ns : Option Nsd} (h : Reachable L ok m) (hc : m.mode = .running c)
    (h1 : t.Calls 1) (hns : L.toNsd (t.old 10) = some ns) (hf : m.kernel.free = p :: l) :
    (m.step L (.exception t)).kernel.pcbs p =
      { (m.served t).nucleus.newPcb c (t.old 8) (t.old 9) ns with pParent := some c } := by
  rw [step_served h1.1 (syscall_create h hc h1 hns hf)]
  show Function.update (m.served t).pcbs p _ p = _
  rw [Function.update_self]

/-- Who it is that `CREATEPROCESS` makes. -/
theorem step_create_identity {c : Pcb} {l : List Pcb} {ns : Option Nsd} (h : Reachable L ok m)
    (hc : m.mode = .running c) (h1 : t.Calls 1) (hns : L.toNsd (t.old 10) = some ns)
    (hf : m.kernel.free = p :: l) : ((m.step L (.exception t)).kernel.pcbs p).identity =
      (some c, t.old 9, bornInto (m.kernel.pcbs c).namespaces ns) := by
  rw [step_create h hc h1 hns hf]
  cases ns <;> rfl

/-- A new process is who its parent made it for as long as it lives, and starts
with the context it was given. -/
theorem child_as_told {io : Prop} {c : Pcb} {l : List Pcb} {ns : Option Nsd} (h : Reachable L ok m)
    (hc : m.mode = .running c) (he : m.Enabled (.exception t)) (h1 : t.Calls 1)
    (hns : L.toNsd (t.old 10) = some ns) (hf : m.kernel.free = p :: l) :
    (Leads L (fun m _ => p ∉ m.kernel.free) (m.step L (.exception t)) m' →
      (m'.kernel.pcbs p).pParent = some c ∧ (m'.kernel.pcbs p).pSupportStruct = t.old 9 ∧
        (m'.kernel.pcbs p).namespaces = bornInto (m.kernel.pcbs c).namespaces ns) ∧
    (Leads L (fun m _ => m.Waits p ∧ (p ∈ m.atDevices L → io)) (m.step L (.exception t)) m' →
      StateT.Kept (results io) ⟨fun i => t.mem (t.old 8 + BitVec.ofNat 32 (4 * i)), false⟩
        (m'.kernel.pcbs p).pS) := by
  obtain ⟨N, hN⟩ := h.sound
  obtain ⟨M, hM⟩ := hN.step he (L := L)
  refine ⟨fun hrun => ?_, fun hrun => ?_⟩
  · have hid := (run_identity hM hrun).trans (step_create_identity h hc h1 hns hf)
    exact ⟨congrArg (·.1) hid, congrArg (·.2.1) hid, congrArg (·.2.2) hid⟩
  · have hctx := run_context hM hrun
    rw [step_create h hc h1 hns hf] at hctx
    exact hctx

theorem child_as_told_first :
    let t := callTrap 1 0x20060000 0x20070000 0 sampleBoot
    let m' := (sampleBoot.step sampleLayout (.exception t)).run sampleLayout
      [call 5 0x10000054 0x20080000 0]
    ((m'.kernel.pcbs 18).pParent = some 19 ∧ (m'.kernel.pcbs 18).pSupportStruct = 0x20070000 ∧
      (m'.kernel.pcbs 18).namespaces = bornInto (sampleBoot.kernel.pcbs 19).namespaces none) ∧
    StateT.Kept (results False) ⟨fun i => t.mem (0x20060000 + BitVec.ofNat 32 (4 * i)), false⟩
      (m'.kernel.pcbs 18).pS := by
  intro t m'
  have hboot : Reachable sampleLayout (Lawful sampleLayout) sampleBoot := .boot _ _ _
  obtain ⟨hid, hctx⟩ := @child_as_told sampleLayout (Lawful sampleLayout) sampleBoot m' t 18 False 19
    sampleBoot.kernel.free.tail none hboot (by decide +kernel) (by decide +kernel) (by decide +kernel)
    (by decide +kernel) (by decide +kernel)
  exact ⟨hid (Leads.refl.run (by decide +kernel)), hctx (Leads.refl.run (by decide +kernel))⟩

end Machine

end Pandos
