import Pandos.Children

/-!
# How the kernel is left

Every exception and every round of the scheduler's loop ends, and each way in
which it ends has its reason: the machine halts when no process is left, panics
when nobody can wake the blocked ones, and a system call crashes the kernel only
through a pointer that it should not have been given.
-/

namespace Pandos
open Intrusive Outcome

/-- The reasons to leave the kernel with `N`: `crash` and `invalid` are what it
takes to fault and to refuse a request. -/
def Exit.Fits (crash invalid : Prop) (N : Nucleus) : Exit → Prop
  | .wait => N.ready = [] ∧ 0 < N.gProcessCount ∧ 0 < N.gSoftBlockCount
  | .halt => N.ready = [] ∧ N.gProcessCount = 0
  | .panic => N.ready = [] ∧ 0 < N.gProcessCount ∧ N.gSoftBlockCount = 0 ∨ invalid
  | .hang => N.ready = [] ∧ (N.gProcessCount < 0 ∨ N.gSoftBlockCount < 0)
  | .fault => crash
  | .ldst | .dispatch _ | .ldcxt _ _ _ => True

variable {L : Layout} {N : Nucleus} {crash invalid : Prop} {d : Dev} {p c : Pcb} {a : Word}

theorem Exit.Fits.mono {C I : Prop} {e : Exit} (h : e.Fits crash invalid N) (hc : crash → C)
    (hi : invalid → I) : e.Fits C I N := by
  cases e with
  | fault => exact hc h
  | panic => exact h.imp id hi
  | _ => exact h

/-- What the scheduler finds. -/
theorem fits_schedule : N.schedule.1.Fits crash invalid N.schedule.2 := by
  cases hr : N.ready with
  | cons p l =>
    rw [Nucleus.schedule_cons hr]
    trivial
  | nil =>
    rw [Nucleus.schedule_nil hr]
    unfold Nucleus.idleExit
    split_ifs with h₁ h₂ h₃
    · exact ⟨hr, h₁⟩
    · exact ⟨hr, h₂⟩
    · exact .inl ⟨hr, h₃⟩
    · refine ⟨hr, ?_⟩
      show N.gProcessCount < 0 ∨ N.gSoftBlockCount < 0
      omega

namespace Runs

/-- The code leaves the kernel for a reason, and keeps the current process. -/
def Justified (crash invalid : Prop) {α : Type} (x : K α) (N : Nucleus) : Prop :=
  Runs x N (fun _ M => M.gCurrentProcess = N.gCurrentProcess) fun e M => e.Fits crash invalid M

theorem semOp_justified {free step : Word} (h0 : a = 0 → crash) (hc : N.gCurrentProcess = none → crash) :
    Justified crash invalid (Pandos.semOp L free step a) N := by
  by_cases ha : a = 0
  · subst ha
    exact semOp_null (h0 rfl)
  · refine semOp ha (fun _ _ _ _ => rfl) (fun _ _ => ?_) (fun _ _ _ _ => fits_schedule) fun _ => hc
    exact Globals.store_gCurrentProcess

theorem beginIo_justified (hc : N.gCurrentProcess = none → crash) :
    Justified crash invalid (Pandos.beginIo L d p) N := by
  have hcur : (N.start d p).gCurrentProcess = N.gCurrentProcess := by
    rw [Nucleus.start, Globals.submit_eq]
    rfl
  refine beginIo ((semOp_justified (fun h0 => absurd h0 (L.addr_ne_zero _)) (hcur ▸ hc)).mono ?_ fun _ _ h => h)
  exact fun _ _ hM => hM.trans hcur

/-! ## Interrupts -/

theorem passDevice_justified : Justified True invalid (Pandos.passDevice L d) N :=
  passDevice (fun _ => rfl) fun _ _ _ => beginIo_justified fun _ => trivial

theorem serveDevice_justified : Justified True invalid (Pandos.serveDevice L d a) N := by
  have tail : ∀ M : Nucleus, M.gCurrentProcess = N.gCurrentProcess →
      Runs (sysVerhogen L (L.addr (.semSync d))) M (fun _ P => Runs (Pandos.passDevice L d) P
        (fun _ P => P.gCurrentProcess = N.gCurrentProcess) fun e P => e.Fits True invalid P)
        fun e P => e.Fits True invalid P := by
    intro M hM
    refine (semOp_justified (fun _ => trivial) fun _ => trivial).mono (fun _ P hP => ?_) fun _ _ h => h
    exact passDevice_justified.mono (fun _ _ h => h.trans (hP.trans hM)) fun _ _ h => h
  exact serveDevice (fun _ => tail _ (N.touch_ack a).current) (fun p _ _ => tail _ (N.touch_complete p a).current)
    fun _ _ => trivial

theorem handleDeviceInt_justified (n : Nat) : Justified True invalid (Pandos.handleDeviceInt L n) N :=
  handleDeviceInt (fun _ => rfl) (fun _ => trivial) fun _ _ _ => serveDevice_justified

theorem handleLine_justified (line : Line) : Justified True invalid (handleLine L line) N := by
  cases line with
  | localTimer => exact handleLocalTimer (fun _ _ _ => fits_schedule) fun _ => trivial
  | sysTimer => exact handleSysTimer rfl
  | device n => exact handleDeviceInt_justified n

theorem serveLine_justified : Justified True invalid (Pandos.serveLine L) N :=
  serveLine (fun _ => rfl) fun _ line _ => handleLine_justified line

/-! ## System calls -/

/-- `GETCHILDREN` ends because the process tree has no cycle. -/
theorem sysGetChildren_justified (hc : N.gCurrentProcess = some c) (hN : ∀ n, ¬N.pChild.Below n n)
    (children : Word) (size : Int) : Justified crash invalid (Pandos.sysGetChildren L children size) N := by
  intro s hs
  have hforest : s.pChild.Forest := by
    rw [hs.pChild]
    exact ⟨hs.tree.apart, hN⟩
  have hcur : s.gCurrentProcess = some c := by rw [hs.globals, hc]
  obtain ⟨mem', hrun, -⟩ := sysGetChildren_eq (L := L) hforest hcur children size
  refine (ends_of_ok hrun).mpr ⟨⟨N.toQueues, { N.toGlobals with mem := mem' }⟩, ?_, rfl⟩
  exact ⟨hs.queued, hs.queues, by rw [← hs.globals]; rfl, hs.tree, hs.current⟩

theorem sysDoIo_justified (hc : N.gCurrentProcess = some c) {a v : Word}
    (hi : resolveDeviceAddress a = -1 → invalid) : Justified crash invalid (Pandos.sysDoIo L a v) N := by
  have never : ∀ M : Nucleus, M.gCurrentProcess = some c → M.gCurrentProcess = none → crash := by
    intro M hM hn
    cases hM.symm.trans hn
  refine sysDoIo hc (fun h => .inr (hi h)) fun d _ => ?_
  refine (semOp_justified (N := N.request c a v) (fun h0 => absurd h0 (L.addr_ne_zero _)) (never _ hc)).mono ?_
    fun _ _ h => h
  rintro - M hM
  have hM : M.gCurrentProcess = some c := hM.trans hc
  refine ⟨c, hM, (beginIo_justified (never _ hM)).mono (fun _ P hP => ?_) fun _ _ h => h⟩
  exact (hP.trans hM).trans hc.symm

theorem passUpOrDie_fits {Q : Unit → Nucleus → Prop} (hc : N.gCurrentProcess = some c) (n : Nat) :
    Runs (Pandos.passUpOrDie L n) N Q fun e M => e.Fits crash invalid M := by
  refine passUpOrDie (fun hn => ?_) (fun c' hc' _ => ?_) fun _ _ _ _ _ _ _ => trivial
  · cases hc.symm.trans hn
  · have hp : (some c' : Option Pcb).or N.gCurrentProcess = some c' := rfl
    exact (sysTerminateProcess hp fun _ _ _ _ _ _ _ => fits_schedule).mono (fun _ _ h => h.elim) fun _ _ h => h

/-- A pointer argument that points to nothing. -/
def BadPointer (L : Layout) (code a1 a3 : Word) : Prop :=
  code.toNat = 1 ∧ L.toNsd a3 = none ∨ code.toNat = 2 ∧ L.toPcb a1 = none ∨
    (code.toNat = 3 ∨ code.toNat = 4) ∧ a1 = 0

theorem syscall_justified (hc : N.gCurrentProcess = some c) (hlive : c ∉ N.free) (hN : ∀ n, ¬N.pChild.Below n n)
    {code a1 a2 a3 : Word} (hcrash : BadPointer L code a1 a3 → crash)
    (hi : code.toNat = 5 → resolveDeviceAddress a1 = -1 → invalid) :
    Justified crash invalid (syscall L code a1 a2 a3) N := by
  have never : N.gCurrentProcess = none → crash := fun hn => by cases hc.symm.trans hn
  have returns : ∀ {α β : Type} {x : K α} {f : α → β}, Justified crash invalid x N →
      Justified crash invalid (do return f (← x)) N := fun hx =>
    Runs.bind (hx.mono (fun _ _ h => Runs.pure h) fun _ _ h => h)
  unfold syscall
  split
  · next hn =>
    cases hns : L.toNsd a3 with
    | none => exact Runs.bind (Runs.leave (hcrash (.inl ⟨hn, hns⟩)))
    | some ns => exact Runs.bind (Runs.pure (sysCreateProcess hc hlive (fun _ => rfl) fun _ _ _ => rfl))
  · next hn =>
    cases hpid : L.toPcb a1 with
    | none => exact Runs.bind (Runs.leave (hcrash (.inr (.inl ⟨hn, hpid⟩))))
    | some pid =>
      obtain ⟨p, hp⟩ : ∃ p, pid.or N.gCurrentProcess = some p := by
        cases pid with
        | none => exact ⟨c, hc⟩
        | some p => exact ⟨p, rfl⟩
      refine Runs.bind (Runs.pure (Runs.bind ?_))
      refine (sysTerminateProcess hp fun _ _ _ _ _ _ _ => fits_schedule).mono ?_ fun _ _ h => h
      exact fun _ _ h => h.elim
  · next hn =>
    exact returns (f := fun _ => 0) (semOp_justified (fun h0 => hcrash (.inr (.inr ⟨.inl hn, h0⟩))) never)
  · next hn =>
    exact returns (f := fun _ => 0) (semOp_justified (fun h0 => hcrash (.inr (.inr ⟨.inr hn, h0⟩))) never)
  · next hn => exact sysDoIo_justified hc (hi hn)
  · exact sysGetTime hc rfl
  · refine returns (f := fun _ => 0) (sysClockWait ?_)
    exact semOp_justified (fun h0 => absurd h0 (L.addr_ne_zero _)) never
  · exact sysGetSupportPtr hc rfl
  · exact sysGetProcessID hc fun _ => rfl
  · exact returns (sysGetChildren_justified hc hN _ _)
  · exact returns (f := fun _ => 0) (passUpOrDie_fits hc _)

end Runs

/-! ## Exceptions -/

/-- A request to no device. -/
def Trap.Refused (t : Trap) : Prop := t.Calls 5 ∧ resolveDeviceAddress (t.old 8) = -1

namespace Machine
variable {ok : Machine → Event → Prop} {m : Machine} {t : Trap} {e : Event}

/-- The system call lacks what its arguments should point to: the state and the
namespace of a new process, a live process, a semaphore, the values of a command
or the array of children. -/
def BadPointer (L : Layout) (m : Machine) : Event → Prop
  | .exception t =>
    t.Calls 1 ∧ (t.old 8 = 0 ∨ L.toNsd (t.old 10) = none) ∨
    t.Calls 2 ∧ t.old 8 ≠ 0 ∧ (∀ p, t.old 8 = L.pcb p → p ∈ m.kernel.free) ∨
    (t.Calls 3 ∨ t.Calls 4) ∧ t.old 8 = 0 ∨
    t.Calls 5 ∧ t.old 9 = 0 ∨
    t.Calls 10 ∧ t.old 8 = 0
  | .wake => False

theorem badPointer_of_runs (h8 : excCode (t.old 1) = 8)
    (h : Runs.BadPointer L (t.old 7) (t.old 8) (t.old 10)) : m.BadPointer L (.exception t) := by
  rcases h with ⟨h1, hns⟩ | ⟨h2, hp⟩ | ⟨h34, h0⟩
  · exact .inl ⟨⟨h8, h1⟩, .inr hns⟩
  · refine .inr (.inl ⟨⟨h8, h2⟩, fun h0 => ?_, fun p hpcb => ?_⟩)
    · rw [h0] at hp
      cases hp
    · rw [hpcb, L.toPcb_pcb] at hp
      cases hp
  · exact .inr (.inr (.inl ⟨h34.imp (⟨h8, ·⟩) (⟨h8, ·⟩), h0⟩))

theorem interrupt_fits (hS : m.Sound N) (h0 : excCode (t.old 1) = 0) :
    Ends (exceptionHandler L) (m.trapped t) (fun _ _ => False) fun e s' =>
      ∃ M, s'.Refines M ∧ e.Fits True invalid M := by
  have hs := trapped_refines hS.refines t
  obtain ⟨hok, href⟩ := updateProcessTime_ok hs
  have hcode : excCode (m.trapped t).gOldState.cause = 0 := h0
  rw [ends_congr (exceptionHandler_interrupt hcode), ends_bind, ends_of_ok hok]
  refine interruptHandler_ends (I := fun u => ∃ M, u.Refines M) ⟨_, href⟩ ?_ ?_ ?_
  · exact Nat.lt_succ_of_le (pending_le _)
  · rintro u - ⟨M, hM⟩
    have hmoves := serveLine_moves (L := L) hM (anyScope_allows u)
    have hfits : Runs.Justified True invalid (serveLine L) M := Runs.serveLine_justified
    refine ((hmoves.and hfits) u hM).mono ?_ ?_
    · rintro - v ⟨P, hP, ⟨-, hcause⟩, -⟩
      exact ⟨⟨P, hP⟩, by rw [hP.globals, hcause, hM.globals]⟩
    · rintro e v ⟨P, hP, -, hfit⟩
      exact ⟨P, hP, hfit⟩
  · rintro u ⟨M, hM⟩
    refine ⟨⟨M.toQueues, { M.toGlobals with gTod := M.stck M.stckReads, stckReads := M.stckReads + 1 }⟩, ?_, trivial⟩
    exact ⟨hM.queued, hM.queues, by rw [hM.globals], hM.tree, hM.current⟩

theorem syscall_fits (hS : m.Sound N) (hN : ∀ n, ¬N.pChild.Below n n) (he : m.Enabled (.exception t))
    (h8 : excCode (t.old 1) = 8) : Ends (exceptionHandler L) (m.trapped t) (fun _ _ => False) fun e s' =>
      ∃ M, s'.Refines M ∧ e.Fits (m.BadPointer L (.exception t)) t.Refused M := by
  have hs := trapped_refines hS.refines t
  obtain ⟨c, hrun⟩ : ∃ c, m.mode = .running c := he.1.resolve_right fun h => by
    have h0 := h.2
    omega
  obtain ⟨hc, hlive⟩ := hS.running c hrun
  have hcode : excCode (m.trapped t).gOldState.cause = 8 := h8
  rw [ends_congr (exceptionHandler_syscall hcode)]
  let M := (N.trapped t (decide (m.mode = .waiting))).skip
  have hcall : Runs.Justified (m.BadPointer L (.exception t)) t.Refused
      (syscall L (t.old 7) (t.old 8) (t.old 9) (t.old 10)) M :=
    Runs.syscall_justified (N := M) hc hlive hN (badPointer_of_runs h8) fun h5 hd => ⟨⟨h8, h5⟩, hd⟩
  have hhandler : Runs (syscallHandler L) M (fun _ _ => False)
      fun e M => e.Fits (m.BadPointer L (.exception t)) t.Refused M :=
    Runs.syscallHandler (hcall.mono (fun _ _ _ => trivial) fun _ _ h => h)
  exact hhandler.leaves (skip_refines hs)

theorem trap_fits (hS : m.Sound N) (he : m.Enabled (.exception t)) (h0 : excCode (t.old 1) ≠ 0)
    (h8 : excCode (t.old 1) ≠ 8) : Ends (exceptionHandler L) (m.trapped t) (fun _ _ => False) fun e s' =>
      ∃ M, s'.Refines M ∧ e.Fits crash invalid M := by
  have hs := trapped_refines hS.refines t
  obtain ⟨c, hrun⟩ : ∃ c, m.mode = .running c := he.1.resolve_right fun h => absurd h.2 h0
  have hc : (N.trapped t (decide (m.mode = .waiting))).gCurrentProcess = some c := (hS.running c hrun).1
  rw [ends_congr (exceptionHandler_trap (s := m.trapped t) h0 h8)]
  exact (Runs.passUpOrDie_fits hc _).leaves hs

/-- The event is an interrupt or has a bad pointer. -/
def MayCrash (L : Layout) (m : Machine) : Event → Prop
  | .exception t => excCode (t.old 1) = 0 ∨ m.BadPointer L (.exception t)
  | .wake => False

/-- The event is a request to no device. -/
def Refuses : Event → Prop
  | .exception t => t.Refused
  | .wake => False

theorem step_fits (h : Reachable L ok m) (he : m.Enabled e) : ∃ x s' M,
    m.step L e = ⟨s', resume m.mode s'.pcbs x⟩ ∧ s'.Refines M ∧ x.Fits (m.MayCrash L e) (Refuses e) M := by
  obtain ⟨N, hS, hN⟩ := h.acyclic
  have left : ∀ {t : Trap} {C I : Prop}, Ends (exceptionHandler L) (m.trapped t) (fun _ _ => False)
      (fun x s' => ∃ M, s'.Refines M ∧ x.Fits C I M) → ∃ x s' M,
      m.step L (.exception t) = ⟨s', resume m.mode s'.pcbs x⟩ ∧ s'.Refines M ∧ x.Fits C I M := by
    intro t C I hends
    obtain ⟨x, s', ⟨M, hM, hfit⟩, hstep⟩ := enter_ends (k := m.mode) hends
    exact ⟨x, s', M, hstep, hM, hfit⟩
  cases e with
  | wake =>
    obtain ⟨s', hstep, hs', -⟩ := step_wake (L := L) hS.refines
    exact ⟨_, s', _, hstep, hs', fits_schedule⟩
  | exception t =>
    by_cases h0 : excCode (t.old 1) = 0
    · exact left ((interrupt_fits hS h0).mono (fun _ _ h => h) fun x _ ⟨M, hM, hfit⟩ =>
        ⟨M, hM, hfit.mono (fun _ => .inl h0) id⟩)
    · by_cases h8 : excCode (t.old 1) = 8
      · exact left ((syscall_fits hS hN he h8).mono (fun _ _ h => h) fun x _ ⟨M, hM, hfit⟩ =>
          ⟨M, hM, hfit.mono .inr id⟩)
      · exact left (trap_fits hS he h0 h8)

/-- A machine that was executing or waiting stops for one exit only. -/
theorem resume_stops {k : Mode} (hk : (∃ p, k = .running p) ∨ k = .waiting) (pcbs : Pcb → PcbT) (x : Exit) :
    (resume k pcbs x = .halted → x = .halt) ∧ (resume k pcbs x = .panicked → x = .panic) ∧
      (resume k pcbs x = .hung → x = .hang) ∧ (resume k pcbs x = .stuck → x = .fault) := by
  have hdispatch : ∀ p : Pcb, ∀ l : Mode, l ≠ .waiting → l ≠ .running p →
      (if (pcbs p).pS.inWait then Mode.waiting else .running p) ≠ l := by
    intro p l hw hr
    split
    · exact hw.symm
    · exact hr.symm
  rcases hk with ⟨p, rfl⟩ | rfl <;> cases x <;> simp [resume, hdispatch]

/-- Where the machine stops it has left the kernel for a reason. -/
theorem stop_fits (h : Reachable L ok m) (he : m.Enabled e) : ∃ M, (m.step L e).kernel.Refines M ∧
    ((m.step L e).mode = .halted → Exit.halt.Fits (m.MayCrash L e) (Refuses e) M) ∧
    ((m.step L e).mode = .panicked → Exit.panic.Fits (m.MayCrash L e) (Refuses e) M) ∧
    ((m.step L e).mode = .hung → Exit.hang.Fits (m.MayCrash L e) (Refuses e) M) ∧
    ((m.step L e).mode = .stuck → m.MayCrash L e) := by
  obtain ⟨x, s', M, hstep, hM, hfit⟩ := step_fits h he (L := L)
  have hmode : (∃ p, m.mode = .running p) ∨ m.mode = .waiting := by
    cases e with
    | wake => exact .inr he
    | exception t => exact he.1.imp id And.left
  obtain ⟨hhalt, hpanic, hhang, hfault⟩ := resume_stops hmode s'.pcbs x
  rw [hstep]
  refine ⟨M, hM, fun hm => ?_, fun hm => ?_, fun hm => ?_, fun hm => ?_⟩
  · exact hhalt hm ▸ hfit
  · exact hpanic hm ▸ hfit
  · exact hhang hm ▸ hfit
  · obtain rfl := hfault hm
    exact hfit

/-- Why the machine is where it is after `e`. -/
structure Explained (L : Layout) (m : Machine) (e : Event) : Prop where
  halted : (m.step L e).mode = .halted →
    (m.step L e).kernel.ready = [] ∧ (m.step L e).kernel.gProcessCount = 0
  panicked : (m.step L e).mode = .panicked → (m.step L e).kernel.ready = [] ∧
    0 < (m.step L e).kernel.gProcessCount ∧ (m.step L e).kernel.gSoftBlockCount = 0 ∨ Refuses e
  hung : (m.step L e).mode = .hung → (m.step L e).kernel.ready = [] ∧
    ((m.step L e).kernel.gProcessCount < 0 ∨ (m.step L e).kernel.gSoftBlockCount < 0)
  stuck : (m.step L e).mode = .stuck → m.MayCrash L e

theorem explained (h : Reachable L ok m) (he : m.Enabled e) : m.Explained L e := by
  obtain ⟨M, hM, hhalt, hpanic, hhang, hfault⟩ := stop_fits h he (L := L)
  constructor
  · intro hm
    obtain ⟨hready, hcount⟩ := hhalt hm
    exact ⟨hM.ready.trans hready, hM.globals ▸ hcount⟩
  · intro hm
    refine (hpanic hm).imp (fun h => ⟨hM.ready.trans h.1, ?_⟩) id
    rw [hM.globals]
    exact h.2
  · intro hm
    obtain ⟨hready, hcounts⟩ := hhang hm
    refine ⟨hM.ready.trans hready, ?_⟩
    rw [hM.globals]
    exact hcounts
  · exact hfault

/-- Every event that can happen ends, and the machine halts, panics, loops in
the scheduler or crashes for the reasons given only. The events before it have
had good pointers, for after some bad ones (a buffer at `NULL`, a pcb that was
never allocated) the code crashes and the model goes on. -/
theorem every_exit_explained (h : Reachable L (fun m e => m.Lawful L e ∧ ¬m.BadPointer L e) m)
    (he : m.Enabled e) : m.Explained L e :=
  explained h he

instance (m : Machine) : (e : Event) → Decidable (m.BadPointer L e)
  | .exception _ => inferInstanceAs (Decidable (_ ∨ _))
  | .wake => inferInstanceAs (Decidable False)

/-- The parent of a process terminates it while it waits for a semaphore. -/
theorem every_exit_explained_last :
    let m := sampleBoot.run sampleLayout [call 1 0x20060000 0 0, preempt, call 3 0x20070000 0 0]
    m.Explained sampleLayout (call 2 (sampleLayout.pcb 18) 0 0 m) := by
  intro m
  have hm : Reachable sampleLayout (fun m e => m.Lawful sampleLayout e ∧ ¬m.BadPointer sampleLayout e) m :=
    .run (.boot _ _ _) (by decide +kernel)
  exact every_exit_explained hm (by decide +kernel)

end Machine

end Pandos
