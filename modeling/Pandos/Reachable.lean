import Pandos.Machine
import Pandos.Phase2.Boot
import Pandos.Phase2.Moves

/-!
# Every run

The machine after `main()`, what one event does to the nucleus, and what holds
in every run: the kernel has a nucleus, and a process that executes is the
current one and is not free.
-/

namespace Pandos
open Intrusive Outcome

namespace Nucleus

/-- The nucleus in which `exceptionHandler` starts. -/
def trapped (N : Nucleus) (t : Trap) (waiting : Bool) : Nucleus :=
  ⟨N.toQueues, { N.toGlobals with
    gOldState := ⟨t.old, waiting⟩, mem := t.mem, bus := t.bus, hw := t.hw }⟩

end Nucleus

namespace Machine
variable {L : Layout} {m : Machine} {N : Nucleus} {t : Trap}

theorem left_of_ends {code : K Unit} {s : Kernel} {E : Exit → Kernel → Prop}
    (h : Ends code s (fun _ _ => False) E) : ∃ e s', E e s' ∧ code s = .error e s' := by
  cases hr : code s with
  | ok _ s' => exact ((ends_of_ok hr).mp h).elim
  | error e s' => exact ⟨e, s', (ends_of_error hr).mp h, rfl⟩

theorem enter_left {k : Mode} {code : K Unit} {s s' : Kernel} {e : Exit} (h : code s = .error e s') :
    enter k code s = ⟨s', resume k s'.pcbs e⟩ := by
  simp only [enter, h]

theorem enter_ends {k : Mode} {code : K Unit} {s : Kernel} {E : Exit → Kernel → Prop}
    (h : Ends code s (fun _ _ => False) E) :
    ∃ e s', E e s' ∧ enter k code s = ⟨s', resume k s'.pcbs e⟩ := by
  obtain ⟨e, s', he, hc⟩ := left_of_ends h
  exact ⟨e, s', he, enter_left hc⟩

theorem trapped_refines (hm : m.kernel.Refines N) (t : Trap) :
    (m.trapped t).Refines (N.trapped t (decide (m.mode = .waiting))) := by
  refine ⟨hm.queued, hm.queues, ?_, hm.tree, hm.current⟩
  simp only [trapped, Nucleus.trapped, hm.globals]

/-- How an exception leaves the kernel, when it stays within the scope `B`. -/
theorem exception_left {B : Scope} (hm : m.kernel.Refines N) (hB : B.Covers L (m.trapped t)) :
    ∃ e s' M, exceptionHandler L (m.trapped t) = .error e s' ∧ s'.Refines M ∧
      Ending L B (N.trapped t (decide (m.mode = .waiting))) e M := by
  obtain ⟨e, s', ⟨M, hM, he⟩, hleft⟩ :=
    left_of_ends (exceptionHandler_moves (trapped_refines hm t) hB)
  exact ⟨e, s', M, hleft, hM, he⟩

/-- What one event leads to, when its exception stays within the scope `B`. -/
theorem step_exception {B : Scope} (hm : m.kernel.Refines N) (hB : B.Covers L (m.trapped t)) :
    ∃ e s' M, m.step L (.exception t) = ⟨s', resume m.mode s'.pcbs e⟩ ∧ s'.Refines M ∧
      Ending L B (N.trapped t (decide (m.mode = .waiting))) e M := by
  obtain ⟨e, s', M, hleft, hM, he⟩ := exception_left hm hB
  exact ⟨e, s', M, enter_left hleft, hM, he⟩

/-- How an interrupt leaves the kernel, from the state in which the current
process has been charged. -/
theorem interrupt_left {B : Scope} (hm : m.kernel.Refines N) (h0 : excCode (t.old 1) = 0)
    (hi : B.interrupt) (ha : ∀ u, Pass L (m.trapped t).charged u → B.Allows L u) :
    ∃ e s' M, m.step L (.exception t) = ⟨s', resume m.mode s'.pcbs e⟩ ∧ s'.Refines M ∧
      Ending L B (N.trapped t (decide (m.mode = .waiting))).charge e M := by
  obtain ⟨e, s', ⟨M, hM, he⟩, hstep⟩ :=
    enter_ends (k := m.mode) (interrupt_moves (trapped_refines hm t) h0 hi ha)
  exact ⟨e, s', M, hstep, hM, he⟩

/-- A system call does what its function does. -/
theorem step_syscall {E : Exit → Nucleus → Prop} (hm : m.kernel.Refines N)
    (h8 : excCode (t.old 1) = 8)
    (h : Runs (syscall L (t.old 7) (t.old 8) (t.old 9) (t.old 10))
      (N.trapped t (decide (m.mode = .waiting))).skip
      (fun v M => E .ldst ⟨M.toQueues,
        { M.toGlobals with gOldState := M.gOldState.setRegV0 v }⟩) E) :
    ∃ e s' M, m.step L (.exception t) = ⟨s', resume m.mode s'.pcbs e⟩ ∧ s'.Refines M ∧ E e M := by
  have hs := trapped_refines hm t
  have hcode : excCode (m.trapped t).gOldState.cause = 8 := h8
  have hrun : Ends (exceptionHandler L) (m.trapped t) (fun _ _ => False)
      fun e s' => ∃ M, s'.Refines M ∧ E e M := by
    rw [ends_congr (exceptionHandler_syscall hcode)]
    exact (Runs.syscallHandler h).leaves (skip_refines hs)
  obtain ⟨e, s', ⟨M, hM, he⟩, hstep⟩ := enter_ends (k := m.mode) hrun
  exact ⟨e, s', M, hstep, hM, he⟩

/-- The kernel in which the system call of `t` is served. -/
def served (m : Machine) (t : Trap) : Kernel :=
  { m.trapped t with
    gOldState := (m.trapped t).gOldState.setPcEpc ((m.trapped t).gOldState.pcEpc + 4) }

theorem served_refines (hm : m.kernel.Refines N) (t : Trap) :
    (m.served t).Refines (N.trapped t (decide (m.mode = .waiting))).skip :=
  skip_refines (trapped_refines hm t)

/-- A system call is served by `syscall`, on the arguments in the registers. -/
theorem handler_syscall (h8 : excCode (t.old 1) = 8) : exceptionHandler L (m.trapped t) =
    (do
      let v ← syscall L (t.old 7) (t.old 8) (t.old 9) (t.old 10)
      K.globals fun s => { s with gOldState := s.gOldState.setRegV0 v }
      K.leave .ldst) (m.served t) :=
  exceptionHandler_syscall h8

/-- A system call that returns hands its result to the caller. -/
theorem step_served {v : Word} {s' : Kernel} (h8 : excCode (t.old 1) = 8)
    (h : syscall L (t.old 7) (t.old 8) (t.old 9) (t.old 10) (m.served t) = .ok v s') :
    m.step L (.exception t) = ⟨{ s' with gOldState := s'.gOldState.setRegV0 v }, m.mode⟩ := by
  have hleft : exceptionHandler L (m.trapped t) =
      .error .ldst { s' with gOldState := s'.gOldState.setRegV0 v } :=
    (handler_syscall h8).trans ((bind_of_ok h).trans rfl)
  exact enter_left hleft

/-- One that leaves the kernel does not come back to the caller. -/
theorem step_unserved {e : Exit} {s' : Kernel} (h8 : excCode (t.old 1) = 8)
    (h : syscall L (t.old 7) (t.old 8) (t.old 9) (t.old 10) (m.served t) = .error e s') :
    m.step L (.exception t) = ⟨s', resume m.mode s'.pcbs e⟩ := by
  have hleft : exceptionHandler L (m.trapped t) = .error e s' :=
    (handler_syscall h8).trans (bind_of_error h)
  exact enter_left hleft

theorem scheduler_left (hm : m.kernel.Refines N) : ∃ s',
    scheduler m.kernel = .error N.schedule.1 s' ∧ s'.Refines N.schedule.2 := by
  have h := Runs.scheduler (N := N) (Q := fun _ _ => False)
    (E := fun e M => e = N.schedule.1 ∧ M = N.schedule.2) fun _ => ⟨rfl, rfl⟩
  obtain ⟨e, s', ⟨M, hM, rfl, rfl⟩, hleft⟩ := left_of_ends (h.leaves hm)
  exact ⟨s', hleft, hM⟩

theorem step_wake (hm : m.kernel.Refines N) : ∃ s',
    m.step L .wake = ⟨s', resume m.mode s'.pcbs N.schedule.1⟩ ∧ s'.Refines N.schedule.2 ∧ N.Placed := by
  obtain ⟨s', hleft, hs'⟩ := scheduler_left hm
  exact ⟨s', enter_left hleft, hs', hm.placed⟩

/-- The machine after `main()`. -/
theorem boot_spec (L : Layout) (mem bus : Word → Word) (stck : Nat → Word) :
    ∃ p M, (boot L mem bus stck).kernel.Refines M ∧ (boot L mem bus stck).mode = .running p ∧
      Booted mem p M := by
  let g := (initGlobalVariable (.zero mem bus stck)).toGlobals
  have hfree : (Nucleus.initial g).free = (19 : Pcb) :: (List.finRange maxProc).reverse.tail := rfl
  have h := launchInit_runs (L := L) (N := .initial g)
    (E := fun e M => e = .dispatch 19 ∧ Booted mem 19 M) hfree rfl rfl ?_
  · obtain ⟨e, s', ⟨M, hM, rfl, hb⟩, hstep⟩ :=
      enter_ends (k := .halted) (h.leaves (initial_refines mem bus stck))
    have hboot : boot L mem bus stck = ⟨s', resume .halted s'.pcbs (.dispatch 19)⟩ := hstep
    refine ⟨19, M, hboot ▸ hM, ?_, hb⟩
    rw [hboot]
    simp [resume, hM.pcbs, hb.saved]
  · intro M hq hc hpcbs hp ht hg
    refine ⟨rfl, ?_⟩
    refine ⟨?_, ?_, ?_, ?_, ?_, ?_, ?_, ?_, ?_, ?_, ?_, ?_, ?_, ?_⟩
    · rw [hg]
    · rw [Queues.free, hq]
      rfl
    · intro k hk
      rw [hq]
      simp [Nucleus.initial, Lists.unlink, hk]
    · rw [hc]
      exact Function.update_eq_self 19 fun _ => []
    · intro q
      by_cases hq : q = 19
      · exact hq ▸ hp
      · rw [hpcbs q hq]
        rfl
    · intro q
      by_cases hq : q = 19
      · exact hq ▸ ht
      · rw [hpcbs q hq]
        rfl
    all_goals rw [hg]; rfl

/-! ## What holds in every run -/

/-- The kernel has the nucleus `N`, and a process that executes is the current
one and is not free. -/
structure Sound (m : Machine) (N : Nucleus) : Prop where
  refines : m.kernel.Refines N
  running : ∀ p, m.mode = .running p → N.gCurrentProcess = some p ∧ p ∉ N.free

theorem Sound.current {p : Pcb} (h : m.Sound N) (hp : m.mode = .running p) :
    m.kernel.gCurrentProcess = some p := by
  rw [h.refines.globals]
  exact (h.running p hp).1

theorem Sound.alive {p : Pcb} (h : m.Sound N) (hp : m.mode = .running p) : p ∉ m.kernel.free := by
  rw [h.refines.free]
  exact (h.running p hp).2

theorem Sound.live_current {p c : Pcb} (h : m.Sound N) (hp : m.mode = .running p)
    (hc : N.gCurrentProcess = some c) : c ∉ N.free := by
  obtain ⟨hp, hlive⟩ := h.running p hp
  obtain rfl : p = c := Option.some.inj (hp.symm.trans hc)
  exact hlive

theorem Terminates.running {p : Pcb} (h : m.Terminates L t p) (he : m.Enabled (.exception t)) :
    ∃ c, m.mode = .running c := by
  refine he.1.resolve_right fun hw => ?_
  rcases h with ⟨⟨h8, -⟩, -⟩ | ⟨⟨h0, -⟩, -⟩ <;> omega

/-- Who is terminated is the current process or one that it names. -/
theorem Terminates.target {p c : Pcb} (h : m.Terminates L t p) (hc : m.kernel.gCurrentProcess = some c) :
    p = c ∨ t.Calls 2 ∧ t.old 8 = L.pcb p := by
  rcases h with ⟨h2, pid, hpid, hp⟩ | ⟨-, hp, -⟩
  · cases pid with
    | none => exact .inl (Option.some.inj (hp.symm.trans hc))
    | some q =>
      obtain rfl : q = p := Option.some.inj hp
      exact .inr ⟨h2, L.toPcb_some hpid⟩
  · exact .inl (Option.some.inj (hp.symm.trans hc))

/-- Who is terminated in a lawful event is alive. -/
theorem Lawful.target_alive {p : Pcb} (hS : m.Sound N) (he : m.Enabled (.exception t))
    (hok : m.Lawful L (.exception t)) (hp : m.Terminates L t p) : p ∉ m.kernel.free := by
  obtain ⟨c, hc⟩ := hp.running he
  rcases hp.target (hS.current hc) with rfl | ⟨h2, hpcb⟩
  · exact hS.alive hc
  · rcases hok.2 h2 with h0 | ⟨q, hq, hlive⟩
    · exact absurd (hpcb.symm.trans h0) (L.pcb_ne p)
    · obtain rfl := L.pcb_inj (hq.symm.trans hpcb)
      exact hlive

/-- What an exception taken in a sound machine needs to be allowed. -/
theorem Sound.covers {B : Scope} (h : m.Sound N) (he : m.Enabled (.exception t))
    (int : excCode (t.old 1) = 0 → B.interrupt ∧ ∀ u, Pass L (m.trapped t).charged u → B.Allows L u)
    (block : excCode (t.old 1) = 8 → B.block)
    (user : t.Calls 3 ∨ t.Calls 4 → t.old 8 ≠ 0 → B.sem (t.old 8) ∧ B.Writes L (t.old 8))
    (clock : t.Calls 7 → B.clock ∧ B.sem (L.addr .clock))
    (device : t.Calls 5 → ∀ d : Dev, resolveDeviceAddress (t.old 8) = d.val →
      B.device d ∧ B.sem (L.addr (.semMut d)) ∧ B.sem (L.addr (.semSync d)))
    (create : t.Calls 1 → ∀ p l, N.free = p :: l → B.create p)
    (target : ∀ p, m.Terminates L t p → ∀ M,
      (N.trapped t (decide (m.mode = .waiting))).Quiet M → B.target M p) :
    B.Covers L (m.trapped t) where
  int := int
  sys h8 M hM := by
    obtain rfl := hM.unique (trapped_refines h.refines t)
    have hcur : m.kernel.gCurrentProcess = N.gCurrentProcess := by rw [h.refines.globals]
    have h8' : excCode (t.old 1) = 8 := h8
    refine ⟨block h8, ?_, fun h => clock ⟨h8, h⟩, fun h => device ⟨h8, h⟩,
      fun h => create ⟨h8, h⟩, ?_, ?_⟩
    · rintro (h | h)
      · exact user (.inl ⟨h8, h⟩)
      · exact user (.inr ⟨h8, h⟩)
    · intro h2 pid p hpid hp
      exact target p (.inl ⟨⟨h8, h2⟩, pid, hpid, hcur ▸ hp⟩) _ (Nucleus.quiet_skip _)
    · intro hn p hp h0
      have h0' : excCode (t.old 1) ≠ 0 := fun h => by rw [h] at h8'; cases h8'
      refine target p (.inr ⟨⟨h0', fun _ => hn⟩, hcur ▸ hp, ?_⟩) _ (Nucleus.quiet_skip _)
      rw [h.refines.pcbs]
      exact h0
  die h0 h8 M hM p hp hs := by
    obtain rfl := hM.unique (trapped_refines h.refines t)
    have hcur : m.kernel.gCurrentProcess = N.gCurrentProcess := by rw [h.refines.globals]
    refine target p (.inr ⟨⟨h0, fun h => absurd h h8⟩, hcur ▸ hp, ?_⟩) _ (.refl _)
    rw [h.refines.pcbs]
    exact hs
  current h0 := by
    obtain ⟨⟨p, hp⟩ | ⟨-, h0'⟩, -⟩ := he
    · obtain ⟨hc, hf⟩ := h.running p hp
      rw [← h.refines.free] at hf
      exact ⟨p, (congrArg (·.gCurrentProcess) h.refines.globals).trans hc, hf⟩
    · exact absurd h0' h0

theorem Sound.covers_any (h : m.Sound N) (he : m.Enabled (.exception t)) :
    anyScope.Covers L (m.trapped t) := by
  exact h.covers he (fun _ => ⟨trivial, fun u _ => anyScope_allows u⟩) (fun _ => trivial)
    (fun _ _ => ⟨trivial, anyScope_writes _⟩) (fun _ => ⟨trivial, trivial⟩)
    (fun _ _ _ => ⟨trivial, trivial, trivial⟩) (fun _ _ _ _ => trivial) fun _ _ _ _ => trivial

end Machine

theorem Move.free {L : Layout} {B : Scope} {N M : Nucleus} {p : Pcb} (h : Move L B N M)
    (hp : p ∈ M.free) : p ∈ N.free := by
  cases h.shift with
  | still h => exact h.free ▸ hp
  | wake => simpa using ((N.mem_wakeUp _ _).mp hp).resolve_right (by simp) |>.1
  | take => exact (Lists.mem_unlink.mp hp).1
  | create => exact (Nucleus.mem_create.mp hp).resolve_right (by simp) |>.1

/-- A free process stays free unless it is made a new one. -/
theorem Move.stays_free {L : Layout} {B : Scope} {N M : Nucleus} {z : Pcb} (h : Move L B N M)
    (hz : z ∈ N.free) : z ∈ M.free ∨
      B.create z ∧ ∃ c, N.gCurrentProcess = some c ∧ c ∉ N.free := by
  have other : ∀ {a p l}, N.Placed → N.waiters a = p :: l → z ≠ p := by
    rintro a p l hN hw rfl
    have hp : z ∈ N.waiters a := by simp [hw]
    cases hN.apart.unique hz hp
  cases h.shift with
  | still h => exact .inl (h.free ▸ hz)
  | wake hN _ hw => exact .inl ((N.mem_wakeUp _ _).mpr (.inl ⟨hz, other hN.placed hw⟩))
  | take hN _ hw => exact .inl (Lists.mem_unlink.mpr ⟨hz, other hN.placed hw⟩)
  | @create c p l r hN hcr hc hlive hf =>
    by_cases hzp : z = p
    · exact .inr ⟨hzp ▸ hcr, c, hc, hlive⟩
    · exact .inl (Nucleus.mem_create.mpr (.inl ⟨hz, hzp⟩))

theorem Moves.free {L : Layout} {B : Scope} {N M : Nucleus} {p : Pcb} (h : Moves L B N M)
    (hp : p ∈ M.free) : p ∈ N.free := by
  induction h with
  | refl => exact hp
  | tail _ h ih => exact ih (h.free hp)

namespace Nucleus

theorem schedule_running {N : Nucleus} {q : Pcb} (hN : N.Placed)
    (h : N.schedule.1 = .dispatch q) :
    N.schedule.2.gCurrentProcess = some q ∧ q ∉ N.schedule.2.free := by
  obtain ⟨⟨l, hr⟩, hs⟩ := schedule_dispatch h
  rw [hs]
  refine ⟨rfl, fun hm => ?_⟩
  have hq : q ∈ N.ready := by simp [hr]
  exact Place.noConfusion (hN.apart.unique hq (Lists.mem_unlink.mp hm).1)

/-- No context saved is that of the `WAIT` loop. -/
def Saved (N : Nucleus) : Prop := ∀ p, (N.pcbs p).pS.inWait = false

theorem saved_schedule {N : Nucleus} : N.schedule.2.Saved ↔ N.Saved := by
  rw [Saved, pcbs_schedule]
  rfl

/-- The scheduler ends in `WAIT` only when it finds nobody ready. -/
theorem schedule_waiting {N : Nucleus} {mode : Mode} (hs : N.Saved)
    (hw : Machine.resume mode N.pcbs N.schedule.1 = .waiting) :
    N.ready = [] ∧ N.idleExit = .wait := by
  cases hr : N.ready with
  | nil =>
    refine ⟨rfl, ?_⟩
    rw [schedule_nil hr, idleExit] at hw
    rw [idleExit]
    split_ifs at hw ⊢ <;> first | rfl | cases hw
  | cons p l =>
    rw [schedule_cons hr] at hw
    simp [Machine.resume, hs p] at hw

theorem schedule_not_returns (N : Nucleus) : ¬N.schedule.1.Returns := by
  cases hr : N.ready with
  | nil =>
    rw [schedule_nil hr, idleExit]
    split_ifs <;> exact id
  | cons p l =>
    rw [schedule_cons hr]
    exact id

end Nucleus

theorem Leave.returns {L : Layout} {B : Scope} {N M : Nucleus} {e : Exit} (h : Leave L B N e M)
    (he : e.Returns) : M = N := by
  cases h with
  | stay => rfl
  | block | preempt | kill => exact absurd he (Nucleus.schedule_not_returns _)

section
variable {L : Layout} {B : Scope} {N M : Nucleus}

theorem Move.saved (h : Move L B N M) (hN : N.Saved) : M.Saved := by
  intro q
  cases h.shift with
  | still h => exact (h.saved q).trans (hN q)
  | wake =>
    rw [Nucleus.pcbs_wakeUp]
    split <;> exact hN q
  | @take d p =>
    by_cases hq : q = p
    · simpa [Queues.wake, Queues.unlink, Queues.modPcb, hq] using hN p
    · simpa [Queues.wake, Queues.unlink, Queues.modPcb, hq] using hN q
  | create _ _ _ _ _ hr =>
    rw [Nucleus.pcbs_create]
    split
    · exact hr
    · exact hN q

theorem Move.old (h : Move L B N M) : M.gOldState.inWait = N.gOldState.inWait := by
  cases h.shift with
  | still h => exact h.old
  | wake | take | create => rfl

theorem Moves.old (h : Moves L B N M) : M.gOldState.inWait = N.gOldState.inWait := by
  induction h with
  | refl => rfl
  | tail _ h ih => exact h.old.trans ih

/-- A context of the `WAIT` loop is saved only for a current process there. -/
theorem Ending.saved {e : Exit} (h : Ending L B N e M) (hN : N.Saved)
    (ho : B.block ∨ B.preempt → ∀ c, N.gCurrentProcess = some c → N.gOldState.inWait = false) :
    M.Saved := by
  obtain ⟨N', hmv, hl⟩ := h
  have hN' : N'.Saved := by
    clear hl
    induction hmv with
    | refl => exact hN
    | tail _ h ih => exact h.saved ih
  intro q
  cases hl with
  | stay => exact hN' q
  | block _ _ hb hc =>
    rw [Nucleus.pcbs_schedule, Nucleus.pS_suspend]
    split
    · exact hmv.old.trans (ho (.inl hb) _ (hmv.current ▸ hc))
    · exact hN' q
  | preempt _ hb hc =>
    rw [Nucleus.pcbs_schedule, Nucleus.pcbs_preempt]
    split
    · exact hmv.old.trans (ho (.inr hb) _ (hmv.current ▸ hc))
    · exact hN' q
  | kill _ _ hr =>
    rw [Nucleus.pcbs_schedule, hr.pcbs]
    split <;> exact hN' q

end

namespace Machine
variable {L : Layout} {m : Machine} {N : Nucleus}

theorem resume_running {mode : Mode} {pcbs : Pcb → PcbT} {e : Exit} {q : Pcb}
    (h : resume mode pcbs e = .running q) : e = .dispatch q ∨ e.Returns ∧ mode = .running q := by
  cases e with
  | dispatch p =>
    simp only [resume] at h
    split at h
    · cases h
    · exact .inl (by rw [Mode.running.inj h])
  | ldst | ldcxt => exact .inr ⟨trivial, h⟩
  | _ => cases h

theorem Sound.schedule {mode : Mode} {s : Kernel} {M : Nucleus} (hM : M.Placed)
    (hs : s.Refines M.schedule.2) (hw : ∀ p, mode ≠ .running p) :
    Sound ⟨s, resume mode s.pcbs M.schedule.1⟩ M.schedule.2 := by
  refine ⟨hs, fun q hq => ?_⟩
  rcases resume_running hq with he | ⟨-, hm⟩
  · exact Nucleus.schedule_running hM he
  · exact absurd hm (hw q)

/-- Every event keeps a machine sound. -/
theorem Sound.step {e : Event} (h : m.Sound N) (he : m.Enabled e) : ∃ M, (m.step L e).Sound M := by
  cases e with
  | wake =>
    obtain ⟨s', hstep, hs', hN⟩ := step_wake (L := L) h.refines
    refine ⟨_, hstep ▸ Sound.schedule hN hs' fun p hp => ?_⟩
    exact Mode.noConfusion (hp.symm.trans he)
  | exception t =>
    obtain ⟨e, s', M, hstep, hM, N', hmv, hl⟩ := step_exception h.refines (h.covers_any he (L := L))
    refine ⟨M, hstep ▸ ⟨hM, fun q hq => ?_⟩⟩
    rcases resume_running hq with rfl | ⟨hr, hm⟩
    · generalize hd : Exit.dispatch q = e at hl
      cases hl with
      | stay _ _ hn => exact absurd hd.symm (hn q)
      | block _ _ _ _ hp => exact Nucleus.schedule_running hp hd.symm
      | preempt _ _ _ hp => exact Nucleus.schedule_running hp hd.symm
      | kill _ _ _ _ hp => exact Nucleus.schedule_running hp hd.symm
    · obtain rfl := hl.returns hr
      obtain ⟨hc, hf⟩ := h.running q hm
      exact ⟨hmv.current.trans hc, fun hq => hf (hmv.free hq)⟩

/-- What holds of every reachable machine. -/
theorem Reachable.sound {ok : Machine → Event → Prop} (h : Reachable L ok m) : ∃ N, m.Sound N := by
  induction h with
  | boot mem bus stck =>
    obtain ⟨p, M, hM, hm, hb⟩ := boot_spec L mem bus stck
    refine ⟨M, hM, fun q hq => ?_⟩
    obtain rfl : p = q := Mode.running.inj (hm.symm.trans hq)
    exact ⟨hb.current, hb.not_free⟩
  | step _ he _ ih =>
    obtain ⟨N, hN⟩ := ih
    exact hN.step he

theorem Leads.mono {ok ok' : Machine → Event → Prop} {m' : Machine} (h : Leads L ok m m')
    (hok : ∀ m e, ok m e → ok' m e) : Leads L ok' m m' := by
  induction h with
  | refl => exact .refl
  | step _ he h ih => exact ih.step he (hok _ _ h)

/-- What every event keeps holds at the end of a run where it held at its start. -/
theorem Leads.invariant {ok : Machine → Event → Prop} {I : Machine → Prop} {m' : Machine} (hN : m.Sound N)
    (start : I m) (event : ∀ {m : Machine} {N : Nucleus} {e : Event}, m.Sound N → I m → m.Enabled e →
      ok m e → I (m.step L e))
    (h : Leads L ok m m') : ∃ N, m'.Sound N ∧ I m' := by
  induction h with
  | refl => exact ⟨N, hN, start⟩
  | step _ he hok ih =>
    obtain ⟨P, hP, hI⟩ := ih
    obtain ⟨Q, hQ⟩ := hP.step he (L := L)
    exact ⟨Q, hQ, event hP hI he hok⟩

theorem Leads.sound {ok : Machine → Event → Prop} {m' : Machine} (hN : m.Sound N) (h : Leads L ok m m') :
    ∃ N, m'.Sound N := by
  obtain ⟨P, hP, -⟩ := h.invariant hN (I := fun _ => True) trivial fun _ _ _ _ => trivial
  exact ⟨P, hP⟩

theorem Reachable.leads {ok : Machine → Event → Prop} {m' : Machine} (h : Reachable L ok m)
    (hl : Leads L ok m m') : Reachable L ok m' := by
  induction hl with
  | refl => exact h
  | step _ he hok ih => exact ih.step he hok

/-- To hold in every run, something has to hold when the first process starts
and to be kept by the scheduler's loop and by every exception. -/
theorem Reachable.invariant {ok : Machine → Event → Prop} {I : Mode → Nucleus → Prop}
    (boot : ∀ {mem : Word → Word} {p : Pcb} {M : Nucleus}, Booted mem p M → I (.running p) M)
    (wake : ∀ {N : Nucleus}, N.Placed → I .waiting N →
      I (resume .waiting N.schedule.2.pcbs N.schedule.1) N.schedule.2)
    (exception : ∀ {m : Machine} {N : Nucleus} {t : Trap}, m.Sound N → I m.mode N →
      m.Enabled (.exception t) → ok m (.exception t) → ∃ e s' M,
        m.step L (.exception t) = ⟨s', resume m.mode s'.pcbs e⟩ ∧ s'.Refines M ∧
        I (resume m.mode M.pcbs e) M)
    (h : Reachable L ok m) : ∃ N, m.Sound N ∧ I m.mode N := by
  induction h with
  | boot mem bus stck =>
    obtain ⟨N, hN⟩ := Reachable.sound (@Reachable.boot L ok mem bus stck)
    obtain ⟨p, M, hM, hm, hb⟩ := boot_spec L mem bus stck
    obtain rfl := hN.refines.unique hM
    exact ⟨N, hN, hm ▸ boot hb⟩
  | @step m e _ he hok ih =>
    obtain ⟨N, hN, hI⟩ := ih
    obtain ⟨M, hM⟩ := hN.step he (L := L)
    refine ⟨M, hM, ?_⟩
    cases e with
    | wake =>
      obtain ⟨s', hstep, hs', hp⟩ := step_wake (L := L) hN.refines
      have hm : m.mode = .waiting := he
      rw [hstep] at hM ⊢
      obtain rfl := hM.refines.unique hs'
      rw [hs'.pcbs, hm]
      exact wake hp (hm ▸ hI)
    | exception t =>
      obtain ⟨e, s', M', hstep, hs', hI'⟩ := exception hN hI he hok
      rw [hstep] at hM ⊢
      obtain rfl := hM.refines.unique hs'
      rw [hs'.pcbs]
      exact hI'

theorem Enabled.not_stuck {t : Trap} (he : m.Enabled (.exception t)) : m.mode ≠ .stuck := by
  intro hm
  rcases he.1 with ⟨p, hp⟩ | ⟨hw, -⟩
  · cases hp.symm.trans hm
  · cases hw.symm.trans hm

/-- What exceptions keep unless they make the kernel fail holds until it does. -/
theorem Reachable.invariant_or_stuck {ok : Machine → Event → Prop} {I : Nucleus → Prop}
    (boot : ∀ {mem : Word → Word} {p : Pcb} {M : Nucleus}, M.Placed → Booted mem p M → I M)
    (wake : ∀ {N : Nucleus}, N.Placed → I N → I N.schedule.2)
    (exception : ∀ {m : Machine} {N : Nucleus} {t : Trap}, m.Sound N → I N →
      m.Enabled (.exception t) → ok m (.exception t) → ∃ e s' M,
        m.step L (.exception t) = ⟨s', resume m.mode s'.pcbs e⟩ ∧ s'.Refines M ∧
        (e = .fault ∨ I M))
    (h : Reachable L ok m) : ∃ N, m.Sound N ∧ (m.mode = .stuck ∨ I N) := by
  obtain ⟨N, hS, hI⟩ := h.invariant (I := fun mode N => mode = .stuck ∨ (N.Placed → I N))
    (fun hb => .inr fun hN => boot hN hb)
    (fun hN hI => .inr fun _ => wake hN (hI.resolve_left nofun hN)) (by
      intro m N t hS hI he hok
      have hN : I N := hI.resolve_left he.not_stuck hS.refines.placed
      obtain ⟨e, s', M, hstep, hM, hE⟩ := exception hS hN he hok
      refine ⟨e, s', M, hstep, hM, ?_⟩
      rcases hE with rfl | hE
      · exact .inl rfl
      · exact .inr fun _ => hE)
  exact ⟨N, hS, hI.imp id fun hN => hN hS.refines.placed⟩

end Machine

end Pandos
