import Pandos.Frames
import Pandos.Scenario

/-!
# Waiting for the clock

A process that waits for the clock waits for the next tick. The first
`CLOCKWAIT` of all does not wait when no tick has come before it.
-/

namespace Pandos
open Intrusive

variable {L : Layout}

/-- Anything but the clock. -/
def offClock (L : Layout) : Scope :=
  { anyScope with sem := fun a => a ≠ L.addr .clock, clock := False }

theorem offClock_writes {a : Word} (ha : a ≠ L.addr .clock) : (offClock L).Writes L a := by
  intro w hw
  cases w with
  | semMut | semSync => trivial
  | clock =>
    apply ha
    unfold Layout.kernelWord at hw
    split at hw
    · next h => exact h
    · dsimp only at hw
      split_ifs at hw <;> cases hw

namespace Machine

/-- No process uses the clock as its semaphore. -/
def ClockFree (L : Layout) : Machine → Event → Prop
  | _, .exception t => t.Calls 3 ∨ t.Calls 4 → t.old 8 ≠ L.addr .clock
  | _, .wake => True

/-- The event is an interrupt that serves the interval timer. -/
def ServesClock (L : Layout) (m : Machine) : Event → Prop
  | .exception t => excCode (t.old 1) = 0 ∧ ∃ u bit, Pass L (m.trapped t).charged u ∧
      firstLine u.gOldState.cause = some (bit, .sysTimer)
  | .wake => False

/-- `p` is blocked on the clock, and it is neither ready nor executing. -/
structure Awaits (L : Layout) (m : Machine) (p : Pcb) : Prop where
  blocked : (m.kernel.pcbs p).pSemAdd = L.addr .clock
  queued : p ∈ m.kernel.waiters (L.addr .clock)
  ready : p ∉ m.kernel.ready
  mode : m.mode ≠ .running p

variable {ok : Machine → Event → Prop} {m m' : Machine} {N : Nucleus} {t : Trap} {p : Pcb}

theorem Sound.awaits (hS : m.Sound N) (hp : p ∈ N.waiters (L.addr .clock)) : m.Awaits L p := by
  have hN := hS.refines.placed
  have hsem := ((hN.waiting _ _).mp hp).2
  refine ⟨by rwa [hS.refines.pcbs], by rwa [hS.refines.waiters], fun hr => ?_, fun hm => ?_⟩
  · rw [hS.refines.ready] at hr
    exact L.addr_ne_zero _ (hsem.symm.trans (hN.semAdd_of_ready hr))
  · have h0 := (hS.refines.current p (hS.running p hm).1).2
    exact L.addr_ne_zero _ (hsem.symm.trans h0)

/-- A `CLOCKWAIT` blocks the caller unless the clock is free. -/
theorem step_clockWait {c : Pcb} (hm : m.kernel.Refines N) (h7 : t.Calls 7)
    (hc : N.gCurrentProcess = some c) :
    ∃ M, (m.step L (.exception t)).kernel.Refines M ∧
      (N.gPseudoClock ≠ 1 → M.gPseudoClock = N.gPseudoClock ∧
        M.waiters (L.addr .clock) = N.waiters (L.addr .clock) ++ [c]) ∧
      (N.gPseudoClock = 1 → (M.pcbs c).pSemAdd = 0) := by
  obtain ⟨hready, h0⟩ := hm.current c hc
  have hN := hm.placed
  obtain ⟨e, s', M, hstep, hM, hE⟩ := step_syscall (L := L)
    (E := fun _ M => (N.gPseudoClock ≠ 1 → M.gPseudoClock = N.gPseudoClock ∧
        M.waiters (L.addr .clock) = N.waiters (L.addr .clock) ++ [c]) ∧
      (N.gPseudoClock = 1 → (M.pcbs c).pSemAdd = 0)) hm h7.1 (by
      rw [syscall_clockWait h7.2]
      refine Runs.bind (Runs.sysClockWait (Runs.semOp (L.addr_ne_zero _) ?_ ?_ ?_ ?_))
      · intro hl p l _
        rw [Globals.load_addr] at hl
        refine Runs.pure ⟨fun hn => absurd hl hn, fun _ => ?_⟩
        rw [Nucleus.pcbs_wakeUp]
        split
        · rfl
        · exact h0
      · intro hl _
        rw [Globals.load_addr] at hl
        exact Runs.pure ⟨fun hn => absurd hl hn, fun _ => h0⟩
      · intro hl c' hc' hp
        rw [Globals.load_addr] at hl
        obtain rfl : c = c' := Option.some.inj (hc.symm.trans hc')
        refine ⟨fun _ => ⟨?_, ?_⟩, fun h => absurd h hl⟩
        · rw [Nucleus.globals_schedule]
          rfl
        · rw [Nucleus.waiters_schedule hp, Queues.waiters, Nucleus.queue_suspend, if_pos rfl]
          exact congrArg (· ++ [c]) (Lists.unlink_of_not_mem (hN.not_waiting h0))
      · intro _ hn
        cases hc.symm.trans hn)
  rw [hstep]
  exact ⟨M, hM, hE⟩

/-- Who waits for the clock waits on when the clock does not tick. -/
theorem Sound.waits_on {e : Event} (hS : m.Sound N) (hk : N.gPseudoClock ≠ 1)
    (hp : p ∈ N.waiters (L.addr .clock)) (he : m.Enabled e) (hok : m.ClockFree L e)
    (ht : ¬m.ServesClock L e) (hlive : p ∉ (m.step L e).kernel.free) :
    ∃ M, (m.step L e).kernel.Refines M ∧ M.gPseudoClock ≠ 1 ∧ p ∈ M.waiters (L.addr .clock) := by
  cases e with
  | wake =>
    obtain ⟨s', hstep, hs', hN⟩ := step_wake (L := L) hS.refines
    rw [hstep]
    refine ⟨_, hs', ?_, ?_⟩
    · rw [Nucleus.globals_schedule]
      exact hk
    · rwa [Nucleus.waiters_schedule hN]
  | exception t =>
    by_cases h7 : t.Calls 7
    · obtain ⟨c, hc⟩ := (he.1.resolve_right fun h => by have := h7.1; omega)
      obtain ⟨M, hM, hblock, -⟩ := step_clockWait (L := L) hS.refines h7 (hS.running c hc).1
      obtain ⟨hclock, hw⟩ := hblock hk
      refine ⟨M, hM, hclock ▸ hk, ?_⟩
      rw [hw]
      exact List.mem_append_left _ hp
    · have hcov : (offClock L).Covers L (m.trapped t) := by
        apply hS.covers he
        · refine fun h0 => ⟨trivial, fun u hu => ⟨fun bit hf => absurd ⟨h0, u, bit, hu, hf⟩ ht,
            fun _ _ => trivial, fun d _ => ⟨trivial, ?_, ?_⟩, fun _ _ _ _ => trivial,
            fun _ _ _ _ _ => trivial⟩⟩
          · simp [offClock]
          · simp [offClock]
        · exact fun _ => trivial
        · exact fun h _ => ⟨hok h, offClock_writes (hok h)⟩
        · exact fun h => absurd h h7
        · refine fun _ d _ => ⟨trivial, ?_, ?_⟩
          · simp [offClock]
          · simp [offClock]
        · exact fun _ _ _ _ => trivial
        · exact fun _ _ _ _ => trivial
      obtain ⟨e, s', M, hstep, hM, hend⟩ := step_exception hS.refines hcov
      rw [hstep] at hlive ⊢
      rw [hM.free] at hlive
      refine ⟨M, hM, ?_, hend.waits (fun h => h rfl) hp hlive⟩
      rw [hend.clock_eq id]
      exact hk

/-- `CLOCKWAIT` waits for a tick, unless the clock is still free. -/
theorem clockWait_waits (h : Reachable L (ClockFree L) m) (hp : m.mode = .running p)
    (he : m.Enabled (.exception t)) (h7 : t.Calls 7) :
    (∀ m', (m.step L (.exception t)).Leads L (fun m e => m.ClockFree L e ∧ ¬m.ServesClock L e ∧
        p ∉ (m.step L e).kernel.free) m' → m'.Awaits L p) ↔
      m.kernel.gPseudoClock ≠ 1 := by
  obtain ⟨N, hS⟩ := h.sound
  have hclock : m.kernel.gPseudoClock = N.gPseudoClock := by rw [hS.refines.globals]
  obtain ⟨hc, hlive⟩ := hS.running p hp
  obtain ⟨M, hM, hblock, hfree⟩ := step_clockWait (L := L) hS.refines h7 hc
  obtain ⟨M', hS'⟩ := hS.step he (L := L)
  obtain rfl := hS'.refines.unique hM
  rw [hclock]
  constructor
  · intro hall hk
    have hsem := (hall _ .refl).blocked
    rw [hM.pcbs, hfree hk] at hsem
    exact L.addr_ne_zero _ hsem.symm
  · intro hk m' hrun
    have hinv : ∃ P, m'.Sound P ∧ P.gPseudoClock ≠ 1 ∧ p ∈ P.waiters (L.addr .clock) := by
      obtain ⟨hclock, hw⟩ := hblock hk
      induction hrun with
      | refl =>
        refine ⟨M', hS', hclock ▸ hk, ?_⟩
        rw [hw]
        simp
      | step _ he hok ih =>
        obtain ⟨P, hP, hkP, hpP⟩ := ih
        obtain ⟨Q, hQ, hkQ, hpQ⟩ := hP.waits_on hkP hpP he hok.1 hok.2.1 hok.2.2
        obtain ⟨Q', hSQ⟩ := hP.step he (L := L)
        obtain rfl := hSQ.refines.unique hQ
        exact ⟨Q', hSQ, hkQ, hpQ⟩
    obtain ⟨P, hP, -, hpP⟩ := hinv
    exact hP.awaits hpP

/-- The first process has called `CLOCKWAIT` once. -/
def clockTaken : Machine := sampleBoot.step sampleLayout (call 7 0 0 0 sampleBoot)

theorem clockTaken_reachable : Reachable sampleLayout (ClockFree sampleLayout) clockTaken := by
  have he : sampleBoot.Enabled (call 7 0 0 0 sampleBoot) :=
    ⟨.inl ⟨19, by decide +kernel⟩, fun d => .inl rfl⟩
  have hok : sampleBoot.ClockFree sampleLayout (call 7 0 0 0 sampleBoot) := fun h =>
    absurd h (by decide +kernel)
  exact Reachable.step (.boot _ _ _) he hok

/-- Its second one waits. -/
theorem clockWait_waits_second :
    (clockTaken.step sampleLayout (call 7 0 0 0 clockTaken)).Awaits sampleLayout 19 := by
  have he : clockTaken.Enabled (call 7 0 0 0 clockTaken) :=
    ⟨.inl ⟨19, by decide +kernel⟩, fun d => .inl rfl⟩
  exact (clockWait_waits clockTaken_reachable (p := 19) (by decide +kernel) he
    (by decide +kernel)).mpr (by decide +kernel) _ .refl

/-- The first `CLOCKWAIT` of all returns at once. -/
theorem clockWait_returns : Reachable sampleLayout (ClockFree sampleLayout) sampleBoot ∧
    sampleBoot.mode = .running 19 ∧ sampleBoot.Enabled (call 7 0 0 0 sampleBoot) ∧
    (callTrap 7 0 0 0 sampleBoot).Calls 7 ∧
    (sampleBoot.step sampleLayout (call 7 0 0 0 sampleBoot)).mode = .running 19 ∧
    ¬(sampleBoot.step sampleLayout (call 7 0 0 0 sampleBoot)).Awaits sampleLayout 19 := by
  have hmode : (sampleBoot.step sampleLayout (call 7 0 0 0 sampleBoot)).mode = .running 19 := by
    decide +kernel
  refine ⟨.boot _ _ _, ?_, ?_, ?_, hmode, fun h => h.mode hmode⟩
  · decide +kernel
  · exact ⟨.inl ⟨19, by decide +kernel⟩, fun d => .inl rfl⟩
  · decide +kernel

end Machine

end Pandos
