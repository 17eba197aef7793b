import Pandos.Scenario

/-!
# `TERMPROCESS` of a dead process

A pid is the address of a pcb, and nothing tells a live process from a free pcb.
A process that has been terminated has no parent, no children and waits for
nothing, so terminating it again only frees its pcb and counts it once more.
-/

namespace Pandos
open Intrusive Outcome

/-- What terminating a dead process should not touch. -/
structure Kernel.Unharmed (s s' : Kernel) : Prop where
  count : s'.gProcessCount = s.gProcessCount
  free : ∀ q, q ∈ s'.free ↔ q ∈ s.free
  ready : s'.ready = s.ready
  waiters : ∀ a, s'.waiters a = s.waiters a
  children : ∀ q, q ∉ s.free → s'.pChild q = s.pChild q

/-- `sysTerminateProcess` up to its call of `scheduler()`. -/
def Kernel.terminated (L : Layout) (s : Kernel) (p : Pcb) : Option Kernel :=
  terminateProcess L terminateFuel { s with toTables := (s.outChild p).2 } p

section
variable {L : Layout} {s s' : Kernel} {N : Nucleus} {p : Pcb}

theorem sysTerminateProcess_eq (h : s.terminated L p = some s') :
    sysTerminateProcess L (some p) s = scheduler s' := by
  have h' : terminateProcess L terminateFuel { s with toTables := (s.outChild p).2 } p = some s' := h
  refine (bind_of_ok rfl).trans ((bind_of_ok rfl).trans ((bind_of_ok rfl).trans ?_))
  rw [h']
  rfl

/-- A childless process that waits for nothing is freed alone. -/
theorem terminateProcess_leaf (fuel : Nat) (h0 : (s.pcbs p).pSemAdd = 0) (hc : s.pChild p = []) :
    terminateProcess L (fuel + 2) s p = some (s.discard p) := by
  have hunblock : s.unblock L p = s := by simp [Kernel.unblock, h0]
  rw [terminateProcess, hunblock, terminateChildren]
  simp [Tables.removeChild, hc]

/-- Up to the scheduler, a dead process is only discarded. -/
theorem terminated_dead (hs : s.Refines N) (hp : p ∈ N.free) :
    s.terminated L p = some (s.discard p) := by
  have hout : (s.toTables.outChild p).2 = s.toTables := by
    rw [Runs.outChild_eq (hs.queues ▸ hs.tree),
      Lists.unlink_of_free (hs.pChild ▸ hs.tree.no_parent_of_free hp)]
  rw [Kernel.terminated, hout]
  apply terminateProcess_leaf
  · rw [hs.pcbs, hs.placed.semAdd_of_free hp]
  · rw [hs.pChild, hs.tree.no_child_of_free hp]

theorem discard_dead_refines (hs : s.Refines N) (hp : p ∈ N.free) :
    (s.discard p).Refines (N.discard p) :=
  discard_refines hs (hs.placed.semAdd_of_free hp) (hs.tree.no_parent_of_free hp)
    (hs.tree.no_child_of_free hp)

/-- The one thing that is wrong afterwards is the number of processes. -/
theorem discard_dead (hs : s.Refines N) (hp : p ∈ N.free) :
    (s.discard p).gProcessCount = s.gProcessCount - 1 ∧
    (∀ q, q ∈ (s.discard p).free ↔ q ∈ s.free) ∧ (s.discard p).ready = s.ready ∧
    (∀ a, (s.discard p).waiters a = s.waiters a) ∧ (s.discard p).pChild = s.pChild := by
  have hd := discard_dead_refines hs hp
  have hother : ∀ k, k ≠ .free → (N.discard p).queue k = N.queue k := by
    intro k hk
    show (N.toQueues.moveFirst .free p).queue k = _
    rw [Queues.queue_moveFirst, if_neg hk]
    exact hs.placed.apart.unlink_other hp hk
  refine ⟨rfl, fun q => ?_, ?_, fun a => ?_, ?_⟩
  · rw [hd.free, hs.free]
    show q ∈ (N.toQueues.moveFirst .free p).queue .free ↔ q ∈ N.queue .free
    rw [Queues.queue_moveFirst, if_pos rfl, List.mem_cons, Lists.mem_unlink]
    by_cases hq : q = p
    · subst hq
      simpa using hp
    · simp [hq]
  · rw [hd.ready, hs.ready]
    exact hother .ready (by simp)
  · rw [hd.waiters, hs.waiters]
    exact hother (.sem a) (by simp)
  · rw [hd.pChild, hs.pChild]
    rfl

end

namespace Machine
variable {L : Layout} {ok : Machine → Event → Prop} {m : Machine} {c p : Pcb} {t : Trap}

/-- In a run whose events satisfy `ok` a process has lived in `p` and has been
terminated. A pcb that was never allocated is another matter: its `p_child` is
no list, and the code does not survive its termination. -/
structure Died (L : Layout) (ok : Machine → Event → Prop) (m : Machine) (p : Pcb) : Prop where
  lived : ∃ m₀, Reachable L ok m₀ ∧ p ∉ m₀.kernel.free ∧ Leads L ok m₀ m
  dead : p ∈ m.kernel.free

/-- `TERMPROCESS` of a dead process reaches the scheduler in a kernel that counts
a process too few. -/
theorem step_dead (h : Reachable L ok m) (hrun : m.mode = .running c) (hcall : t.Calls 2)
    (hpid : t.old 8 = L.pcb p) (hdead : p ∈ m.kernel.free) : ∃ s',
      (m.served t).terminated L p = some s' ∧
      m.step L (.exception t) = enter (.running c) scheduler s' ∧
      s'.gProcessCount = m.kernel.gProcessCount - 1 ∧
      (∀ q, q ∈ s'.free ↔ q ∈ m.kernel.free) ∧ s'.ready = m.kernel.ready ∧
      (∀ a, s'.waiters a = m.kernel.waiters a) ∧ s'.pChild = m.kernel.pChild := by
  obtain ⟨N, hS⟩ := h.sound
  have hs := served_refines hS.refines t
  have hp : p ∈ (N.trapped t (decide (m.mode = .waiting))).skip.free := hS.refines.free ▸ hdead
  have hterm := terminated_dead (L := L) hs hp
  refine ⟨(m.served t).discard p, hterm, ?_, discard_dead hs hp⟩
  obtain ⟨h8, h2⟩ := hcall
  obtain ⟨e, s', hleft⟩ : ∃ e s', scheduler ((m.served t).discard p) = .error e s' := by
    obtain ⟨s', hleft, -⟩ := scheduler_left (m := ⟨_, m.mode⟩) (discard_dead_refines hs hp)
    exact ⟨_, s', hleft⟩
  have hcode : syscall L (t.old 7) (t.old 8) (t.old 9) (t.old 10) (m.served t) = .error e s' := by
    have hptr : toPointer (L.toPcb (t.old 8)) (m.served t) = .ok (some p) (m.served t) := by
      rw [hpid, L.toPcb_pcb]
      rfl
    simp only [syscall, h2]
    exact (bind_of_ok hptr).trans (bind_of_error ((sysTerminateProcess_eq hterm).trans hleft))
  rw [step_unserved h8 hcode, enter_left hleft, hrun]

/-- A dead process is never terminated again without harm. -/
theorem dead_pid_harms (hp : m.Died L ok p) (hrun : m.mode = .running c) (hcall : t.Calls 2)
    (hpid : t.old 8 = L.pcb p) : ∃ s',
      (m.served t).terminated L p = some s' ∧
      m.step L (.exception t) = enter (.running c) scheduler s' ∧ ¬m.kernel.Unharmed s' := by
  obtain ⟨⟨m₀, h, -, hlife⟩, hdead⟩ := hp
  obtain ⟨s', hterm, hstep, hcount, -⟩ := step_dead (h.leads hlife) hrun hcall hpid hdead
  refine ⟨s', hterm, hstep, fun hu => ?_⟩
  have := hu.count
  omega

/-- A process makes two children, and the first of them terminates the second. -/
def twoChildren : Machine := sampleBoot.run sampleLayout [call 1 0x20060000 0 0, call 1 0x20060000 0 0]
def bereaved : Machine := twoChildren.run sampleLayout [preempt, call 2 (sampleLayout.pcb 17) 0 0]

theorem twoChildren_reachable : Reachable sampleLayout (Lawful sampleLayout) twoChildren :=
  Reachable.run (.boot _ _ _) (by decide +kernel)

theorem bereaved_later : Leads sampleLayout (Lawful sampleLayout) twoChildren bereaved :=
  Leads.run .refl (by decide +kernel)

/-- The parent terminates the second child again. -/
def again : Trap := callTrap 2 (sampleLayout.pcb 17) 0 0 bereaved

theorem dead_pid_harms_again : ∃ s', (bereaved.served again).terminated sampleLayout 17 = some s' ∧
    bereaved.step sampleLayout (.exception again) = enter (.running 19) scheduler s' ∧
    ¬bereaved.kernel.Unharmed s' :=
  dead_pid_harms ⟨⟨twoChildren, twoChildren_reachable, by decide +kernel, bereaved_later⟩, by decide +kernel⟩
    (by decide +kernel) (by decide +kernel) (by decide +kernel)

/-- The pid that `CREATEPROCESS` returned for a process that is dead by now. -/
theorem dead_pid_not_harmless : ∃ m₀ m c p t, Reachable sampleLayout (Lawful sampleLayout) m₀ ∧
    m₀.kernel.gOldState.regV0 = sampleLayout.pcb p ∧ p ∉ m₀.kernel.free ∧
    Leads sampleLayout (Lawful sampleLayout) m₀ m ∧ m.mode = .running c ∧ t.Calls 2 ∧
    t.old 8 = sampleLayout.pcb p ∧ p ∈ m.kernel.free ∧
    ∃ s', (m.served t).terminated sampleLayout p = some s' ∧ ¬m.kernel.Unharmed s' := by
  have hrun : bereaved.mode = .running 19 := by decide +kernel
  have hcall : again.Calls 2 := by decide +kernel
  have hpid : again.old 8 = sampleLayout.pcb 17 := by decide +kernel
  have hdead : (17 : Pcb) ∈ bereaved.kernel.free := by decide +kernel
  obtain ⟨s', hterm, -, hcount, -⟩ :=
    step_dead (twoChildren_reachable.leads bereaved_later) hrun hcall hpid hdead
  refine ⟨twoChildren, bereaved, 19, 17, again, twoChildren_reachable, by decide +kernel, by decide +kernel,
    bereaved_later, hrun, hcall, hpid, hdead, s', hterm, fun hu => ?_⟩
  have := hu.count
  omega

end Machine

end Pandos
