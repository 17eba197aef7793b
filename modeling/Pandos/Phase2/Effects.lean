import Pandos.Phase2.Nucleus
import Pandos.Phase2.Exceptions
import Pandos.Placement

/-!
# What the functions of phase 2 do

One rule for each function, in terms of the nucleus.
-/

namespace Pandos
open Intrusive Outcome

namespace Nucleus

/-- `p_s = *g_old_state`. -/
def save (N : Nucleus) (p : Pcb) : Nucleus :=
  ⟨N.modPcb p ({ · with pS := N.gOldState }), N.toGlobals⟩

/-- `updateProcessTime`. -/
def charge (N : Nucleus) : Nucleus :=
  let reads := N.stckReads + if N.gCurrentProcess.isSome then 1 else 0
  ⟨{ N.toQueues with
      pcbs := fun p =>
        if N.gCurrentProcess = some p then
          { N.pcbs p with pTime := (N.pcbs p).pTime + (N.stck N.stckReads - N.gTod) }
        else N.pcbs p },
    { N.toGlobals with gTod := N.stck reads, stckReads := reads + 1 }⟩

theorem charge_none {N : Nucleus} (hc : N.gCurrentProcess = none) : N.charge =
    ⟨N.toQueues, { N.toGlobals with gTod := N.stck N.stckReads, stckReads := N.stckReads + 1 }⟩ := by
  simp [charge, hc]

theorem charge_some {N : Nucleus} {p : Pcb} (hc : N.gCurrentProcess = some p) : N.charge =
    ⟨N.modPcb p fun r => { r with pTime := r.pTime + (N.stck N.stckReads - N.gTod) },
      { N.toGlobals with gTod := N.stck (N.stckReads + 1), stckReads := N.stckReads + 1 + 1 }⟩ := by
  have hp : (fun q => if N.gCurrentProcess = some q then
      { N.pcbs q with pTime := (N.pcbs q).pTime + (N.stck N.stckReads - N.gTod) } else N.pcbs q) =
      Function.update N.pcbs p
        { N.pcbs p with pTime := (N.pcbs p).pTime + (N.stck N.stckReads - N.gTod) } := by
    funext q
    by_cases hq : q = p
    · subst hq
      simp [hc]
    · have : p ≠ q := fun e => hq e.symm
      simp [hc, hq, this]
  simp only [charge, hp, Queues.modPcb]
  simp [hc]

/-- The record of a process but for its time. -/
theorem charge_pcbs (N : Nucleus) (p : Pcb) :
    N.charge.pcbs p = { N.pcbs p with pTime := (N.charge.pcbs p).pTime } := by
  simp only [charge]
  split <;> rfl

@[simp] theorem charge_pSemAdd (N : Nucleus) (p : Pcb) :
    (N.charge.pcbs p).pSemAdd = (N.pcbs p).pSemAdd := by rw [charge_pcbs]

@[simp] theorem charge_pParent (N : Nucleus) (p : Pcb) :
    (N.charge.pcbs p).pParent = (N.pcbs p).pParent := by rw [charge_pcbs]

@[simp] theorem charge_pS (N : Nucleus) (p : Pcb) :
    (N.charge.pcbs p).pS = (N.pcbs p).pS := by rw [charge_pcbs]

@[simp] theorem charge_cmdAddr (N : Nucleus) (p : Pcb) :
    (N.charge.pcbs p).cmdAddr = (N.pcbs p).cmdAddr := by rw [charge_pcbs]

@[simp] theorem charge_cmdValues (N : Nucleus) (p : Pcb) :
    (N.charge.pcbs p).cmdValues = (N.pcbs p).cmdValues := by rw [charge_pcbs]

/-- The head of a semaphore queue goes to the end of the ready queue. -/
def wakeUp (N : Nucleus) (p : Pcb) : Nucleus :=
  ⟨(N.toQueues.wake p).moveLast .ready p, N.toGlobals⟩

/-- The current process waits on the semaphore at `a`. -/
def suspend (N : Nucleus) (a : Word) (p : Pcb) : Nucleus :=
  let M := (N.save p).charge
  ⟨M.toQueues.block a p, { M.toGlobals with gCurrentProcess := none }⟩

/-- The current process goes to the end of the ready queue. -/
def preempt (N : Nucleus) (p : Pcb) : Nucleus :=
  let M := N.save p
  ⟨M.toQueues.moveLast .ready p, { M.toGlobals with gCurrentProcess := none }⟩

/-- A store to a semaphore. -/
def put (L : Layout) (N : Nucleus) (a v : Word) : Nucleus := ⟨N.toQueues, N.toGlobals.store L a v⟩

/-- A ready process becomes the current one. -/
def dispatch (N : Nucleus) (p : Pcb) : Nucleus :=
  ⟨N.toQueues.unlink p,
    { N.toGlobals with
      gCurrentProcess := some p, gTod := N.stck N.stckReads, stckReads := N.stckReads + 1 }⟩

/-- How the scheduler leaves the kernel when no process is ready. -/
def idleExit (N : Nucleus) : Exit :=
  if N.gProcessCount = 0 then .halt
  else if 0 < N.gProcessCount ∧ 0 < N.gSoftBlockCount then .wait
  else if 0 < N.gProcessCount ∧ N.gSoftBlockCount = 0 then .panic
  else .hang

theorem idleExit_wait {N : Nucleus} (h : N.idleExit = .wait) :
    0 < N.gProcessCount ∧ 0 < N.gSoftBlockCount := by
  unfold idleExit at h
  split_ifs at h with h₁ h₂
  exact h₂

/-- `scheduler`. -/
def schedule (N : Nucleus) : Exit × Nucleus :=
  match N.ready with
  | [] => (N.idleExit, N)
  | p :: _ => (.dispatch p, N.dispatch p)

section
variable (N : Nucleus) (k : Place) (p : Pcb) (a : Word)

theorem queue_wakeUp : (N.wakeUp p).queue k =
    if k = .ready then N.queue.unlink p k ++ [p] else N.queue.unlink p k := by
  rw [wakeUp, Queues.queue_moveLast, Queues.wake, Queues.unlink, Queues.modPcb, Lists.unlink_unlink]

theorem queue_suspend : (N.suspend a p).queue k =
    if k = .sem a then N.queue.unlink p k ++ [p] else N.queue.unlink p k :=
  Queues.queue_block _ a k p

theorem queue_preempt : (N.preempt p).queue k =
    if k = .ready then N.queue.unlink p k ++ [p] else N.queue.unlink p k :=
  Queues.queue_moveLast _ k .ready p

@[simp] theorem queue_dispatch : (N.dispatch p).queue k = N.queue.unlink p k := rfl

theorem pcbs_wakeUp (q : Pcb) : (N.wakeUp p).pcbs q =
    if q = p then { N.pcbs q with pSemAdd := 0 } else N.pcbs q := by
  by_cases hq : q = p
  · subst hq
    simp [wakeUp, Queues.moveLast, Queues.wake, Queues.unlink, Queues.modPcb]
  · simp [wakeUp, Queues.moveLast, Queues.wake, Queues.unlink, Queues.modPcb, hq]

theorem semAdd_suspend (q : Pcb) : ((N.suspend a p).pcbs q).pSemAdd =
    if q = p then a else (N.pcbs q).pSemAdd := by
  by_cases hq : q = p
  · subst hq
    simp [suspend, Queues.block, Queues.moveLast, Queues.modPcb]
  · simp [suspend, save, Queues.block, Queues.moveLast, Queues.modPcb, hq]

theorem pS_suspend (q : Pcb) : ((N.suspend a p).pcbs q).pS =
    if q = p then N.gOldState else (N.pcbs q).pS := by
  by_cases hq : q = p
  · subst hq
    simp [suspend, save, Queues.block, Queues.moveLast, Queues.modPcb]
  · simp [suspend, save, Queues.block, Queues.moveLast, Queues.modPcb, hq]

theorem pcbs_preempt (q : Pcb) : (N.preempt p).pcbs q =
    if q = p then { N.pcbs q with pS := N.gOldState } else N.pcbs q := by
  by_cases hq : q = p
  · subst hq
    simp [preempt, save, Queues.moveLast, Queues.modPcb]
  · simp [preempt, save, Queues.moveLast, Queues.modPcb, hq]

theorem mem_wakeUp {q : Pcb} : q ∈ (N.wakeUp p).queue k ↔
    q ∈ N.queue k ∧ q ≠ p ∨ k = .ready ∧ q = p := by
  rw [queue_wakeUp]
  split <;> simp_all

theorem mem_suspend {q : Pcb} : q ∈ (N.suspend a p).queue k ↔
    q ∈ N.queue k ∧ q ≠ p ∨ k = .sem a ∧ q = p := by
  rw [queue_suspend]
  split <;> simp_all

theorem mem_preempt {q : Pcb} : q ∈ (N.preempt p).queue k ↔
    q ∈ N.queue k ∧ q ≠ p ∨ k = .ready ∧ q = p := by
  rw [queue_preempt]
  split <;> simp_all

end

theorem schedule_nil {N : Nucleus} (hr : N.ready = []) : N.schedule = (N.idleExit, N) := by
  rw [schedule, hr]

theorem schedule_cons {N : Nucleus} {p : Pcb} {l : List Pcb} (hr : N.ready = p :: l) :
    N.schedule = (.dispatch p, N.dispatch p) := by
  rw [schedule, hr]

@[simp] theorem pcbs_schedule (N : Nucleus) : N.schedule.2.pcbs = N.pcbs := by
  unfold schedule
  split <;> rfl

@[simp] theorem pChild_schedule (N : Nucleus) : N.schedule.2.pChild = N.pChild := by
  unfold schedule
  split <;> rfl

theorem globals_schedule (N : Nucleus) : N.schedule.2.toGlobals =
    { N.toGlobals with
      gCurrentProcess := N.schedule.2.gCurrentProcess
      gTod := N.schedule.2.gTod
      stckReads := N.schedule.2.stckReads } := by
  unfold schedule
  split <;> rfl

theorem mem_of_mem_schedule {N : Nucleus} {k : Place} {q : Pcb} (h : q ∈ N.schedule.2.queue k) :
    q ∈ N.queue k := by
  cases hr : N.ready with
  | nil => rwa [schedule_nil hr] at h
  | cons p l =>
    rw [schedule_cons hr] at h
    exact (Lists.mem_unlink.mp h).1

/-- Only the ready queue changes. -/
theorem queue_schedule {N : Nucleus} (hN : N.Placed) {k : Place} (hk : k ≠ .ready) :
    N.schedule.2.queue k = N.queue k := by
  cases hr : N.ready with
  | nil => rw [schedule_nil hr]
  | cons p l =>
    rw [schedule_cons hr]
    exact hN.apart.unlink_other (show p ∈ N.ready by simp [hr]) hk

theorem free_schedule {N : Nucleus} (hN : N.Placed) : N.schedule.2.free = N.free :=
  queue_schedule hN (by simp)

/-- A process is dispatched off the ready queue. -/
theorem schedule_dispatch {N : Nucleus} {p : Pcb} (h : N.schedule.1 = .dispatch p) :
    (∃ l, N.ready = p :: l) ∧ N.schedule.2 = N.dispatch p := by
  cases hr : N.ready with
  | nil =>
    rw [schedule_nil hr, idleExit] at h
    split_ifs at h
  | cons q l =>
    rw [schedule_cons hr] at h ⊢
    obtain rfl : q = p := by simpa using h
    exact ⟨⟨l, rfl⟩, rfl⟩

end Nucleus

namespace Runs
variable {N : Nucleus} {E : Exit → Nucleus → Prop} {Q : Unit → Nucleus → Prop} {p : Pcb} {a : Word}

/-! ## Phase 1 -/

theorem current_modPcb {f : PcbT → PcbT} (hc : N.Current)
    (hs : (f (N.pcbs p)).pSemAdd = (N.pcbs p).pSemAdd) :
    Nucleus.Current ⟨N.modPcb p f, N.toGlobals⟩ := by
  intro c hcur
  obtain ⟨hr, h0⟩ := hc c hcur
  refine ⟨hr, ?_⟩
  by_cases hp : c = p
  · subst hp
    simpa [Queues.modPcb] using hs.trans h0
  · simpa [Queues.modPcb, hp] using h0

theorem modPcb {f : PcbT → PcbT} (hs : ∀ r, (f r).pSemAdd = r.pSemAdd)
    (hp : ∀ r, (f r).pParent = r.pParent) (h : Q () ⟨N.modPcb p f, N.toGlobals⟩) :
    Runs (K.tables (·.modPcb p f)) N Q E := by
  refine sound fun ⟨_, ht, hc⟩ => tables (fun t hq he => ⟨hq.modPcb (hs _), ?_⟩) (ht.modPcb (hp _))
    (current_modPcb hc (hs _)) h
  rw [← he]
  rfl

theorem removeBlocked_nil {Q : Option Pcb → Nucleus → Prop} (hw : N.waiters a = [])
    (h : Q none N) : Runs (K.fromTables (·.removeBlocked a)) N Q E := by
  refine sound fun ⟨_, ht, hc⟩ => fromTables (q := N.toQueues) (fun t hq he => ?_) ht hc h
  have hn : t.waiters a = [] := by
    rw [← hw, ← he]
    rfl
  rw [Tables.removeBlocked_nil hq hn]
  exact ⟨rfl, hq, he⟩

theorem removeBlocked_cons {l : List Pcb} {Q : Option Pcb → Nucleus → Prop}
    (hw : N.waiters a = p :: l) (h : Q (some p) ⟨N.toQueues.wake p, N.toGlobals⟩) :
    Runs (K.fromTables (·.removeBlocked a)) N Q E := by
  refine sound fun ⟨_, ht, hc⟩ => fromTables (fun t hq he => ?_) (ht.wake p) ?_ h
  · have hn : t.waiters a = p :: l := by
      rw [← hw, ← he]
      rfl
    obtain ⟨t', ht', hq', he'⟩ := Tables.removeBlocked_cons hq hn
    rw [ht']
    exact ⟨rfl, hq', by rw [he', he]⟩
  · intro c hcur
    obtain ⟨hr, h0⟩ := hc c hcur
    refine ⟨fun hm => hr (Lists.mem_unlink.mp hm).1, ?_⟩
    by_cases hp : c = p
    · simp [Queues.wake, Queues.unlink, Queues.modPcb, hp]
    · simpa [Queues.wake, Queues.unlink, Queues.modPcb, hp] using h0

theorem insertProcQ (hp : (N.pcbs p).pSemAdd = 0) (hcp : N.gCurrentProcess ≠ some p)
    (h : Q () ⟨N.toQueues.moveLast .ready p, N.toGlobals⟩) :
    Runs (K.tables (·.insertProcQ .gReadyQueue p)) N Q E := by
  refine sound fun ⟨_, ht, hc⟩ => tables (fun t hq he => ?_) (ht.moveLast (by simp) p) ?_ h
  · have h0 : (t.pcbs p).pSemAdd = 0 := by
      rw [← hp, ← he]
      rfl
    exact ⟨Tables.insertProcQ_queued hq h0, by rw [Tables.insertProcQ_queues hq h0, he]⟩
  · intro c hcur
    obtain ⟨hr, h0⟩ := hc c hcur
    refine ⟨fun hm => ?_, h0⟩
    simp only [Queues.ready, Queues.queue_moveLast] at hm
    rcases List.mem_append.mp hm with hm | hm
    · exact hr (Lists.mem_unlink.mp hm).1
    · exact hcp (List.mem_singleton.mp hm ▸ hcur)

/-! ## `scheduler.c` -/

theorem removeReady {l : List Pcb} {Q : Option Pcb → Nucleus → Prop} (hr : N.ready = p :: l)
    (h : Q (some p) ⟨N.toQueues.unlink p, N.toGlobals⟩) :
    Runs (K.fromTables (·.removeProcQ .gReadyQueue)) N Q E := by
  refine sound fun ⟨hp, ht, hc⟩ => fromTables (fun t hq he => ?_) (ht.unlink p) ?_ h
  · have hr' : t.ready = p :: l := by
      rw [← hr, ← he]
      rfl
    have h0 := hq.semAdd_of_ready (p := p) (by rw [hr']; simp)
    rw [Tables.removeProcQ_cons hr']
    exact ⟨rfl, Tables.listDel_queued hq h0, by rw [Tables.listDel_queues hq h0, he]⟩
  · intro c hcur
    obtain ⟨hm, h0⟩ := hc c hcur
    exact ⟨fun hn => hm (Lists.mem_unlink.mp hn).1, h0⟩

theorem current_dispatch {g : Globals} (hp : N.Placed) (hr : p ∈ N.ready)
    (hg : g.gCurrentProcess = some p) : Nucleus.Current ⟨N.toQueues.unlink p, g⟩ := by
  intro c hc
  obtain rfl : p = c := Option.some.inj (hg.symm.trans hc)
  exact ⟨fun hm => (Lists.mem_unlink.mp hm).2 rfl, hp.semAdd_of_ready hr⟩

theorem scheduler (h : N.Placed → E N.schedule.1 N.schedule.2) : Runs scheduler N Q E := by
  refine sound fun ⟨hp, _, _⟩ => Runs.get fun s hs => ?_
  have h := h hp
  have he : s.emptyProcQ .gReadyQueue = N.ready.isEmpty := by
    rw [← hs.ready]
    rfl
  rw [he, hs.globals]
  cases hr : N.ready with
  | nil =>
    rw [Nucleus.schedule_nil hr] at h
    refine Runs.ite (fun _ => ?_) fun hn => absurd rfl hn
    unfold Nucleus.idleExit at h
    split_ifs at h ⊢ <;> exact Runs.leave h
  | cons p l =>
    rw [Nucleus.schedule_cons hr] at h
    refine Runs.ite (fun hn => by cases hn) fun _ => ?_
    refine Runs.bind (removeReady hr (Runs.bind (setGlobals ?_ ?_)))
    · exact current_dispatch hp (by simp [hr]) rfl
    · exact Runs.bind (stck (Runs.bind (globals rfl (Runs.bind (Runs.pure (Runs.leave h))))))

theorem getPassedTime {Q : Word → Nucleus → Prop}
    (h : Q (N.stck N.stckReads - N.gTod)
      ⟨N.toQueues, { N.toGlobals with stckReads := N.stckReads + 1 }⟩) :
    Runs getPassedTime N Q E := by
  refine Runs.bind (stck (Runs.get fun s hs => ?_))
  rw [hs.globals]
  exact Runs.pure h

theorem updateProcessTime (h : Q () N.charge) : Runs updateProcessTime N Q E := by
  refine Runs.get fun s hs => ?_
  rw [hs.globals]
  cases hc : N.gCurrentProcess with
  | none =>
    rw [Nucleus.charge_none hc] at h
    exact Runs.bind (stck (globals rfl h))
  | some p =>
    rw [Nucleus.charge_some hc] at h
    refine Runs.bind (getPassedTime (Runs.bind ?_))
    exact modPcb (fun _ => rfl) (fun _ => rfl) (Runs.bind (stck (globals rfl h)))

/-! ## `syscall.c` -/

/-- To block the current process and forget it is one step: in between
`g_current_process` points to a blocked process. -/
theorem insertBlocked {β : Type} {rest : K β} {Q : β → Nucleus → Prop} (ha : a ≠ 0)
    (hp : (N.pcbs p).pSemAdd = 0)
    (h : Runs rest ⟨N.toQueues.block a p, { N.toGlobals with gCurrentProcess := none }⟩ Q E) :
    Runs (do
      let _ ← K.fromTables (·.insertBlocked a p)
      K.globals ({ · with gCurrentProcess := none })
      rest) N Q E := by
  intro s hs
  have h0 : (s.pcbs p).pSemAdd = 0 := by rw [hs.pcbs, hp]
  obtain ⟨t', ht', hq, he⟩ := Tables.insertBlocked_eq hs.queued ha h0
  have hn : ({ s with toTables := t', gCurrentProcess := none } : Kernel).Refines
      ⟨N.toQueues.block a p, { N.toGlobals with gCurrentProcess := none }⟩ :=
    ⟨hq, by rw [he, hs.queues], by rw [hs.globals], hs.tree.block a p, fun c hc => by cases hc⟩
  rw [ends_bind]
  show Ends (K.globals _ >>= fun _ => rest) { s with toTables := (s.toTables.insertBlocked a p).2 } _ _
  rw [ht', ends_bind]
  exact h _ hn

theorem blockCurrent (ha : a ≠ 0)
    (h : ∀ p, N.gCurrentProcess = some p → (N.suspend a p).Placed →
      E (N.suspend a p).schedule.1 (N.suspend a p).schedule.2)
    (hn : N.gCurrentProcess = none → E .fault N) : Runs (blockCurrent a) N Q E := by
  refine sound fun ⟨_, _, hc⟩ => Runs.bind (current (fun p hp => Runs.get fun s hs => ?_) hn)
  rw [hs.globals]
  refine Runs.bind (modPcb (fun _ => rfl) (fun _ => rfl) (Runs.bind (updateProcessTime ?_)))
  refine insertBlocked ha ?_ (scheduler (h p hp))
  simpa [Queues.modPcb] using (hc p hp).2

variable {L : Layout}

theorem load {Q : Word → Nucleus → Prop} (ha : a ≠ 0) (h : Q (N.load L a) N) :
    Runs (K.load L a) N Q E := by
  refine Runs.ite (fun h0 => absurd h0 ha) fun _ => Runs.get fun s hs => ?_
  rw [hs.globals]
  exact Runs.pure h

theorem semOp_null {free step : Word} (h : E .fault N) : Runs (semOp L free step 0) N Q E :=
  Runs.bind (Runs.bind (Runs.leave h))

/-- The three outcomes of an operation on a semaphore: it wakes the oldest
waiter, changes the value, or blocks the current process. -/
theorem semOp {free step : Word} (ha : a ≠ 0)
    (wake : N.load L a = free → ∀ p l, N.waiters a = p :: l → Q () (N.wakeUp p))
    (change : N.load L a = free → N.waiters a = [] → Q () (N.put L a (N.load L a + step)))
    (block : N.load L a ≠ free → ∀ p, N.gCurrentProcess = some p → (N.suspend a p).Placed →
      E (N.suspend a p).schedule.1 (N.suspend a p).schedule.2)
    (fault : N.load L a ≠ free → N.gCurrentProcess = none → E .fault N) :
    Runs (semOp L free step a) N Q E := by
  refine sound fun ⟨hp, _, hc⟩ => Runs.bind (load ha ?_)
  refine Runs.ite (fun hl => ?_) fun hl => blockCurrent ha (block hl) (fault hl)
  cases hw : N.waiters a with
  | nil =>
    refine Runs.bind (removeBlocked_nil hw ?_)
    exact globals (by simp) (change hl hw)
  | cons p l =>
    refine Runs.bind (removeBlocked_cons hw ?_)
    refine insertProcQ ?_ (fun hcp => ?_) (wake hl p l hw)
    · simp [Queues.wake, Queues.unlink, Queues.modPcb]
    · exact hp.not_waiting (hc p hcp).2 (by rw [hw]; simp)

/-! Where the value and the waiters are known, there is one outcome. -/

section
variable {free step : Word} {l : List Pcb}

theorem semOp_wakes (ha : a ≠ 0) (hl : N.load L a = free) (hw : N.waiters a = p :: l)
    (wake : N.Valid → Q () (N.wakeUp p)) : Runs (Pandos.semOp L free step a) N Q E := by
  apply sound
  intro hv
  apply semOp ha
  · intro _ q l' hq
    obtain ⟨rfl, -⟩ := List.cons.inj (hw.symm.trans hq)
    exact wake hv
  · intro _ hn
    cases hw.symm.trans hn
  · exact fun hn => absurd hl hn
  · exact fun hn => absurd hl hn

theorem semOp_changes (ha : a ≠ 0) (hl : N.load L a = free) (hw : N.waiters a = [])
    (change : Q () (N.put L a (free + step))) : Runs (Pandos.semOp L free step a) N Q E := by
  apply semOp ha
  · intro _ q l hq
    cases hw.symm.trans hq
  · intro _ _
    rwa [hl]
  · exact fun hn => absurd hl hn
  · exact fun hn => absurd hl hn

theorem semOp_blocks (ha : a ≠ 0) (hl : N.load L a ≠ free)
    (block : N.Valid → ∀ p, N.gCurrentProcess = some p → (N.suspend a p).Placed →
      E (N.suspend a p).schedule.1 (N.suspend a p).schedule.2)
    (fault : N.gCurrentProcess = none → E .fault N) : Runs (Pandos.semOp L free step a) N Q E := by
  apply sound
  intro hv
  apply semOp ha
  · exact fun h => absurd h hl
  · exact fun h => absurd h hl
  · exact fun _ => block hv
  · exact fun _ => fault

end

end Runs

end Pandos
