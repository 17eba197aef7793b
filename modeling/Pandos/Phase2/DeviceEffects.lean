import Pandos.Phase2.Effects

/-!
# What `devices.c` and the interrupt handlers do
-/

namespace Pandos
open Intrusive Outcome

namespace Globals
variable (g : Globals) (a v : Word) (n : Int)

/-- Writing commands touches registers and devices only. -/
theorem submit_eq : g.submit a v n =
    { g with bus := (g.submit a v n).bus, hw := (g.submit a v n).hw } := by
  unfold submit
  induction List.range n.toNat generalizing g with
  | nil => rfl
  | cons i l ih => exact ih (g.writeReg _ _)

/-- Reading registers back touches the memory of the process only. -/
theorem collect_eq : g.collect a v n = { g with mem := (g.collect a v n).mem } := by
  unfold collect
  induction List.range n.toNat generalizing g with
  | nil => rfl
  | cons i l ih => exact ih (g.writeMem _ _)

end Globals

namespace Nucleus
variable (L : Layout)

/-- `beginIo` up to its `PASSEREN`. -/
def start (N : Nucleus) (d : Dev) (p : Pcb) : Nucleus :=
  let r := N.pcbs p
  let g := (N.toGlobals.modDev d ({ · with waitingProcess := some p })).submit r.cmdAddr r.cmdValues
    (getNumRegister r.cmdAddr)
  ⟨N.toQueues, { g with gSoftBlockCount := N.gSoftBlockCount + 1 }⟩

/-- `endIo` for the process in I/O. -/
def finish (N : Nucleus) (p : Pcb) : Nucleus :=
  let r := N.pcbs p
  let g := N.toGlobals.collect r.cmdAddr r.cmdValues (getNumRegister r.cmdAddr)
  ⟨N.toQueues, { g with gSoftBlockCount := N.gSoftBlockCount - 1 }⟩

/-- `setReturnValue` for the process in I/O. -/
def answer (N : Nucleus) (p : Pcb) (devregAddr : Word) : Nucleus :=
  let success := if isTermReg devregAddr then transmitted ||| received else readyStatus
  ⟨N.modPcb p fun r =>
    { r with
      pS := r.pS.setRegV0 (if N.bus devregAddr &&& deviceStatusMask = success then 0 else -1) },
    N.toGlobals⟩

def ack (N : Nucleus) (devregAddr : Word) : Nucleus :=
  if devregAddr ≥ devregStartAddr ∧ devregAddr < termregEndAddr then
    ⟨N.toQueues, N.toGlobals.writeAck (devregAddr + 4)⟩
  else N

/-- `passDevice` when nobody waits for the device. -/
def release (N : Nucleus) (d : Dev) : Nucleus :=
  ⟨N.toQueues, N.toGlobals.modDev d fun r =>
    { r with waitingProcess := none, semMut := r.semMut + 1 }⟩

/-- The loop of `handleSysTimer`: everyone who waits for the clock is ready. -/
def drain (N : Nucleus) : Nucleus :=
  let woken := N.waiters (L.addr .clock)
  ⟨{ N.toQueues with
      pcbs := fun p => if p ∈ woken then { N.pcbs p with pSemAdd := 0 } else N.pcbs p
      queue := fun k =>
        if k = .ready then N.ready ++ woken else if k = .sem (L.addr .clock) then [] else N.queue k },
    { N.toGlobals with gSoftBlockCount := N.gSoftBlockCount - woken.length }⟩

def tick (N : Nucleus) : Nucleus :=
  ⟨(N.drain L).toQueues, { (N.drain L).toGlobals with gPseudoClock := 0 }⟩

/-- One turn of that loop. -/
def drainOne (N : Nucleus) (p : Pcb) : Nucleus :=
  ⟨(N.toQueues.wake p).moveLast .ready p,
    { N.toGlobals with gSoftBlockCount := N.gSoftBlockCount - 1 }⟩

variable {L} {N : Nucleus} {p : Pcb} {l : List Pcb}

theorem drain_nil (hw : N.waiters (L.addr .clock) = []) : N.drain L = N := by
  have hq : (fun k => if k = .ready then N.ready ++ [] else
      if k = .sem (L.addr .clock) then [] else N.queue k) = N.queue := by
    funext k
    split_ifs with hr hs
    · rw [hr, List.append_nil]
    · rw [hs, ← hw]
    · rfl
  have hg : (N.drain L).toGlobals = N.toGlobals := by simp [drain, hw]
  refine eq_of (Queues.ext ?_ (Eq.trans ?_ hq) rfl) hg
  · simp [drain, hw]
  · simp only [drain, hw]

theorem drainOne_queue (hp : N.Placed) (hw : N.waiters (L.addr .clock) = p :: l) :
    (N.drainOne p).queue = fun k => if k = .ready then N.ready ++ [p] else
      if k = .sem (L.addr .clock) then l else N.queue k := by
  have hmem : p ∈ N.waiters (L.addr .clock) := by rw [hw]; simp
  funext k
  have hk : N.queue.unlink p k = if k = .sem (L.addr .clock) then l else N.queue k := by
    split_ifs with hs
    · exact hs ▸ hp.apart.unlink_cons hw
    · exact hp.apart.unlink_other hmem hs
  have hwk : (N.toQueues.wake p).queue.unlink p k = N.queue.unlink p k :=
    Lists.unlink_of_not_mem fun hm => (Lists.mem_unlink.mp hm).2 rfl
  show ((N.toQueues.wake p).moveLast .ready p).queue k = _
  rw [Queues.queue_moveLast, hwk, hk]
  split_ifs with hr hs
  · subst hr; cases hs
  · rw [hr]
  · rfl
  · rfl

theorem drainOne_waiters (hp : N.Placed) (hw : N.waiters (L.addr .clock) = p :: l) :
    (N.drainOne p).waiters (L.addr .clock) = l := by
  rw [Queues.waiters, drainOne_queue hp hw]
  simp

theorem drain_cons (hp : N.Placed) (hw : N.waiters (L.addr .clock) = p :: l) :
    (N.drainOne p).drain L = N.drain L := by
  have hq := drainOne_queue hp hw
  have hclock := drainOne_waiters hp hw
  have hpcbs : (N.drainOne p).pcbs = Function.update N.pcbs p { N.pcbs p with pSemAdd := 0 } := rfl
  refine eq_of (Queues.ext ?_ ?_ rfl) ?_
  · funext q
    simp only [drain, hclock, hw, hpcbs]
    by_cases hqp : q = p
    · subst hqp
      simp
    · simp [hqp]
  · funext k
    simp only [drain, hclock, hw, hq, Queues.ready]
    split_ifs <;> simp_all
  · have hs : N.gSoftBlockCount - 1 - (l.length : Int) =
        N.gSoftBlockCount - ((p :: l).length : Int) := by
      rw [List.length_cons]
      omega
    simp only [drain, hclock, hw, ← hs]
    rfl

variable {a : Word}

theorem finish_gSysiostates : (N.finish p).gSysiostates = N.gSysiostates := by
  rw [finish, Globals.collect_eq]

theorem finish_gOldState : (N.finish p).gOldState = N.gOldState := by
  rw [finish, Globals.collect_eq]

theorem finish_gPseudoClock : (N.finish p).gPseudoClock = N.gPseudoClock := by
  rw [finish, Globals.collect_eq]

theorem ack_gPseudoClock : (N.ack a).gPseudoClock = N.gPseudoClock := by
  unfold ack
  split <;> rfl

theorem ack_gSysiostates : (N.ack a).gSysiostates = N.gSysiostates := by
  unfold ack
  split <;> rfl

theorem complete_gSysiostates :
    (((N.finish p).answer p a).ack a).gSysiostates = N.gSysiostates :=
  ack_gSysiostates.trans finish_gSysiostates

theorem ack_toQueues : (N.ack a).toQueues = N.toQueues := by
  unfold ack
  split <;> rfl

theorem ack_mem : (N.ack a).mem = N.mem := by
  unfold ack
  split <;> rfl

theorem ack_gSoftBlockCount : (N.ack a).gSoftBlockCount = N.gSoftBlockCount := by
  unfold ack
  split <;> rfl

theorem ack_gOldState : (N.ack a).gOldState = N.gOldState := by
  unfold ack
  split <;> rfl

end Nucleus

namespace Runs
variable {L : Layout} {N : Nucleus} {E : Exit → Nucleus → Prop} {Q : Unit → Nucleus → Prop}
  {p : Pcb} {d : Dev} {a : Word}

theorem beginIo (h : Runs (sysPasseren L (L.addr (.semSync d))) (N.start d p) Q E) :
    Runs (beginIo L d p) N Q E := by
  refine Runs.bind (globals rfl (Runs.get fun s hs => ?_))
  rw [hs.pcbs]
  refine Runs.bind (globals ?_ (Runs.bind (globals rfl ?_)))
  · rw [Globals.submit_eq]
  · refine (congrArg (Runs _ · Q E) ?_).mpr h
    rw [Nucleus.start, Globals.submit_eq]
    rfl

theorem endIo (h : ∀ p, (N.gSysiostates d).waitingProcess = some p → Q () (N.finish p))
    (hn : (N.gSysiostates d).waitingProcess = none → E .fault N) : Runs (endIo d) N Q E := by
  refine Runs.get fun s hs => ?_
  rw [hs.globals]
  refine Runs.bind (deref (fun p hp => Runs.get fun s hs => ?_) hn)
  rw [hs.pcbs]
  refine Runs.bind (globals ?_ (globals rfl ?_))
  · rw [Globals.collect_eq]
  · refine (congrArg (Q ()) ?_).mpr (h p hp)
    rw [Nucleus.finish, Globals.collect_eq]

theorem setReturnValue
    (h : ∀ p, (N.gSysiostates d).waitingProcess = some p → Q () (N.answer p a))
    (hn : (N.gSysiostates d).waitingProcess = none → E .fault N) :
    Runs (setReturnValue d a) N Q E := by
  refine Runs.get fun s hs => ?_
  rw [hs.globals]
  exact Runs.bind (deref (fun p hp => modPcb (fun _ => rfl) (fun _ => rfl) (h p hp)) hn)

theorem ackDevice (h : Q () (N.ack a)) : Runs (ackDevice a) N Q E := by
  unfold Nucleus.ack at h
  refine Runs.ite (fun hr => globals rfl ?_) fun hr => Runs.pure ?_
  · rwa [if_pos hr] at h
  · rwa [if_neg hr] at h

theorem passDevice (idle : N.waiters (L.addr (.semMut d)) = [] → Q () (N.release d))
    (pass : ∀ p l, N.waiters (L.addr (.semMut d)) = p :: l →
      Runs (Pandos.beginIo L d p) ⟨N.toQueues.wake p, N.toGlobals⟩ Q E) :
    Runs (passDevice L d) N Q E := by
  cases hw : N.waiters (L.addr (.semMut d)) with
  | nil => exact Runs.bind (removeBlocked_nil hw (globals rfl (idle hw)))
  | cons p l => exact Runs.bind (removeBlocked_cons hw (pass p l hw))

theorem serveDevice
    (stale : (N.gSysiostates d).semSync = -1 →
      Runs (sysVerhogen L (L.addr (.semSync d))) (N.ack a)
        (fun _ N' => Runs (Pandos.passDevice L d) N' Q E) E)
    (live : ∀ p, (N.gSysiostates d).semSync ≠ -1 → (N.gSysiostates d).waitingProcess = some p →
      Runs (sysVerhogen L (L.addr (.semSync d))) (((N.finish p).answer p a).ack a)
        (fun _ N' => Runs (Pandos.passDevice L d) N' Q E) E)
    (lost : (N.gSysiostates d).semSync ≠ -1 → (N.gSysiostates d).waitingProcess = none →
      E .fault N) :
    Runs (serveDevice L d a) N Q E := by
  refine Runs.get fun s hs => ?_
  rw [hs.globals]
  refine Runs.ite (fun hl => ?_) fun hl => ?_
  · refine Runs.bind (endIo (fun p hp => Runs.bind (setReturnValue (fun q hq => ?_) ?_)) (lost hl))
    · have hw : (N.finish p).gSysiostates = N.gSysiostates := by
        rw [Nucleus.finish, Globals.collect_eq]
      rw [hw, hp] at hq
      obtain rfl := Option.some.inj hq
      exact Runs.bind (ackDevice (Runs.bind (live p hl hp)))
    · intro hn
      rw [Nucleus.finish_gSysiostates, hp] at hn
      cases hn
  · exact Runs.bind (ackDevice (Runs.bind (stale (not_not.mp hl))))

theorem handleDeviceInt {deviceType : Nat}
    (none : findDevRegAddr N.bus deviceType = 0 → Q () N)
    (bad : ¬(0 ≤ resolveDeviceAddress (findDevRegAddr N.bus deviceType) ∧
      resolveDeviceAddress (findDevRegAddr N.bus deviceType) < deviceNumber) → E .fault N)
    (serve : ∀ d : Dev, findDevRegAddr N.bus deviceType ≠ 0 →
      resolveDeviceAddress (findDevRegAddr N.bus deviceType) = d.val →
      Runs (Pandos.serveDevice L d (findDevRegAddr N.bus deviceType)) N Q E) :
    Runs (handleDeviceInt L deviceType) N Q E := by
  refine Runs.get fun s hs => ?_
  rw [hs.globals]
  refine Runs.ite (fun h => Runs.pure (none h)) fun h => ?_
  exact Runs.bind (device (fun d hd => serve d h hd) bad)

theorem wakeClock {fuel : Nat} (hf : (N.waiters (L.addr .clock)).length < fuel)
    (h : Q () (N.drain L)) : Runs (wakeClock L fuel) N Q E := by
  induction fuel generalizing N with
  | zero => omega
  | succ fuel ih =>
    refine sound fun ⟨hp, _, hc⟩ => ?_
    cases hw : N.waiters (L.addr .clock) with
    | nil =>
      rw [Nucleus.drain_nil hw] at h
      exact Runs.bind (removeBlocked_nil hw (Runs.pure h))
    | cons p l =>
      rw [← Nucleus.drain_cons hp hw] at h
      have hmem : p ∈ N.waiters (L.addr .clock) := by rw [hw]; simp
      refine Runs.bind (removeBlocked_cons hw (Runs.bind (globals rfl (Runs.bind ?_))))
      refine insertProcQ ?_ (fun hcp => ?_) (ih ?_ h)
      · simp [Queues.wake, Queues.unlink, Queues.modPcb]
      · exact hp.not_waiting (hc p hcp).2 hmem
      · have hl := Nucleus.drainOne_waiters hp hw
        rw [Nucleus.drainOne] at hl
        rw [hw] at hf
        simp_all

theorem handleSysTimer (h : Q () (N.tick L)) : Runs (handleSysTimer L) N Q E := by
  refine sound fun ⟨hp, _, _⟩ => Runs.bind (wakeClock ?_ (globals rfl h))
  exact Nat.lt_succ_of_le ((hp.apart.nodup _).length_le_card.trans (by simp))

/-- To put the current process in the ready queue and forget it is one step. -/
theorem requeue {β : Type} {rest : K β} {Q : β → Nucleus → Prop} (hp : (N.pcbs p).pSemAdd = 0)
    (h : Runs rest ⟨N.toQueues.moveLast .ready p, { N.toGlobals with gCurrentProcess := none }⟩ Q E) :
    Runs (do
      K.tables (·.insertProcQ .gReadyQueue p)
      K.globals ({ · with gCurrentProcess := none })
      rest) N Q E := by
  intro s hs
  have h0 : (s.pcbs p).pSemAdd = 0 := by rw [hs.pcbs, hp]
  have hn : ({ s with toTables := s.insertProcQ .gReadyQueue p, gCurrentProcess := none } : Kernel).Refines
      ⟨N.toQueues.moveLast .ready p, { N.toGlobals with gCurrentProcess := none }⟩ :=
    ⟨Tables.insertProcQ_queued hs.queued h0, by rw [Tables.insertProcQ_queues hs.queued h0, hs.queues],
      by rw [hs.globals], hs.tree.moveLast (by simp) p, fun c hc => by cases hc⟩
  rw [ends_bind]
  show Ends (K.globals _ >>= fun _ => rest) _ _ _
  rw [ends_bind]
  exact h _ hn

theorem handleLocalTimer
    (h : ∀ p, N.gCurrentProcess = some p → (N.preempt p).Placed →
      E (N.preempt p).schedule.1 (N.preempt p).schedule.2)
    (hn : N.gCurrentProcess = none → E .fault N) : Runs handleLocalTimer N Q E := by
  refine sound fun ⟨_, _, hc⟩ => Runs.bind (current (fun p hp => Runs.get fun s hs => ?_) hn)
  rw [hs.globals]
  refine Runs.bind (modPcb (fun _ => rfl) (fun _ => rfl) (requeue ?_ (scheduler (h p hp))))
  simpa [Queues.modPcb] using (hc p hp).2

end Runs

end Pandos
