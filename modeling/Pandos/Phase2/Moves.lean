import Pandos.Phase2.Interrupts

/-!
# How processes move

Whatever an exception does, it moves processes in a few ways only: a `Move` goes
on inside the kernel, a `Leave` ends in the exit by which the kernel is left.
-/

namespace Pandos
open Intrusive Outcome

namespace Nucleus

/-- Nobody moves. -/
structure Still (N M : Nucleus) : Prop where
  queue : M.queue = N.queue
  pChild : M.pChild = N.pChild
  current : M.gCurrentProcess = N.gCurrentProcess
  count : M.gProcessCount = N.gProcessCount
  semAdd : ∀ p, (M.pcbs p).pSemAdd = (N.pcbs p).pSemAdd
  saved : ∀ p, (M.pcbs p).pS.inWait = (N.pcbs p).pS.inWait
  old : M.gOldState.inWait = N.gOldState.inWait
  request : ∀ p, N.gCurrentProcess ≠ some p → (M.pcbs p).cmdAddr = (N.pcbs p).cmdAddr ∧
    (M.pcbs p).cmdValues = (N.pcbs p).cmdValues

/-- Nor is any time accounted for. -/
structure Touch (N M : Nucleus) : Prop extends Still N M where
  time : ∀ p, (M.pcbs p).pTime = (N.pcbs p).pTime
  tod : M.gTod = N.gTod
  stck : M.stck = N.stck
  reads : N.stckReads ≤ M.stckReads

/-- Nor do the devices and the clock notice. -/
structure Quiet (N M : Nucleus) : Prop extends Touch N M where
  sysiostates : M.gSysiostates = N.gSysiostates
  clock : M.gPseudoClock = N.gPseudoClock
  soft : M.gSoftBlockCount = N.gSoftBlockCount
  hw : M.hw = N.hw

/-- The system call is taken as done. -/
def skip (N : Nucleus) : Nucleus :=
  ⟨N.toQueues,
    { N.toGlobals with gOldState := N.gOldState.setPcEpc (N.gOldState.pcEpc + 4) }⟩

/-- `STCK(g_tod)`. -/
def restart (N : Nucleus) : Nucleus :=
  ⟨N.toQueues, { N.toGlobals with gTod := N.stck N.stckReads, stckReads := N.stckReads + 1 }⟩

end Nucleus

/-- What an exception may do: the semaphores it works on, the devices it deals
with, whether it deals with the clock, the processes it makes and terminates,
whether it blocks or preempts the current process, and whether it is an
interrupt. -/
structure Scope where
  sem : Word → Prop
  device : Dev → Prop
  clock : Prop
  create : Pcb → Prop
  target : Nucleus → Pcb → Prop
  block : Prop
  preempt : Prop
  interrupt : Prop

/-- The words of the kernel that an exception may store to. -/
def Scope.word (B : Scope) : KernelWord → Prop
  | .clock => B.clock
  | .semMut d | .semSync d => B.device d

/-- It may store to the semaphore at `a`. -/
def Scope.Writes (L : Layout) (B : Scope) (a : Word) : Prop := ∀ w, L.kernelWord a = some w → B.word w

theorem Scope.writes_user {L : Layout} {B : Scope} {a : Word} (h : ¬L.KernelData a) :
    B.Writes L a := by
  intro w hw
  rw [Layout.kernelWord_user h] at hw
  cases hw

inductive Move (L : Layout) (B : Scope) : Nucleus → Nucleus → Prop
  | quiet {N M : Nucleus} : N.Quiet M → Move L B N M
  /-- Only device `d` notices. -/
  | device {N M : Nucleus} {d : Dev} : B.device d → N.Touch M →
      (∀ e, e ≠ d → M.gSysiostates e = N.gSysiostates e) → M.gPseudoClock = N.gPseudoClock →
      Move L B N M
  /-- Only the clock notices. -/
  | clock {N M : Nucleus} : B.clock → N.Touch M → M.gSysiostates = N.gSysiostates → M.hw = N.hw →
      Move L B N M
  | charge {N : Nucleus} : Move L B N N.charge
  | restart {N : Nucleus} : B.interrupt → Move L B N N.restart
  /-- The oldest waiter becomes ready. -/
  | wake {N : Nucleus} {a : Word} {p : Pcb} {l : List Pcb} : N.Valid → B.sem a →
      N.waiters a = p :: l → Move L B N (N.wakeUp p)
  /-- The oldest waiter for a device is taken off its queue. -/
  | take {N : Nucleus} {d : Dev} {p : Pcb} {l : List Pcb} : N.Valid →
      B.sem (L.addr (.semMut d)) → N.waiters (L.addr (.semMut d)) = p :: l →
      Move L B N ⟨N.toQueues.wake p, N.toGlobals⟩
  | create {N : Nucleus} {parent p : Pcb} {l : List Pcb} {r : PcbT} : N.Valid → B.create p →
      N.gCurrentProcess = some parent → parent ∉ N.free → N.free = p :: l →
      r.pS.inWait = false → r.pSemAdd = 0 → r.pTime = 0 → Move L B N (N.create parent p r)

abbrev Moves (L : Layout) (B : Scope) : Nucleus → Nucleus → Prop :=
  Relation.ReflTransGen (Move L B)

inductive Leave (L : Layout) (B : Scope) : Nucleus → Exit → Nucleus → Prop
  | stay {N : Nucleus} {e : Exit} : e ≠ .wait → e ≠ .halt → (∀ p, e ≠ .dispatch p) → Leave L B N e N
  | block {N : Nucleus} {a : Word} {c : Pcb} : N.Valid → B.sem a → B.block →
      N.gCurrentProcess = some c → (N.suspend a c).Placed →
      Leave L B N (N.suspend a c).schedule.1 (N.suspend a c).schedule.2
  | preempt {N : Nucleus} {c : Pcb} : N.Valid → B.preempt → N.gCurrentProcess = some c →
      (N.preempt c).Placed → Leave L B N (N.preempt c).schedule.1 (N.preempt c).schedule.2
  | kill {N M : Nucleus} {S : List Pcb} {p : Pcb} : N.Valid → B.target N p → Nucleus.Reaped L S N M →
      (∀ q, q ∈ S ↔ q = p ∨ N.Below p q) → M.Placed → Leave L B N M.schedule.1 M.schedule.2

/-- Some moves and an exit. -/
def Ending (L : Layout) (B : Scope) (N : Nucleus) (e : Exit) (M : Nucleus) : Prop :=
  ∃ N', Moves L B N N' ∧ Leave L B N' e M

/-- Anything may happen. -/
def anyScope : Scope :=
  ⟨fun _ => True, fun _ => True, True, fun _ => True, fun _ _ => True, True, True, True⟩

theorem Ending.moves {L : Layout} {B : Scope} {N M P : Nucleus} {e : Exit} (h : Moves L B N M)
    (he : Ending L B M e P) : Ending L B N e P :=
  he.imp fun _ hm => ⟨h.trans hm.1, hm.2⟩

theorem Ending.stay {L : Layout} {B : Scope} {N : Nucleus} {e : Exit} (hw : e ≠ .wait)
    (hh : e ≠ .halt) (hd : ∀ p, e ≠ .dispatch p) : Ending L B N e N :=
  ⟨N, .refl, .stay hw hh hd⟩

/-! ## Steps that move nothing -/

namespace Nucleus
variable (L : Layout) (N : Nucleus) (p : Pcb) (d : Dev) (a v : Word)

theorem Still.free {N M : Nucleus} (h : N.Still M) : M.free = N.free := congrFun h.queue _

theorem Still.ready {N M : Nucleus} (h : N.Still M) : M.ready = N.ready := congrFun h.queue _

theorem Still.waiters {N M : Nucleus} (h : N.Still M) (a : Word) : M.waiters a = N.waiters a :=
  congrFun h.queue _

theorem Still.trans {N M P : Nucleus} (h : N.Still M) (k : M.Still P) : N.Still P :=
  ⟨k.queue.trans h.queue, k.pChild.trans h.pChild, k.current.trans h.current,
    k.count.trans h.count, fun p => (k.semAdd p).trans (h.semAdd p),
    fun p => (k.saved p).trans (h.saved p), k.old.trans h.old, fun p hp =>
      have hp' := k.request p (h.current ▸ hp)
      ⟨hp'.1.trans (h.request p hp).1, hp'.2.trans (h.request p hp).2⟩⟩

theorem Touch.trans {N M P : Nucleus} (h : N.Touch M) (k : M.Touch P) : N.Touch P :=
  ⟨h.toStill.trans k.toStill, fun p => (k.time p).trans (h.time p), k.tod.trans h.tod, k.stck.trans h.stck,
    h.reads.trans k.reads⟩

/-- Only globals change. -/
theorem touch_globals {g : Globals} (hc : g.gCurrentProcess = N.gCurrentProcess)
    (hn : g.gProcessCount = N.gProcessCount) (ho : g.gOldState.inWait = N.gOldState.inWait)
    (ht : g.gTod = N.gTod) (hs : g.stck = N.stck) (hr : N.stckReads ≤ g.stckReads) :
    N.Touch ⟨N.toQueues, g⟩ :=
  ⟨⟨rfl, rfl, hc, hn, fun _ => rfl, fun _ => rfl, ho, fun _ _ => ⟨rfl, rfl⟩⟩, fun _ => rfl, ht, hs, hr⟩

theorem Quiet.refl : N.Quiet N :=
  ⟨N.touch_globals rfl rfl rfl rfl rfl le_rfl, rfl, rfl, rfl, rfl⟩

theorem Quiet.trans {N M P : Nucleus} (h : N.Quiet M) (k : M.Quiet P) : N.Quiet P :=
  ⟨h.toTouch.trans k.toTouch, k.sysiostates.trans h.sysiostates, k.clock.trans h.clock,
    k.soft.trans h.soft, k.hw.trans h.hw⟩

theorem quiet_modPcb {f : PcbT → PcbT} (hs : ∀ r, (f r).pSemAdd = r.pSemAdd)
    (hw : ∀ r, (f r).pS.inWait = r.pS.inWait) (ht : ∀ r, (f r).pTime = r.pTime)
    (hq : N.gCurrentProcess ≠ some p →
      ∀ r, (f r).cmdAddr = r.cmdAddr ∧ (f r).cmdValues = r.cmdValues) :
    N.Quiet ⟨N.modPcb p f, N.toGlobals⟩ := by
  have other : ∀ {α : Type} (field : PcbT → α), (∀ r, field (f r) = field r) →
      ∀ q, field ((N.modPcb p f).pcbs q) = field (N.pcbs q) := by
    intro α field hf q
    by_cases hq : q = p
    · subst hq
      simpa [Queues.modPcb] using hf _
    · simp [Queues.modPcb, hq]
  refine ⟨⟨⟨rfl, rfl, rfl, rfl, other _ hs, other (·.pS.inWait) hw, rfl, fun q hc => ?_⟩,
    other _ ht, rfl, rfl, le_rfl⟩, rfl, rfl, rfl, rfl⟩
  by_cases hqp : q = p
  · subst hqp
    exact ⟨other _ (fun r => (hq hc r).1) q, other _ (fun r => (hq hc r).2) q⟩
  · simp [Queues.modPcb, hqp]

/-- Only globals that nobody looks at change. -/
theorem quiet_globals {g : Globals} (ht : N.Touch ⟨N.toQueues, g⟩)
    (hs : g.gSysiostates = N.gSysiostates) (hk : g.gPseudoClock = N.gPseudoClock)
    (hb : g.gSoftBlockCount = N.gSoftBlockCount) (hh : g.hw = N.hw) : N.Quiet ⟨N.toQueues, g⟩ :=
  ⟨ht, hs, hk, hb, hh⟩

/-- Only the saved context and the memory of processes change. -/
theorem quiet_mem (m : Word → Word) (o : StateT) (ho : o.inWait = N.gOldState.inWait) :
    N.Quiet ⟨N.toQueues, { N.toGlobals with mem := m, gOldState := o }⟩ :=
  ⟨N.touch_globals rfl rfl ho rfl rfl le_rfl, rfl, rfl, rfl, rfl⟩

theorem quiet_put (ha : L.kernelWord a = none) : N.Quiet (N.put L a v) := by
  rw [put, Globals.store, ha]
  exact N.quiet_mem _ _ rfl

theorem quiet_answer : N.Quiet (N.answer p a) :=
  N.quiet_modPcb p (fun _ => rfl) (fun _ => rfl) (fun _ => rfl) fun _ _ => ⟨rfl, rfl⟩

theorem quiet_request (hc : N.gCurrentProcess = some p) : N.Quiet (N.request p a v) :=
  N.quiet_modPcb p (fun _ => rfl) (fun _ => rfl) (fun _ => rfl) fun h => absurd hc h

theorem quiet_clear : N.Quiet (N.clear a) := N.quiet_mem _ _ rfl

theorem quiet_skip : N.Quiet N.skip := N.quiet_mem _ _ rfl

theorem still_charge : N.Still N.charge :=
  ⟨rfl, rfl, rfl, rfl, fun q => by simp, fun q => by simp, rfl, fun q _ => by simp⟩

theorem still_restart : N.Still N.restart :=
  ⟨rfl, rfl, rfl, rfl, fun _ => rfl, fun _ => rfl, rfl, fun _ _ => ⟨rfl, rfl⟩⟩

theorem touch_put : N.Touch (N.put L a v) := by
  rw [put, Globals.store_eq]
  exact N.touch_globals rfl rfl rfl rfl rfl le_rfl

theorem touch_start : N.Touch (N.start d p) := by
  rw [start, Globals.submit_eq]
  exact N.touch_globals rfl rfl rfl rfl rfl le_rfl

theorem touch_finish : N.Touch (N.finish p) := by
  rw [finish, Globals.collect_eq]
  exact N.touch_globals rfl rfl rfl rfl rfl le_rfl

theorem touch_ack : N.Touch (N.ack a) := by
  unfold ack
  split <;> exact N.touch_globals rfl rfl rfl rfl rfl le_rfl

/-- What comes before the `VERHOGEN` of an interrupt. -/
theorem touch_complete : N.Touch (((N.finish p).answer p a).ack a) :=
  ((N.touch_finish p).trans (quiet_answer _ p a).toTouch).trans (touch_ack _ a)

theorem touch_release : N.Touch (N.release d) :=
  N.touch_globals rfl rfl rfl rfl rfl le_rfl

end Nucleus

/-- What a move does to the queues. -/
inductive Shift (L : Layout) (B : Scope) : Nucleus → Nucleus → Prop
  | still {N M : Nucleus} : N.Still M → Shift L B N M
  | wake {N : Nucleus} {a : Word} {p : Pcb} {l : List Pcb} : N.Valid → B.sem a →
      N.waiters a = p :: l → Shift L B N (N.wakeUp p)
  | take {N : Nucleus} {d : Dev} {p : Pcb} {l : List Pcb} : N.Valid →
      B.sem (L.addr (.semMut d)) → N.waiters (L.addr (.semMut d)) = p :: l →
      Shift L B N ⟨N.toQueues.wake p, N.toGlobals⟩
  | create {N : Nucleus} {parent p : Pcb} {l : List Pcb} {r : PcbT} : N.Valid → B.create p →
      N.gCurrentProcess = some parent → parent ∉ N.free → N.free = p :: l →
      r.pS.inWait = false → r.pSemAdd = 0 → Shift L B N (N.create parent p r)

theorem Move.shift {L : Layout} {B : Scope} {N M : Nucleus} (h : Move L B N M) : Shift L B N M := by
  cases h with
  | quiet h => exact .still h.toStill
  | device _ h => exact .still h.toStill
  | clock _ h => exact .still h.toStill
  | charge => exact .still N.still_charge
  | restart _ => exact .still N.still_restart
  | wake hN ha hw => exact .wake hN ha hw
  | take hN ha hw => exact .take hN ha hw
  | create hN hp hc hlive hf hr h0 => exact .create hN hp hc hlive hf hr h0

theorem Move.current {L : Layout} {B : Scope} {N M : Nucleus} (h : Move L B N M) :
    M.gCurrentProcess = N.gCurrentProcess := by
  cases h.shift with
  | still h => exact h.current
  | wake | take | create => rfl

theorem Moves.current {L : Layout} {B : Scope} {N M : Nucleus} (h : Moves L B N M) :
    M.gCurrentProcess = N.gCurrentProcess := by
  induction h with
  | refl => rfl
  | tail _ h ih => exact h.current.trans ih

section
variable {L : Layout} {B : Scope} (N : Nucleus) {d : Dev} {p : Pcb} {a v : Word}

theorem Move.put (hw : B.Writes L a) : Move L B N (N.put L a v) := by
  have ht := N.touch_put L a v
  cases hk : L.kernelWord a with
  | none => exact .quiet (N.quiet_put L a v hk)
  | some w =>
    have hstore : (N.put L a v).toGlobals = N.setWord w v := by
      rw [Nucleus.put, Globals.store, hk]
    have hB := hw w hk
    cases w with
    | clock => exact .clock hB ht (congrArg (·.gSysiostates) hstore) (congrArg (·.hw) hstore)
    | semMut d | semSync d =>
      refine .device hB ht (fun e he => ?_) (congrArg (·.gPseudoClock) hstore)
      rw [hstore]
      exact Function.update_of_ne he _ _

theorem Move.start (hd : B.device d) : Move L B N (N.start d p) := by
  refine .device hd (N.touch_start p d) (fun e he => ?_) ?_ <;> rw [Nucleus.start, Globals.submit_eq]
  · exact Function.update_of_ne he _ _
  · rfl

/-- Nothing of a device that the kernel keeps a record of changes. -/
theorem Move.touch {M : Nucleus} (hd : B.device d) (h : N.Touch M)
    (hs : M.gSysiostates = N.gSysiostates) (hk : M.gPseudoClock = N.gPseudoClock) : Move L B N M :=
  .device hd h (fun _ _ => by rw [hs]) hk

theorem Move.release (hd : B.device d) : Move L B N (N.release d) :=
  .device hd (N.touch_release d) (fun _ he => Function.update_of_ne he _ _) rfl

end

/-! ## The functions -/

namespace Runs
variable {α : Type} {L : Layout} {B : Scope} {N M : Nucleus} {x : K α} {c p : Pcb} {d : Dev}
  {a free step : Word}

/-- What comes after some moves. -/
theorem after {Q : α → Nucleus → Prop} (hm : Moves L B N M)
    (h : Runs x M (fun v M' => Moves L B M M' ∧ Q v M') (Ending L B M)) :
    Runs x M (fun v M' => Moves L B N M' ∧ Q v M') (Ending L B N) :=
  h.mono (fun _ _ hq => ⟨hm.trans hq.1, hq.2⟩) fun _ _ he => he.moves hm

theorem semOp_moves (hs : B.sem a) (hd : B.Writes L a) (ha : a ≠ 0)
    (hb : N.load L a ≠ free → B.block) :
    Runs (Pandos.semOp L free step a) N
      (fun _ M => Moves L B N M ∧ M.gOldState = N.gOldState) (Ending L B N) := by
  apply sound
  intro hv
  apply semOp ha
  · exact fun _ p l hw => ⟨.single (.wake hv hs hw), rfl⟩
  · exact fun _ _ => ⟨.single (.put N hd), by simp [Nucleus.put]⟩
  · exact fun hl c hc hp => ⟨N, .refl, .block hv hs (hb hl) hc hp⟩
  · exact fun _ _ => Ending.stay (by simp) (by simp) (by simp)

/-- `PASSEREN` and `VERHOGEN` of a process. -/
theorem userOp_moves (hs : a ≠ 0 → B.sem a ∧ B.Writes L a) (hb : B.block) :
    Runs (Pandos.semOp L free step a) N (fun _ M => Runs (Pure.pure (0 : Word)) M
      (fun _ M => Moves L B N M) (Ending L B N)) (Ending L B N) := by
  by_cases ha : a = 0
  · subst ha
    exact semOp_null (Ending.stay (by simp) (by simp) (by simp))
  · obtain ⟨hs, hd⟩ := hs ha
    exact (semOp_moves hs hd ha fun _ => hb).mono (fun _ _ h => Runs.pure h.1) fun _ _ => id

/-- The semaphores of a device can be stored to with the device. -/
theorem writes_device (hd : B.device d) :
    B.Writes L (L.addr (.semMut d)) ∧ B.Writes L (L.addr (.semSync d)) := by
  constructor <;> intro w hw <;> rw [L.kernelWord_addr] at hw <;> exact Option.some.inj hw ▸ hd

theorem writes_clock (hk : B.clock) : B.Writes L (L.addr .clock) := by
  intro w hw
  rw [L.kernelWord_addr] at hw
  exact Option.some.inj hw ▸ hk

theorem beginIO_moves (hd : B.device d) (hs : B.sem (L.addr (.semSync d)))
    (hb : (N.gSysiostates d).semSync ≠ 1 → B.block) :
    Runs (Pandos.beginIo L d p) N (fun _ M => Moves L B N M ∧ M.gOldState = N.gOldState)
      (Ending L B N) := by
  have hold : (N.start d p).gOldState = N.gOldState := by
    rw [Nucleus.start, Globals.submit_eq]
    rfl
  have hsync : (N.start d p).load L (L.addr (.semSync d)) = (N.gSysiostates d).semSync := by
    rw [Nucleus.start, Globals.submit_eq]
    simp [Globals.word, Globals.modDev]
  apply beginIo
  rw [← hold]
  exact after (.single (.start N hd))
    (semOp_moves hs (writes_device hd).2 (L.addr_ne_zero _) (hsync ▸ hb))

theorem passDevice_moves (hd : B.device d) (hm : B.sem (L.addr (.semMut d))) (hs : B.sem (L.addr (.semSync d)))
    (hb : N.waiters (L.addr (.semMut d)) ≠ [] → (N.gSysiostates d).semSync ≠ 1 → B.block) :
    Runs (Pandos.passDevice L d) N (fun _ M => Moves L B N M ∧ M.gOldState = N.gOldState)
      (Ending L B N) := by
  apply sound
  intro hv
  apply passDevice
  · exact fun _ => ⟨.single (.release N hd), rfl⟩
  · intro p l hw
    exact after (.single (.take hv hm hw)) (beginIO_moves hd hs (hb (by simp [hw])))

/-- The `VERHOGEN` of `handleDeviceInt` and what follows it. -/
theorem verhogen_moves (hd : B.device d) (hm : B.sem (L.addr (.semMut d)))
    (hs : B.sem (L.addr (.semSync d)))
    (hsync : (N.gSysiostates d).semSync ≠ 0 → B.block)
    (hpass : N.waiters (L.addr (.semMut d)) ≠ [] → N.waiters (L.addr (.semSync d)) ≠ [] → B.block) :
    Runs (sysVerhogen L (L.addr (.semSync d))) N
      (fun _ N' => Runs (Pandos.passDevice L d) N'
        (fun _ M => Moves L B N M ∧ M.gOldState = N.gOldState) (Ending L B N)) (Ending L B N) := by
  have hload : N.load L (L.addr (.semSync d)) = (N.gSysiostates d).semSync := by
    simp [Globals.word]
  apply sound
  intro hv
  apply semOp (L.addr_ne_zero _)
  · intro _ p l hw
    refine after (M := N.wakeUp p) (.single (.wake hv hs hw)) (passDevice_moves hd hm hs fun hne _ => ?_)
    refine hpass (fun hn => hne ?_) (by simp [hw])
    have hq : (N.wakeUp p).waiters (L.addr (.semMut d)) =
        ((N.waiters (L.addr (.semMut d))).filter (· ≠ p)).filter (· ≠ p) := by
      simp only [Nucleus.wakeUp, Queues.waiters, Queues.queue_moveLast, reduceCtorEq, if_false]
      rfl
    simp [hq, hn]
  · intro hl hw
    have hold : (N.put L (L.addr (.semSync d)) (N.load L (L.addr (.semSync d)) + 1)).gOldState =
        N.gOldState := Globals.store_gOldState
    rw [← hold]
    refine after (.single (.put N (writes_device hd).2)) (passDevice_moves hd hm hs fun _ hne => ?_)
    refine absurd ?_ hne
    rw [hl]
    simp [Nucleus.put, Globals.setWord, Globals.modDev]
  · exact fun hl c hc hp => ⟨N, .refl, .block hv hs (hsync (hload ▸ hl)) hc hp⟩
  · exact fun _ _ => Ending.stay (by simp) (by simp) (by simp)

theorem serveDevice_moves (hd : B.device d) (hm : B.sem (L.addr (.semMut d)))
    (hs : B.sem (L.addr (.semSync d)))
    (hsync : (N.gSysiostates d).Answers → (N.gSysiostates d).semSync ≠ 0 → B.block)
    (hpass : (N.gSysiostates d).Answers → N.waiters (L.addr (.semMut d)) ≠ [] →
      N.waiters (L.addr (.semSync d)) ≠ [] → B.block) :
    Runs (Pandos.serveDevice L d a) N (fun _ M => Moves L B N M ∧ M.gOldState = N.gOldState)
      (Ending L B N) := by
  -- whatever comes before the `VERHOGEN` touches neither the semaphores nor the queues
  have tail : (N.gSysiostates d).Answers → ∀ M : Nucleus, N.Touch M →
      M.gSysiostates = N.gSysiostates → M.gPseudoClock = N.gPseudoClock →
      M.gOldState = N.gOldState → Runs (sysVerhogen L (L.addr (.semSync d))) M
        (fun _ N' => Runs (Pandos.passDevice L d) N'
          (fun _ M => Moves L B N M ∧ M.gOldState = N.gOldState) (Ending L B N)) (Ending L B N) := by
    intro hl M ht hsys hk hold
    have hq : ∀ a, M.waiters a = N.waiters a := fun a => congrFun ht.queue _
    have hmv : Moves L B N M := .single (.touch N hd ht hsys hk)
    rw [← hold]
    refine (verhogen_moves hd hm hs (hsys ▸ hsync hl) ?_).mono ?_ fun _ _ he => he.moves hmv
    · rw [hq, hq]
      exact hpass hl
    intro _ N' h
    exact h.mono (fun _ _ hk => ⟨hmv.trans hk.1, hk.2⟩) fun _ _ he => he.moves hmv
  apply serveDevice
  · exact fun h => tail (.inl h) _ (N.touch_ack a) Nucleus.ack_gSysiostates Nucleus.ack_gPseudoClock
      Nucleus.ack_gOldState
  · intro p _ hw
    apply tail (.inr (by simp [hw])) _ (N.touch_complete p a)
    · exact Nucleus.complete_gSysiostates
    · exact Nucleus.ack_gPseudoClock.trans Nucleus.finish_gPseudoClock
    · exact Nucleus.ack_gOldState.trans Nucleus.finish_gOldState
  · exact fun _ _ => Ending.stay (by simp) (by simp) (by simp)

theorem wakeClock_moves {fuel : Nat} (hk : B.clock) (hs : B.sem (L.addr .clock)) :
    Runs (Pandos.wakeClock L fuel) N (fun _ M => Moves L B N M ∧ M.gOldState = N.gOldState)
      (Ending L B N) := by
  induction fuel generalizing N with
  | zero => exact Runs.leave (Ending.stay (by simp) (by simp) (by simp))
  | succ fuel ih =>
    apply sound
    intro hv
    cases hw : N.waiters (L.addr .clock) with
    | nil => exact Runs.bind (removeBlocked_nil hw (Runs.pure ⟨.refl, rfl⟩))
    | cons p l =>
      refine Runs.bind (removeBlocked_cons hw (Runs.bind (globals rfl (Runs.bind ?_))))
      have htouch : (N.wakeUp p).Touch (N.drainOne p) :=
        (N.wakeUp p).touch_globals rfl rfl rfl rfl rfl le_rfl
      have hmove : Moves L B N (N.drainOne p) :=
        .tail (.single (.wake hv hs hw)) (.clock hk htouch rfl rfl)
      refine insertProcQ ?_ (fun hcp => ?_) (after hmove ih)
      · simp [Queues.wake, Queues.unlink, Queues.modPcb]
      · exact hv.placed.not_waiting (hv.current p hcp).2 (by rw [hw]; simp)

theorem handleSysTimer_moves (hk : B.clock) (hs : B.sem (L.addr .clock)) :
    Runs (Pandos.handleSysTimer L) N (fun _ M => Moves L B N M ∧ M.gOldState = N.gOldState)
      (Ending L B N) := by
  refine Runs.bind ((wakeClock_moves hk hs).mono ?_ fun _ _ => id)
  rintro - M ⟨hm, hold⟩
  refine globals rfl ⟨hm.tail (.clock hk ?_ rfl rfl), hold⟩
  exact M.touch_globals rfl rfl rfl rfl rfl le_rfl

theorem handleLocalTimer_moves (hp : B.preempt) :
    Runs Pandos.handleLocalTimer N (fun _ M => Moves L B N M ∧ M.gOldState = N.gOldState)
      (Ending L B N) :=
  sound fun hv => handleLocalTimer (fun _ hc hpl => ⟨N, .refl, .preempt hv hp hc hpl⟩) fun _ =>
    Ending.stay (by simp) (by simp) (by simp)

end Runs

/-- What the pass that starts in `s` needs to be allowed. -/
structure Scope.Allows (L : Layout) (B : Scope) (s : Kernel) : Prop where
  clock : ∀ bit, firstLine s.gOldState.cause = some (bit, .sysTimer) →
    B.clock ∧ B.sem (L.addr .clock)
  preempt : ∀ bit, firstLine s.gOldState.cause = some (bit, .localTimer) → B.preempt
  device : ∀ d, s.Serves d →
    B.device d ∧ B.sem (L.addr (.semMut d)) ∧ B.sem (L.addr (.semSync d))
  stale : ∀ d, s.Serves d → (s.gSysiostates d).Answers → (s.gSysiostates d).semSync ≠ 0 → B.block
  pass : ∀ d, s.Serves d → (s.gSysiostates d).Answers → s.waiters (L.addr (.semMut d)) ≠ [] →
    s.waiters (L.addr (.semSync d)) ≠ [] → B.block

section
variable {L : Layout} {B : Scope} {s : Kernel} {N : Nucleus}

theorem serveLine_moves (hs : s.Refines N) (ha : B.Allows L s) :
    Runs (serveLine L) N
      (fun _ M => Moves L B N M ∧ M.gOldState.cause = served N.gOldState.cause) (Ending L B N) := by
  have hcause : s.gOldState.cause = N.gOldState.cause := by rw [hs.globals]
  refine Runs.serveLine (fun hf => ⟨.refl, by rw [served, hf]⟩) fun bit line hf => ?_
  have hmv : Moves L B N (N.clear bit) := .single (.quiet (N.quiet_clear bit))
  have hserved : (N.clear bit).gOldState.cause = served N.gOldState.cause := by
    rw [served, hf]
    rfl
  suffices h : Runs (handleLine L line) (N.clear bit)
      (fun _ M => Moves L B (N.clear bit) M ∧ M.gOldState = (N.clear bit).gOldState)
      (Ending L B (N.clear bit)) from
    h.mono (fun _ _ hq => ⟨hmv.trans hq.1, hq.2 ▸ hserved⟩) fun _ _ he => he.moves hmv
  cases line with
  | localTimer => exact Runs.handleLocalTimer_moves (ha.preempt bit (hcause ▸ hf))
  | sysTimer =>
    obtain ⟨hd, hc⟩ := ha.clock bit (hcause ▸ hf)
    exact Runs.handleSysTimer_moves hd hc
  | device deviceType =>
    refine Runs.handleDeviceInt ?_ ?_ fun d hd hres => ?_
    · exact fun _ => ⟨.refl, rfl⟩
    · exact fun _ => Ending.stay (by simp) (by simp) (by simp)
    · have hd' : s.Serves d := .of_line hs hf hd hres
      have hsys : s.gSysiostates = N.gSysiostates := by rw [hs.globals]
      obtain ⟨hdv, hm, hsy⟩ := ha.device d hd'
      apply Runs.serveDevice_moves hdv hm hsy
      · have h := ha.stale d hd'
        rwa [hsys] at h
      · have h := ha.pass d hd'
        rwa [hsys, hs.waiters, hs.waiters] at h

theorem anyScope_word (w : KernelWord) : anyScope.word w := by
  cases w <;> trivial

theorem anyScope_writes (a : Word) : anyScope.Writes L a := fun w _ => anyScope_word w

theorem anyScope_allows (u : Kernel) : anyScope.Allows L u :=
  ⟨fun _ _ => ⟨trivial, trivial⟩, fun _ _ => trivial, fun _ _ => ⟨trivial, trivial, trivial⟩,
    fun _ _ _ _ => trivial, fun _ _ _ _ _ => trivial⟩

/-- What is known of every pass of an interrupt. -/
theorem Pass.sound {u : Kernel} (h : Pass L s u) (hs : s.Refines N) :
    ∃ M, u.Refines M ∧ Moves L anyScope N M ∧
      ∃ mask, M.gOldState.cause = N.gOldState.cause &&& mask := by
  induction h generalizing N with
  | first s => exact ⟨N, hs, .refl, BitVec.allOnes 32, BitVec.and_allOnes.symm⟩
  | @again s t u hr _ _ ih =>
    obtain ⟨P, ht, hm, hc⟩ := (ends_of_ok hr).mp (serveLine_moves hs (anyScope_allows s) s hs)
    obtain ⟨M, hM, hm', mask, hmask⟩ := ih ht
    refine ⟨M, hM, hm.trans hm', ?_⟩
    rw [hmask, hc, served]
    split
    · exact ⟨~~~_ &&& mask, BitVec.and_assoc _ _ _⟩
    · exact ⟨mask, rfl⟩

/-- Only lines that were pending in the first place are served. -/
theorem Pass.line {u : Kernel} {bit : Word} {line : Line} (h : Pass L s u) (hs : s.Refines N)
    (hf : firstLine u.gOldState.cause = some (bit, line)) :
    (bit, line) ∈ interruptLines ∧ N.gOldState.cause &&& bit ≠ 0 := by
  obtain ⟨M, hM, -, mask, hmask⟩ := h.sound hs
  have hc : u.gOldState.cause = M.gOldState.cause := by rw [hM.globals]
  refine ⟨List.mem_of_find?_eq_some hf, fun h0 => (mem_lineBits hf).2 ?_⟩
  rw [hc, hmask, BitVec.and_assoc, BitVec.and_comm mask, ← BitVec.and_assoc, h0]
  exact BitVec.zero_and

theorem interruptHandler_moves (hs : s.Refines N) (hi : B.interrupt)
    (ha : ∀ u, Pass L s u → B.Allows L u) :
    Ends (interruptHandler L 7) s (fun _ _ => False)
      fun e s' => ∃ M, s'.Refines M ∧ Ending L B N e M := by
  refine interruptHandler_ends (I := fun u => ∃ M, u.Refines M ∧ Moves L B N M) ⟨N, hs, .refl⟩ ?_ ?_ ?_
  · exact Nat.lt_succ_of_le (pending_le _)
  · rintro u hu ⟨M, hM, hm⟩
    apply (serveLine_moves hM (ha u hu) u hM).mono
    · rintro - v ⟨M', hM', hm', hc⟩
      refine ⟨⟨M', hM', hm.trans hm'⟩, ?_⟩
      rw [hM'.globals, hc, hM.globals]
    · rintro e v ⟨M', hM', he⟩
      exact ⟨M', hM', he.moves hm⟩
  · rintro u ⟨M, hM, hm⟩
    refine ⟨⟨M.toQueues, { M.toGlobals with
      gTod := M.stck M.stckReads, stckReads := M.stckReads + 1 }⟩,
      ⟨hM.queued, hM.queues, by rw [hM.globals], hM.tree, hM.current⟩, ?_⟩
    exact Ending.moves (hm.tail (.restart hi)) (Ending.stay (by simp) (by simp) (by simp))

end

/-- What a system call needs to be allowed. -/
structure Scope.Calls (L : Layout) (B : Scope) (N : Nucleus) : Prop where
  block : B.block
  user : N.gOldState.regA0.toNat = 3 ∨ N.gOldState.regA0.toNat = 4 → N.gOldState.regA1 ≠ 0 →
    B.sem N.gOldState.regA1 ∧ B.Writes L N.gOldState.regA1
  clock : N.gOldState.regA0.toNat = 7 → B.clock ∧ B.sem (L.addr .clock)
  device : N.gOldState.regA0.toNat = 5 → ∀ d, resolveDeviceAddress N.gOldState.regA1 = d.val →
    B.device d ∧ B.sem (L.addr (.semMut d)) ∧ B.sem (L.addr (.semSync d))
  create : N.gOldState.regA0.toNat = 1 → ∀ p l, N.free = p :: l → B.create p
  target : N.gOldState.regA0.toNat = 2 → ∀ pid p, L.toPcb N.gOldState.regA1 = some pid →
    pid.or N.gCurrentProcess = some p → B.target N p
  die : ¬(1 ≤ N.gOldState.regA0.toNat ∧ N.gOldState.regA0.toNat ≤ 10) →
    ∀ p, N.gCurrentProcess = some p → (N.pcbs p).pSupportStruct = 0 → B.target N p

namespace Runs
variable {α : Type} {L : Layout} {B : Scope} {N : Nucleus} {c p : Pcb}

theorem sysTerminateProcess_moves {pid : Option Pcb} {Q : Unit → Nucleus → Prop}
    (hp : pid.or N.gCurrentProcess = some p) (ht : B.target N p) :
    Runs (Pandos.sysTerminateProcess L pid) N Q (Ending L B N) :=
  sound fun hv =>
    (sysTerminateProcess hp fun _ _ hr hS hpl _ _ => ⟨N, .refl, .kill hv ht hr hS hpl⟩).mono
      (fun _ _ => False.elim) fun _ _ => id

theorem passUpOrDie_moves {type : Nat} {Q : Unit → Nucleus → Prop}
    (hd : ∀ p, N.gCurrentProcess = some p → (N.pcbs p).pSupportStruct = 0 → B.target N p) :
    Runs (Pandos.passUpOrDie L type) N Q (Ending L B N) := by
  apply passUpOrDie
  · exact fun _ => Ending.stay (by simp) (by simp) (by simp)
  · exact fun c hc h0 => sysTerminateProcess_moves rfl (hd c hc h0)
  · intro c _ _ m a b d
    exact Ending.moves (.single (.quiet (N.quiet_mem m _ rfl)))
      (Ending.stay (by simp) (by simp) (by simp))

theorem sysDoIO_moves {cmdAddr cmdValues : Word} (hc : N.gCurrentProcess = some c) (hb : B.block)
    (hd : ∀ d, resolveDeviceAddress cmdAddr = d.val →
      B.device d ∧ B.sem (L.addr (.semMut d)) ∧ B.sem (L.addr (.semSync d))) :
    Runs (Pandos.sysDoIo L cmdAddr cmdValues) N (fun _ M => Moves L B N M) (Ending L B N) := by
  refine sysDoIo hc (fun _ => Ending.stay (by simp) (by simp) (by simp)) fun d hres => ?_
  obtain ⟨hdv, hm, hs⟩ := hd d hres
  have hreq : Moves L B N (N.request c cmdAddr cmdValues) :=
    .single (.quiet (N.quiet_request c cmdAddr cmdValues hc))
  refine (semOp_moves hm (writes_device hdv).1 (L.addr_ne_zero _) fun _ => hb).mono ?_ fun _ _ he => he.moves hreq
  rintro - M ⟨hM, -⟩
  refine ⟨c, hM.current.trans hc, (beginIO_moves hdv hs fun _ => hb).mono ?_ ?_⟩
  · exact fun _ _ h => hreq.trans (hM.trans h.1)
  · exact fun _ _ he => he.moves (hreq.trans hM)

theorem syscall_moves (hc : N.gCurrentProcess = some c) (hlive : c ∉ N.free) (hb : B.Calls L N) :
    Runs (syscall L N.gOldState.regA0 N.gOldState.regA1 N.gOldState.regA2 N.gOldState.regA3) N
      (fun _ M => Moves L B N M) (Ending L B N) := by
  apply sound
  intro hv
  unfold syscall
  split
  · next h =>
    unfold toPointer
    split
    · refine Runs.bind (Runs.pure (sysCreateProcess hc hlive (fun _ => .refl) fun p l hf => ?_))
      exact .single (.create hv (hb.create h p l hf) hc hlive hf rfl rfl rfl)
    · exact Runs.bind (Runs.leave (Ending.stay (by simp) (by simp) (by simp)))
  · next h =>
    unfold toPointer
    split
    · next pid hpid =>
      have hp : ∃ p, pid.or N.gCurrentProcess = some p := by
        cases pid with
        | none => exact ⟨c, hc⟩
        | some p => exact ⟨p, rfl⟩
      obtain ⟨p, hp⟩ := hp
      exact Runs.bind (Runs.pure (Runs.bind
        (sysTerminateProcess_moves hp (hb.target h pid p hpid hp))))
    · exact Runs.bind (Runs.leave (Ending.stay (by simp) (by simp) (by simp)))
  · next h =>
    exact Runs.bind (userOp_moves (hb.user (.inl h)) hb.block)
  · next h =>
    exact Runs.bind (userOp_moves (hb.user (.inr h)) hb.block)
  · next h => exact sysDoIO_moves hc hb.block (hb.device h)
  · refine sysGetTime hc (.single (.quiet (N.quiet_globals ?_ rfl rfl rfl rfl)))
    exact N.touch_globals rfl rfl rfl rfl rfl (Nat.le_succ _)
  · next h =>
    obtain ⟨hd, hs⟩ := hb.clock h
    refine Runs.bind (sysClockWait ?_)
    have hmv : Moves L B N ⟨N.toQueues, { N.toGlobals with gSoftBlockCount := N.gSoftBlockCount + 1 }⟩ :=
      .single (.clock hd (N.touch_globals rfl rfl rfl rfl rfl le_rfl) rfl rfl)
    exact (semOp_moves hs (writes_clock hd) (L.addr_ne_zero _) fun _ => hb.block).mono
      (fun _ _ h => Runs.pure (hmv.trans h.1)) fun _ _ he => he.moves hmv
  · exact sysGetSupportPtr hc .refl
  · exact sysGetProcessID hc fun _ => .refl
  · have hmv : ∀ m, Moves L B N ⟨N.toQueues, { N.toGlobals with mem := m }⟩ := fun m =>
      .single (.quiet (N.quiet_mem m _ rfl))
    refine Runs.bind (sysGetChildren hc (fun _ m => Runs.pure (hmv m)) fun m => ?_)
    exact Ending.moves (hmv m) (Ending.stay (by simp) (by simp) (by simp))
  · next h =>
    refine Runs.bind (passUpOrDie_moves (hb.die ?_))
    simp only [imp_false] at *
    omega

theorem syscallHandler_moves (hc : N.gCurrentProcess = some c) (hlive : c ∉ N.free)
    (hb : B.Calls L N) : Runs (Pandos.syscallHandler L) N (fun _ _ => False) (Ending L B N) := by
  refine syscallHandler ((syscall_moves hc hlive hb).mono (fun v M hm => ?_) fun _ _ => id)
  exact Ending.moves (hm.tail (.quiet (M.quiet_mem M.mem (M.gOldState.setRegV0 v) rfl)))
    (Ending.stay (by simp) (by simp) (by simp))

end Runs

section
variable {L : Layout} {B : Scope} {s : Kernel} {N : Nucleus}

theorem updateProcessTime_ok (hs : s.Refines N) :
    updateProcessTime s = .ok () s.charged ∧ s.charged.Refines N.charge := by
  have h := Runs.updateProcessTime (Q := fun _ M => M = N.charge) (E := fun _ _ => False) rfl s hs
  unfold Kernel.charged final
  cases hr : updateProcessTime s with
  | ok _ t =>
    obtain ⟨_, hM, rfl⟩ := (ends_of_ok hr).mp h
    exact ⟨rfl, hM⟩
  | error e t =>
    obtain ⟨_, _, hf⟩ := (ends_of_error hr).mp h
    exact hf.elim

/-- What an exception in the state `s` needs to be allowed. -/
structure Scope.Covers (L : Layout) (B : Scope) (s : Kernel) : Prop where
  int : excCode s.gOldState.cause = 0 → B.interrupt ∧ ∀ u, Pass L s.charged u → B.Allows L u
  sys : excCode s.gOldState.cause = 8 → ∀ N, s.Refines N → B.Calls L N.skip
  die : excCode s.gOldState.cause ≠ 0 → excCode s.gOldState.cause ≠ 8 → ∀ N, s.Refines N →
    ∀ p, N.gCurrentProcess = some p → (N.pcbs p).pSupportStruct = 0 → B.target N p
  current : excCode s.gOldState.cause ≠ 0 → ∃ c, s.gCurrentProcess = some c ∧ c ∉ s.free

/-- An interrupt first charges the current process for its time. -/
theorem interrupt_moves (hs : s.Refines N) (h0 : excCode s.gOldState.cause = 0) (hi : B.interrupt)
    (ha : ∀ u, Pass L s.charged u → B.Allows L u) :
    Ends (exceptionHandler L) s (fun _ _ => False)
      fun e s' => ∃ M, s'.Refines M ∧ Ending L B N.charge e M := by
  obtain ⟨hok, href⟩ := updateProcessTime_ok hs
  rw [ends_congr (exceptionHandler_interrupt h0), ends_bind, ends_of_ok hok]
  exact interruptHandler_moves href hi ha

theorem skip_refines (hs : s.Refines N) :
    { s with gOldState := s.gOldState.setPcEpc (s.gOldState.pcEpc + 4) }.Refines N.skip := by
  refine ⟨hs.queued, hs.queues, ?_, hs.tree, hs.current⟩
  simp only [Nucleus.skip, hs.globals]

/-- An exception moves processes within its scope and leaves the kernel. -/
theorem exceptionHandler_moves (hs : s.Refines N) (hc : B.Covers L s) :
    Ends (exceptionHandler L) s (fun _ _ => False)
      fun e s' => ∃ M, s'.Refines M ∧ Ending L B N e M := by
  have hcur : s.gCurrentProcess = N.gCurrentProcess := by rw [hs.globals]
  by_cases h0 : excCode s.gOldState.cause = 0
  · refine (interrupt_moves hs h0 (hc.int h0).1 (hc.int h0).2).mono (fun _ _ => id) ?_
    rintro e t ⟨M, hM, he⟩
    exact ⟨M, hM, he.moves (.single .charge)⟩
  by_cases h8 : excCode s.gOldState.cause = 8
  · obtain ⟨c, hcc, hlive⟩ := hc.current h0
    rw [hcur] at hcc
    rw [hs.free] at hlive
    have hcall := Runs.syscallHandler_moves (N := N.skip) hcc hlive (hc.sys h8 N hs)
    rw [ends_congr (exceptionHandler_syscall h8)]
    refine (hcall.leaves (skip_refines hs)).mono (fun _ _ => id) ?_
    rintro e t ⟨M, hM, he⟩
    exact ⟨M, hM, he.moves (.single (.quiet N.quiet_skip))⟩
  · rw [ends_congr (exceptionHandler_trap h0 h8)]
    exact (Runs.passUpOrDie_moves (hc.die h0 h8 N hs)).leaves hs

end

end Pandos
