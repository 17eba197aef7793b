import Pandos.Reachable

/-!
# What is out of scope stays

An exception that does not work on a semaphore leaves its queue in order, but
for the processes it terminates; one that does not deal with a device or with
the clock leaves their words alone.
-/

namespace Pandos
open Intrusive

namespace Nucleus
variable {N : Nucleus} {p c : Pcb} {a : Word}

/-- What a request is, of a process. -/
def asked (N : Nucleus) (p : Pcb) : Word × Word := ((N.pcbs p).cmdAddr, (N.pcbs p).cmdValues)

theorem asked_suspend : (N.suspend a c).asked p = N.asked p := by
  by_cases hp : p = c
  · subst hp
    simp [asked, suspend, save, Queues.block, Queues.moveLast, Queues.modPcb]
  · simp [asked, suspend, save, Queues.block, Queues.moveLast, Queues.modPcb, hp]

theorem asked_schedule : N.schedule.2.asked p = N.asked p := by
  rw [asked, pcbs_schedule]
  rfl

theorem asked_complete {q : Pcb} : (((N.finish p).answer p a).ack a).asked q = N.asked q := by
  rw [asked, ack_toQueues]
  by_cases hq : q = p
  · simp [asked, answer, finish, Queues.modPcb, hq]
  · simp [asked, answer, finish, Queues.modPcb, hq]

theorem asked_preempt : (N.preempt c).asked p = N.asked p := by
  rw [asked, pcbs_preempt]
  split <;> rfl

end Nucleus

section
variable {L : Layout} {B : Scope} {N M : Nucleus} {a : Word} {d : Dev} {p : Pcb}

theorem Nucleus.waiters_schedule (hN : N.Placed) : N.schedule.2.waiters a = N.waiters a :=
  queue_schedule hN (by simp)

theorem Nucleus.waiters_suspend {c : Pcb} {b : Word} (hv : N.Valid)
    (hc : N.gCurrentProcess = some c) :
    (N.suspend a c).waiters b = if b = a then N.waiters b ++ [c] else N.waiters b := by
  have hn : N.queue.unlink c (.sem b) = N.waiters b :=
    Lists.unlink_of_not_mem (hv.placed.not_waiting (hv.current c hc).2)
  rw [Queues.waiters, Nucleus.queue_suspend, hn]
  simp

theorem Nucleus.waiters_preempt {c : Pcb} (hv : N.Valid) (hc : N.gCurrentProcess = some c) :
    (N.preempt c).waiters a = N.waiters a := by
  rw [Queues.waiters, Nucleus.queue_preempt, if_neg (by simp)]
  exact Lists.unlink_of_not_mem (hv.placed.not_waiting (hv.current c hc).2)

/-- A process in a queue of a semaphore is neither free nor the current one. -/
theorem Nucleus.Valid.waiter_apart (hv : N.Valid) (hp : p ∈ N.waiters a) :
    p ∉ N.free ∧ N.gCurrentProcess ≠ some p := by
  constructor
  · intro hf
    have hw : p ∈ N.queue (.sem a) := hp
    cases hv.placed.apart.unique hf hw
  · intro hc
    exact hv.placed.not_waiting (hv.current p hc).2 hp

theorem Move.waiters (h : Move L B N M) (ha : ¬B.sem a) : M.waiters a = N.waiters a := by
  have other : ∀ {k : Place} {q : Pcb}, N.Placed → q ∈ N.queue k → k ≠ .sem a →
      N.queue.unlink q (.sem a) = N.waiters a := fun hN hq hk => hN.apart.unlink_other hq hk.symm
  cases h.shift with
  | still h => exact h.waiters a
  | @wake b q l hN hb hw =>
    have hq : q ∈ N.queue (.sem b) := by
      rw [show N.queue (.sem b) = q :: l from hw]
      simp
    rw [Queues.waiters, Nucleus.queue_wakeUp, if_neg (by simp)]
    apply other hN.placed hq
    rintro ⟨⟩
    exact ha hb
  | @take e q l hN hb hw =>
    have hq : q ∈ N.queue (.sem (L.addr (.semMut e))) := by
      rw [show N.queue (.sem (L.addr (.semMut e))) = q :: l from hw]
      simp
    apply other hN.placed hq
    rintro ⟨⟩
    exact ha hb
  | @create c q l r hN _ _ _ hf =>
    have hq : q ∈ N.queue .free := by
      rw [show N.queue .free = q :: l from hf]
      simp
    rw [Queues.waiters, Nucleus.queue_create, if_neg (by simp)]
    exact other hN.placed hq (by simp)

theorem Moves.waiters (h : Moves L B N M) (ha : ¬B.sem a) : M.waiters a = N.waiters a := by
  induction h with
  | refl => rfl
  | tail _ h ih => exact (h.waiters ha).trans ih

theorem Move.clock_eq (h : Move L B N M) (hk : ¬B.clock) : M.gPseudoClock = N.gPseudoClock := by
  cases h with
  | quiet h => exact h.clock
  | device _ _ _ h => exact h
  | clock h => exact absurd h hk
  | charge | restart | wake | take | create => rfl

theorem Moves.clock_eq (h : Moves L B N M) (hk : ¬B.clock) : M.gPseudoClock = N.gPseudoClock := by
  induction h with
  | refl => rfl
  | tail _ h ih => exact (h.clock_eq hk).trans ih

theorem Move.sysiostate (h : Move L B N M) (hd : ¬B.device d) :
    M.gSysiostates d = N.gSysiostates d := by
  cases h with
  | quiet h => rw [h.sysiostates]
  | device he _ h =>
    apply h
    rintro rfl
    exact hd he
  | clock _ _ h => rw [h]
  | charge | restart | wake | take | create => rfl

theorem Moves.sysiostate (h : Moves L B N M) (hd : ¬B.device d) :
    M.gSysiostates d = N.gSysiostates d := by
  induction h with
  | refl => rfl
  | tail _ h ih => exact (h.sysiostate hd).trans ih

theorem Ending.clock_eq {e : Exit} (h : Ending L B N e M) (hk : ¬B.clock) :
    M.gPseudoClock = N.gPseudoClock := by
  obtain ⟨N', hmv, hl⟩ := h
  have hN' := hmv.clock_eq hk
  cases hl with
  | stay => exact hN'
  | block | preempt => rwa [Nucleus.globals_schedule]
  | kill _ _ hr => rwa [Nucleus.globals_schedule, hr.rest]

/-- The queue of a semaphore that is out of scope loses terminated processes
only. -/
theorem Ending.waiters {e : Exit} (h : Ending L B N e M) (ha : ¬B.sem a) :
    ∃ S : List Pcb, (∀ q ∈ S, q ∈ M.free) ∧ M.waiters a = (N.waiters a).filter (· ∉ S) := by
  obtain ⟨N', hmv, hl⟩ := h
  have hN' := hmv.waiters ha
  have none : ∀ {P : Nucleus}, P.waiters a = N.waiters a →
      ∃ S : List Pcb, (∀ q ∈ S, q ∈ P.free) ∧ P.waiters a = (N.waiters a).filter (· ∉ S) :=
    fun h => ⟨[], by simp, by simp [h]⟩
  cases hl with
  | stay => exact none hN'
  | @block b c hv hb _ hc hp =>
    apply none
    have hne : a ≠ b := by
      rintro rfl
      exact ha hb
    rw [Nucleus.waiters_schedule hp, Nucleus.waiters_suspend hv hc, if_neg hne, hN']
  | @preempt c hv _ hc hp =>
    apply none
    rw [Nucleus.waiters_schedule hp, Nucleus.waiters_preempt hv hc, hN']
  | @kill P S q _ _ hr _ hp =>
    refine ⟨S, fun q hq => ?_, ?_⟩
    · rw [Nucleus.free_schedule hp]
      exact hr.mem_free hq
    · rw [Nucleus.waiters_schedule hp, hr.waiters, hN']

/-- A process that is not terminated waits on. -/
theorem Ending.waits {e : Exit} (h : Ending L B N e M) (ha : ¬B.sem a) (hp : p ∈ N.waiters a)
    (hfree : p ∉ M.free) : p ∈ M.waiters a := by
  obtain ⟨S, hS, hw⟩ := h.waiters ha
  rw [hw]
  exact List.mem_filter.mpr ⟨hp, by simpa using fun hm => hfree (hS p hm)⟩

/-- Nobody becomes free when nobody is terminated. -/
theorem Ending.free {e : Exit} (h : Ending L B N e M) (hn : ∀ P p, ¬B.target P p) (hp : p ∈ M.free) :
    p ∈ N.free := by
  obtain ⟨N', hmv, hl⟩ := h
  apply hmv.free
  cases hl with
  | stay => exact hp
  | @block a c =>
    have hm := (N'.mem_suspend .free c a).mp (Nucleus.mem_of_mem_schedule hp)
    exact (hm.resolve_right (by simp)).1
  | @preempt c =>
    have hm := (N'.mem_preempt .free c).mp (Nucleus.mem_of_mem_schedule hp)
    exact (hm.resolve_right (by simp)).1
  | kill _ ht => exact absurd ht (hn _ _)

theorem Move.asked (h : Move L B N M) (hp : p ∉ N.free) (hc : N.gCurrentProcess ≠ some p) :
    M.asked p = N.asked p := by
  cases h.shift with
  | still h =>
    obtain ⟨ha, hv⟩ := h.request p hc
    rw [Nucleus.asked, ha, hv]
    rfl
  | wake =>
    rw [Nucleus.asked, Nucleus.pcbs_wakeUp]
    split <;> rfl
  | @take e q =>
    by_cases hq : p = q
    · simp [Nucleus.asked, Queues.wake, Queues.unlink, Queues.modPcb, hq]
    · simp [Nucleus.asked, Queues.wake, Queues.unlink, Queues.modPcb, hq]
  | @create c q l r _ _ _ _ hf =>
    have hne : p ≠ q := by
      rintro rfl
      simp [hf] at hp
    rw [Nucleus.asked, Nucleus.pcbs_create, if_neg hne]
    rfl

theorem Moves.asked (h : Moves L B N M) (hp : p ∉ N.free) (hc : N.gCurrentProcess ≠ some p) :
    M.asked p = N.asked p := by
  induction h with
  | refl => rfl
  | tail hmv h ih =>
    have hfree := fun hm => hp (Moves.free hmv hm)
    exact (h.asked hfree (by rwa [Moves.current hmv])).trans ih

/-- A process that does not execute keeps its request. -/
theorem Ending.asked {e : Exit} (h : Ending L B N e M) (hp : p ∉ N.free)
    (hc : N.gCurrentProcess ≠ some p) : M.asked p = N.asked p := by
  obtain ⟨N', hmv, hl⟩ := h
  have hN' := hmv.asked hp hc
  cases hl with
  | stay => exact hN'
  | block => rw [Nucleus.asked_schedule, Nucleus.asked_suspend, hN']
  | preempt => rw [Nucleus.asked_schedule, Nucleus.asked_preempt, hN']
  | kill _ _ hr =>
    rw [Nucleus.asked_schedule, ← hN', Nucleus.asked, hr.pcbs]
    split <;> rfl

end

end Pandos
