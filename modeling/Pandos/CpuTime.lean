import Mathlib.Algebra.Order.BigOperators.Group.Finset
import Pandos.Scenario

/-!
# Processor time

Every read of the clock that starts an account, `g_tod`, ends the one before:
no time is charged to two processes, and the time a process has used never goes
back.
-/

namespace Pandos
open Intrusive

/-- The clock never goes back and does not wrap. -/
structure Ticks (stck : Nat → Word) : Prop where
  mono : ∀ i j, i ≤ j → (stck i).toNat ≤ (stck j).toNat
  bound : ∀ i, (stck i).toNat < 2 ^ 31

namespace Nucleus

/-- The time charged to all processes. -/
def total (N : Nucleus) : Nat := ∑ p, (N.pcbs p).pTime.toNat

/-- `g_tod` has been read, and what has been charged is what was read since the
first read. -/
structure Accounts (N : Nucleus) : Prop where
  read : ∃ i < N.stckReads, N.gTod = N.stck i
  sum : (N.stck 0).toNat + N.total ≤ N.gTod.toNat

section
variable {N M : Nucleus} {p : Pcb}

theorem total_le (h : ∀ p, (M.pcbs p).pTime.toNat ≤ (N.pcbs p).pTime.toNat) : M.total ≤ N.total :=
  Finset.sum_le_sum fun p _ => h p

theorem Accounts.time_le (h : N.Accounts) (p : Pcb) : (N.pcbs p).pTime.toNat ≤ N.gTod.toNat := by
  have hle : (N.pcbs p).pTime.toNat ≤ N.total :=
    Finset.single_le_sum (f := fun p => (N.pcbs p).pTime.toNat) (fun _ _ => Nat.zero_le _)
      (Finset.mem_univ p)
  have := h.sum
  omega

/-- `g_tod` is not after the last read, nor after one to come. -/
theorem Accounts.tod_le (h : N.Accounts) (ht : Ticks N.stck) {k : Nat} (hk : N.stckReads ≤ k + 1) :
    N.gTod.toNat ≤ (N.stck k).toNat := by
  obtain ⟨i, hi, he⟩ := h.read
  rw [he]
  exact ht.mono i k (by omega)

/-- What is charged is no more than `g_tod` advances. -/
theorem Accounts.advance (h : N.Accounts) (hs : M.stck = N.stck)
    (hr : ∃ i < M.stckReads, M.gTod = N.stck i)
    (ht : M.total + N.gTod.toNat ≤ N.total + M.gTod.toNat) : M.Accounts := by
  have hsum := h.sum
  refine ⟨hs ▸ hr, ?_⟩
  rw [hs]
  omega

/-- No time is charged and `g_tod` stays. -/
theorem Accounts.keep (h : N.Accounts) (hs : M.stck = N.stck) (hg : M.gTod = N.gTod)
    (hr : N.stckReads ≤ M.stckReads)
    (ht : ∀ p, (M.pcbs p).pTime.toNat ≤ (N.pcbs p).pTime.toNat) : M.Accounts := by
  obtain ⟨i, hi, he⟩ := h.read
  refine h.advance hs ⟨i, by omega, hg.trans he⟩ ?_
  rw [hg]
  exact Nat.add_le_add_right (total_le ht) _

/-- No time is charged and `g_tod` is read anew. -/
theorem Accounts.renew (h : N.Accounts) (ht : Ticks N.stck) (hs : M.stck = N.stck)
    (hg : M.gTod = N.stck N.stckReads) (hr : N.stckReads < M.stckReads)
    (hp : ∀ p, (M.pcbs p).pTime.toNat ≤ (N.pcbs p).pTime.toNat) : M.Accounts := by
  refine h.advance hs ⟨_, hr, hg⟩ ?_
  have hle := h.tod_le ht (k := N.stckReads) (by omega)
  rw [hg]
  exact Nat.add_le_add (total_le hp) hle

/-- The current process is charged for the time since `g_tod`. -/
theorem Accounts.charge_time (h : N.Accounts) (ht : Ticks N.stck) (hc : N.gCurrentProcess = some p) :
    (N.charge.pcbs p).pTime.toNat + N.gTod.toNat =
      (N.pcbs p).pTime.toNat + (N.stck N.stckReads).toNat := by
  have htime : (N.charge.pcbs p).pTime = (N.pcbs p).pTime + (N.stck N.stckReads - N.gTod) := by
    simp [charge, hc]
  have hle := h.tod_le ht (k := N.stckReads) (by omega)
  have hp := h.time_le p
  have hb := ht.bound N.stckReads
  rw [htime, BitVec.toNat_add, BitVec.toNat_sub]
  omega

theorem charge_time_other (hc : N.gCurrentProcess ≠ some p) :
    (N.charge.pcbs p).pTime = (N.pcbs p).pTime := by
  simp [charge, hc]

theorem charge_time_le (h : N.Accounts) (ht : Ticks N.stck) (p : Pcb) :
    (N.pcbs p).pTime.toNat ≤ (N.charge.pcbs p).pTime.toNat := by
  by_cases hc : N.gCurrentProcess = some p
  · have := h.charge_time ht hc
    have := h.tod_le ht (k := N.stckReads) (by omega)
    omega
  · rw [charge_time_other hc]

theorem Accounts.charge (h : N.Accounts) (ht : Ticks N.stck) : N.charge.Accounts := by
  cases hc : N.gCurrentProcess with
  | none =>
    rw [charge_none hc]
    exact h.renew ht rfl rfl (Nat.lt_succ_self _) fun _ => le_rfl
  | some c =>
    have hg : N.charge.gTod = N.stck (N.stckReads + 1) := by rw [charge_some hc]
    have hr : N.charge.stckReads = N.stckReads + 2 := by rw [charge_some hc]
    refine h.advance rfl ⟨N.stckReads + 1, by omega, hg⟩ ?_
    have hcharge := h.charge_time ht hc
    have hmono := ht.mono N.stckReads (N.stckReads + 1) (by omega)
    have hsplit : ∀ P : Nucleus, P.total = (P.pcbs c).pTime.toNat +
        ∑ q ∈ Finset.univ.erase c, (P.pcbs q).pTime.toNat := fun P =>
      (Finset.add_sum_erase _ (fun q => (P.pcbs q).pTime.toNat) (Finset.mem_univ c)).symm
    have hother : ∑ q ∈ Finset.univ.erase c, (N.charge.pcbs q).pTime.toNat =
        ∑ q ∈ Finset.univ.erase c, (N.pcbs q).pTime.toNat := by
      apply Finset.sum_congr rfl
      intro q hq
      rw [charge_time_other fun hcq => (Finset.mem_erase.mp hq).1
        (Option.some.inj (hcq.symm.trans hc))]
    rw [hsplit N, hsplit N.charge, hother, hg]
    omega

end

/-- What is read of the time is the same. -/
theorem pTime_suspend (N : Nucleus) (a : Word) (c q : Pcb) :
    ((N.suspend a c).pcbs q).pTime = ((N.save c).charge.pcbs q).pTime := by
  by_cases hq : q = c
  · subst hq
    simp [suspend, Queues.block, Queues.moveLast, Queues.modPcb]
  · simp [suspend, Queues.block, Queues.moveLast, Queues.modPcb, hq]

theorem pTime_save (N : Nucleus) (c q : Pcb) : ((N.save c).pcbs q).pTime = (N.pcbs q).pTime := by
  by_cases hq : q = c
  · subst hq
    simp [save, Queues.modPcb]
  · simp [save, Queues.modPcb, hq]

section
variable {N M : Nucleus} {p c : Pcb} {a : Word}

theorem Accounts.save (h : N.Accounts) : (N.save c).Accounts := by
  refine h.keep rfl rfl le_rfl fun q => ?_
  rw [pTime_save]

theorem Accounts.suspend (h : N.Accounts) (ht : Ticks N.stck) : (N.suspend a c).Accounts := by
  have hs : (N.save c).charge.Accounts := h.save.charge ht
  refine hs.keep rfl rfl le_rfl fun q => ?_
  rw [pTime_suspend]

theorem Accounts.preempt (h : N.Accounts) : (N.preempt c).Accounts := by
  refine h.keep rfl rfl le_rfl fun q => ?_
  rw [pcbs_preempt]
  split <;> exact le_rfl

theorem Accounts.reap {L : Layout} {S : List Pcb} (h : N.Accounts) (hr : Reaped L S N M) :
    M.Accounts := by
  apply h.keep
  · rw [hr.rest]
  · rw [hr.rest]
  · rw [hr.rest]
  · intro q
    rw [hr.pcbs]
    split <;> exact le_rfl

theorem Accounts.schedule (h : N.Accounts) (ht : Ticks N.stck) : N.schedule.2.Accounts := by
  cases hr : N.ready with
  | nil =>
    rw [schedule_nil hr]
    exact h
  | cons p l =>
    rw [schedule_cons hr]
    exact h.renew ht rfl rfl (Nat.lt_succ_self _) fun _ => le_rfl

theorem stck_schedule : N.schedule.2.stck = N.stck := by
  rw [globals_schedule]

end

end Nucleus

section
variable {L : Layout} {B : Scope} {N M : Nucleus}

theorem Move.stck (h : Move L B N M) : M.stck = N.stck := by
  cases h with
  | quiet h => exact h.stck
  | device _ h => exact h.stck
  | clock _ h => exact h.stck
  | charge | restart | wake | take | create => rfl

theorem Move.accounts (h : Move L B N M) (hN : N.Accounts) (ht : Ticks N.stck) : M.Accounts := by
  have touch : N.Touch M → M.Accounts := fun h =>
    hN.keep h.stck h.tod h.reads fun p => (congrArg BitVec.toNat (h.time p)).le
  cases h with
  | quiet h => exact touch h.toTouch
  | device _ h => exact touch h
  | clock _ h => exact touch h
  | charge => exact hN.charge ht
  | restart => exact hN.renew ht rfl rfl (Nat.lt_succ_self _) fun _ => le_rfl
  | wake =>
    refine hN.keep rfl rfl le_rfl fun q => ?_
    rw [Nucleus.pcbs_wakeUp]
    split <;> exact le_rfl
  | @take d p =>
    refine hN.keep rfl rfl le_rfl fun q => ?_
    by_cases hq : q = p
    · simp [Queues.wake, Queues.unlink, Queues.modPcb, hq]
    · simp [Queues.wake, Queues.unlink, Queues.modPcb, hq]
  | create _ _ _ _ _ _ _ h0 =>
    refine hN.keep rfl rfl le_rfl fun q => ?_
    rw [Nucleus.pcbs_create]
    split
    · simp [h0]
    · exact le_rfl

theorem Moves.stck (h : Moves L B N M) : M.stck = N.stck := by
  induction h with
  | refl => rfl
  | tail _ h ih => exact h.stck.trans ih

theorem Moves.accounts (h : Moves L B N M) (hN : N.Accounts) (ht : Ticks N.stck) : M.Accounts := by
  induction h with
  | refl => exact hN
  | tail hmv h ih => exact h.accounts ih (Moves.stck hmv ▸ ht)

theorem Ending.stck {e : Exit} (h : Ending L B N e M) : M.stck = N.stck := by
  obtain ⟨N', hmv, hl⟩ := h
  cases hl with
  | stay => exact hmv.stck
  | block | preempt => exact Nucleus.stck_schedule.trans hmv.stck
  | kill _ _ hr =>
    rw [Nucleus.stck_schedule, hr.rest]
    exact hmv.stck

theorem Ending.accounts {e : Exit} (h : Ending L B N e M) (hN : N.Accounts) (ht : Ticks N.stck) :
    M.Accounts := by
  obtain ⟨N', hmv, hl⟩ := h
  have hN' := hmv.accounts hN ht
  have ht' : Ticks N'.stck := hmv.stck ▸ ht
  cases hl with
  | stay => exact hN'
  | block => exact (hN'.suspend ht').schedule ht'
  | preempt => exact hN'.preempt.schedule ht'
  | kill _ _ hr =>
    apply (hN'.reap hr).schedule
    rw [hr.rest]
    exact ht'

end

namespace Machine
variable {L : Layout} {ok : Machine → Event → Prop} {m : Machine} {N : Nucleus}

theorem booted_accounts {mem : Word → Word} {p : Pcb} (h : Booted mem p N) : N.Accounts := by
  refine ⟨⟨0, by rw [h.reads]; decide, h.tod⟩, ?_⟩
  have htotal : N.total = 0 := by simp [Nucleus.total, h.time]
  rw [htotal, h.tod]
  exact le_rfl

/-- The accounts are right in every run. -/
theorem Reachable.accounts (h : Reachable L ok m) :
    ∃ N, m.Sound N ∧ (Ticks N.stck → N.Accounts) := by
  refine h.invariant (I := fun _ N => Ticks N.stck → N.Accounts) ?_ ?_ ?_
  · exact fun hb _ => booted_accounts hb
  · intro N _ hI ht
    rw [Nucleus.stck_schedule] at ht
    exact (hI ht).schedule ht
  · intro m N t hS hI he _
    obtain ⟨e, s', M, hstep, hM, hend⟩ := step_exception hS.refines (hS.covers_any he (L := L))
    refine ⟨e, s', M, hstep, hM, fun ht => ?_⟩
    have ht' : Ticks N.stck := hend.stck ▸ ht
    exact hend.accounts ⟨(hI ht').read, (hI ht').sum⟩ ht'

end Machine

/-! ## What `GETTIME` returned -/

namespace Nucleus

/-- `p` has been charged for the time `v`. -/
def Charged (v : Nat) (p : Pcb) (N : Nucleus) : Prop := v ≤ (N.pcbs p).pTime.toNat

/-- `p` will have been charged for it when it is charged next. -/
def Running (v : Nat) (p : Pcb) (N : Nucleus) : Prop :=
  v + N.gTod.toNat ≤ (N.pcbs p).pTime.toNat + (N.stck (N.stckReads - 1)).toNat

/-- `p` will not execute again: it is in no queue, or what has been saved is the
`WAIT` loop. -/
def Stranded (p : Pcb) (N : Nucleus) : Prop :=
  p ∉ N.ready ∧ (N.pcbs p).pSemAdd = 0 ∨ (N.pcbs p).pS.inWait = true

/-- What a process is owed, to which `GETTIME` has returned `v`. -/
structure Owes (v : Nat) (p : Pcb) (mode : Mode) (N : Nucleus) : Prop where
  running : mode = .running p → N.Running v p
  other : mode ≠ .running p → N.Charged v p ∨ N.Stranded p

variable {N M : Nucleus} {v : Nat} {p : Pcb}

theorem Charged.running (h : N.Charged v p) (ha : N.Accounts) (ht : Ticks N.stck) :
    N.Running v p := by
  obtain ⟨i, hi, -⟩ := ha.read
  have hle := ha.tod_le ht (k := N.stckReads - 1) (by omega)
  exact Nat.add_le_add h hle

/-- The scheduler dispatches `p` with the time it has been charged for. -/
theorem Owes.schedule (h : N.Charged v p ∨ N.Stranded p) (mode : Mode) :
    N.schedule.2.Owes v p (Machine.resume mode N.schedule.2.pcbs N.schedule.1) := by
  have hother : N.schedule.2.Charged v p ∨ N.schedule.2.Stranded p := by
    apply h.imp
    · intro hc
      rwa [Charged, pcbs_schedule]
    · rintro (⟨hr, h0⟩ | hw)
      · refine .inl ⟨fun hm => hr (mem_of_mem_schedule hm), ?_⟩
        rwa [pcbs_schedule]
      · exact .inr (by rwa [pcbs_schedule])
  refine ⟨fun hm => ?_, fun _ => hother⟩
  rcases Machine.resume_running hm with he | ⟨he, -⟩
  · obtain ⟨⟨l, hr⟩, hs⟩ := schedule_dispatch he
    rw [he, Machine.resume, pcbs_schedule] at hm
    rcases h with hc | ⟨hn, -⟩ | hw
    · rw [hs, Running]
      exact Nat.add_le_add_right hc _
    · simp [hr] at hn
    · simp [hw] at hm
  · exact absurd he N.schedule_not_returns

end Nucleus

section
variable {L : Layout} {B : Scope} {N M : Nucleus} {v : Nat} {p : Pcb}

theorem Move.time_le (h : Move L B N M) (hN : N.Accounts) (ht : Ticks N.stck) (hp : p ∉ N.free) :
    (N.pcbs p).pTime.toNat ≤ (M.pcbs p).pTime.toNat := by
  cases h with
  | quiet h => rw [h.time]
  | device _ h => rw [h.time]
  | clock _ h => rw [h.time]
  | charge => exact Nucleus.charge_time_le hN ht p
  | restart => exact le_rfl
  | wake =>
    rw [Nucleus.pcbs_wakeUp]
    split <;> exact le_rfl
  | @take d q =>
    by_cases hq : p = q
    · simp [Queues.wake, Queues.unlink, Queues.modPcb, hq]
    · simp [Queues.wake, Queues.unlink, Queues.modPcb, hq]
  | @create c q l r _ _ _ _ hf =>
    have hne : p ≠ q := by
      rintro rfl
      simp [hf] at hp
    rw [Nucleus.pcbs_create, if_neg hne]

theorem Moves.charged (h : Moves L B N M) (hN : N.Accounts) (ht : Ticks N.stck) (hp : p ∉ N.free)
    (hc : N.Charged v p) : M.Charged v p := by
  induction h with
  | refl => exact hc
  | tail hmv h ih =>
    have hfree := fun hm => hp (Moves.free hmv hm)
    exact ih.trans (h.time_le (Moves.accounts hmv hN ht) (Moves.stck hmv ▸ ht) hfree)

/-- A process that has been charged stays charged. -/
theorem Ending.charged {e : Exit} (h : Ending L B N e M) (hN : N.Accounts) (ht : Ticks N.stck)
    (hp : p ∉ N.free) (hc : N.Charged v p) (mode : Mode) :
    M.Owes v p (Machine.resume mode M.pcbs e) := by
  obtain ⟨N', hmv, hl⟩ := h
  have hN' := hmv.accounts hN ht
  have ht' : Ticks N'.stck := hmv.stck ▸ ht
  have hc' := hmv.charged hN ht hp hc
  cases hl with
  | stay => exact ⟨fun _ => hc'.running hN' ht', fun _ => .inl hc'⟩
  | @block a c =>
    apply Nucleus.Owes.schedule (.inl _)
    apply le_trans hc'
    rw [Nucleus.pTime_suspend, ← Nucleus.pTime_save N' c]
    exact Nucleus.charge_time_le hN'.save ht' p
  | preempt =>
    apply Nucleus.Owes.schedule (.inl _)
    rw [Nucleus.Charged, Nucleus.pcbs_preempt]
    split <;> exact hc'
  | kill _ _ hr =>
    apply Nucleus.Owes.schedule (.inl _)
    rw [Nucleus.Charged, hr.pcbs]
    split <;> exact hc'

theorem Move.stranded (h : Move L B N M) (hp : p ∉ N.free) (hs : N.Stranded p) : M.Stranded p := by
  have waits : ∀ {a : Word} {q : Pcb} {l : List Pcb}, N.Valid → N.waiters a = q :: l →
      (N.pcbs p).pSemAdd = 0 → p ≠ q := by
    rintro a q l hv hw h0 rfl
    exact hv.placed.not_waiting h0 (show p ∈ N.waiters a by simp [hw])
  cases h.shift with
  | still h =>
    rw [Nucleus.Stranded, h.ready, h.semAdd, h.saved]
    exact hs
  | @wake a q l hv _ hw =>
    rcases hs with ⟨hr, h0⟩ | hw'
    · have hne := waits hv hw h0
      refine .inl ⟨fun hm => ?_, ?_⟩
      · rcases (N.mem_wakeUp _ _).mp hm with ⟨hm, -⟩ | ⟨-, he⟩
        · exact hr hm
        · exact hne he
      · rwa [Nucleus.pcbs_wakeUp, if_neg hne]
    · right
      rw [Nucleus.pcbs_wakeUp]
      split <;> exact hw'
  | @take d q l hv _ hw =>
    rcases hs with ⟨hr, h0⟩ | hw'
    · have hne := waits hv hw h0
      refine .inl ⟨fun hm => hr (Lists.mem_unlink.mp hm).1, ?_⟩
      simpa [Queues.wake, Queues.unlink, Queues.modPcb, hne] using h0
    · right
      by_cases hq : p = q
      · subst hq
        simpa [Queues.wake, Queues.unlink, Queues.modPcb] using hw'
      · simpa [Queues.wake, Queues.unlink, Queues.modPcb, hq] using hw'
  | @create c q l r _ _ _ _ hf =>
    have hne : p ≠ q := by
      rintro rfl
      simp [hf] at hp
    rw [Nucleus.Stranded, Nucleus.pcbs_create, if_neg hne]
    rcases hs with ⟨hr, h0⟩ | hw
    · refine .inl ⟨fun hm => ?_, h0⟩
      rcases Nucleus.mem_create.mp hm with ⟨hm, -⟩ | ⟨-, he⟩
      · exact hr hm
      · exact hne he
    · exact .inr hw

theorem Moves.stranded (h : Moves L B N M) (hp : p ∉ N.free) (hs : N.Stranded p) :
    M.Stranded p := by
  induction h with
  | refl => exact hs
  | tail hmv h ih => exact h.stranded (fun hm => hp (Moves.free hmv hm)) ih

/-- A process that will not execute again is saved in `WAIT` only. -/
theorem Ending.stranded {e : Exit} {mode : Mode} (h : Ending L B N e M) (hp : p ∉ N.free)
    (hs : N.Stranded p) (hm : mode ≠ .running p)
    (ho : N.gCurrentProcess = some p → N.gOldState.inWait = true) (hfree : p ∉ M.free) :
    M.Owes v p (Machine.resume mode M.pcbs e) := by
  obtain ⟨N', hmv, hl⟩ := h
  have hs' := hmv.stranded hp hs
  have ho' : N'.gCurrentProcess = some p → N'.gOldState.inWait = true := by
    rw [hmv.current, hmv.old]
    exact ho
  cases hl with
  | stay _ _ hd =>
    refine ⟨fun hr => ?_, fun _ => .inr hs'⟩
    rcases Machine.resume_running hr with he | ⟨-, hr⟩
    · exact absurd he (hd p)
    · exact absurd hr hm
  | @block a c _ _ _ hc =>
    apply Nucleus.Owes.schedule (.inr _)
    by_cases hpc : p = c
    · right
      rw [Nucleus.pS_suspend, if_pos hpc]
      exact ho' (hpc ▸ hc)
    · rw [Nucleus.Stranded, Nucleus.pS_suspend, if_neg hpc, Nucleus.semAdd_suspend, if_neg hpc]
      refine hs'.imp (fun ⟨hr, h0⟩ => ⟨fun hm => ?_, h0⟩) id
      rcases (N'.mem_suspend _ _ _).mp hm with ⟨hm, -⟩ | ⟨-, he⟩
      · exact hr hm
      · exact hpc he
  | @preempt c _ _ hc =>
    apply Nucleus.Owes.schedule (.inr _)
    by_cases hpc : p = c
    · right
      rw [Nucleus.pcbs_preempt, if_pos hpc]
      exact ho' (hpc ▸ hc)
    · rw [Nucleus.Stranded, Nucleus.pcbs_preempt, if_neg hpc]
      refine hs'.imp (fun ⟨hr, h0⟩ => ⟨fun hm => ?_, h0⟩) id
      rcases (N'.mem_preempt _ _).mp hm with ⟨hm, -⟩ | ⟨-, he⟩
      · exact hr hm
      · exact hpc he
  | @kill P S q _ _ hr _ hP =>
    apply Nucleus.Owes.schedule (.inr _)
    rw [Nucleus.free_schedule hP] at hfree
    have hpS : p ∉ S := fun hm => hfree (hr.mem_free hm)
    rw [Nucleus.Stranded, hr.pcbs, if_neg hpS, hr.ready]
    exact hs'.imp (fun ⟨hn, h0⟩ => ⟨fun hm => hn (List.mem_filter.mp hm).1, h0⟩) id

/-- The scope of an exception other than an interrupt. -/
def callScope : Scope := { anyScope with preempt := False, interrupt := False }

theorem Move.running (h : Move L callScope N M) (hN : N.Accounts) (ht : Ticks N.stck)
    (hp : p ∉ N.free) (hc : N.gCurrentProcess = some p) (hr : N.Running v p) : M.Running v p := by
  have touch : N.Touch M → M.Running v p := by
    intro h
    have hmono := ht.mono (N.stckReads - 1) (M.stckReads - 1) (Nat.sub_le_sub_right h.reads 1)
    rw [Nucleus.Running, h.tod, h.time, h.stck]
    exact hr.trans (Nat.add_le_add_left hmono _)
  cases h with
  | quiet h => exact touch h.toTouch
  | device _ h => exact touch h
  | clock _ h => exact touch h
  | charge =>
    apply Nucleus.Charged.running _ (hN.charge ht) ht
    have hmono := ht.mono (N.stckReads - 1) N.stckReads (Nat.sub_le _ _)
    have hcharge := hN.charge_time ht hc
    rw [Nucleus.Running] at hr
    rw [Nucleus.Charged]
    omega
  | restart h => exact h.elim
  | wake =>
    rw [Nucleus.Running, Nucleus.pcbs_wakeUp]
    split <;> exact hr
  | @take d q =>
    by_cases hq : p = q
    · subst hq
      simpa [Nucleus.Running, Queues.wake, Queues.unlink, Queues.modPcb] using hr
    · simpa [Nucleus.Running, Queues.wake, Queues.unlink, Queues.modPcb, hq] using hr
  | @create c q l r _ _ _ _ hf =>
    have hne : p ≠ q := by
      rintro rfl
      simp [hf] at hp
    rw [Nucleus.Running, Nucleus.pcbs_create, if_neg hne]
    exact hr

theorem Moves.running (h : Moves L callScope N M) (hN : N.Accounts) (ht : Ticks N.stck)
    (hp : p ∉ N.free) (hc : N.gCurrentProcess = some p) (hr : N.Running v p) : M.Running v p := by
  induction h with
  | refl => exact hr
  | tail hmv h ih =>
    have hfree := fun hm => hp (Moves.free hmv hm)
    exact h.running (Moves.accounts hmv hN ht) (Moves.stck hmv ▸ ht) hfree
      ((Moves.current hmv).trans hc) ih

/-- What the executing process is owed after its own exception. -/
theorem Ending.running {e : Exit} {mode : Mode} (h : Ending L callScope N e M) (hN : N.Accounts)
    (ht : Ticks N.stck) (hp : p ∉ N.free) (hc : N.gCurrentProcess = some p)
    (hr : N.Running v p) (hM : M.Current) (hfree : p ∉ M.free) :
    M.Owes v p (Machine.resume mode M.pcbs e) := by
  obtain ⟨N', hmv, hl⟩ := h
  have hr' := hmv.running hN ht hp hc hr
  have hc' := hmv.current.trans hc
  have hN' := hmv.accounts hN ht
  have ht' : Ticks N'.stck := hmv.stck ▸ ht
  cases hl with
  | stay => exact ⟨fun _ => hr', fun _ => .inr (.inl (hM p hc'))⟩
  | @block a c _ _ _ hcc =>
    obtain rfl : p = c := Option.some.inj (hc'.symm.trans hcc)
    apply Nucleus.Owes.schedule (.inl _)
    have hcharge := (hN'.save (c := p)).charge_time ht' hc'
    have hmono := ht'.mono (N'.stckReads - 1) N'.stckReads (Nat.sub_le _ _)
    rw [Nucleus.Running] at hr'
    rw [Nucleus.pTime_save] at hcharge
    rw [Nucleus.Charged, Nucleus.pTime_suspend]
    have htod : (N'.save p).gTod = N'.gTod := rfl
    have hstck : (N'.save p).stck (N'.save p).stckReads = N'.stck N'.stckReads := rfl
    rw [htod, hstck] at hcharge
    omega
  | preempt _ h => exact h.elim
  | @kill P S q hv _ hk _ hP =>
    apply Nucleus.Owes.schedule (.inr (.inl _))
    rw [Nucleus.free_schedule hP] at hfree
    have hpS : p ∉ S := fun hm => hfree (hk.mem_free hm)
    obtain ⟨hready, h0⟩ := hv.current p hc'
    rw [hk.pcbs, if_neg hpS, hk.ready]
    exact ⟨fun hm => hready (List.mem_filter.mp hm).1, h0⟩

end

namespace Machine
variable {L : Layout} {ok : Machine → Event → Prop} {m : Machine} {N : Nucleus} {v : Nat} {p : Pcb}
  {t : Trap}

/-- Whatever happens, what `p` is owed is not lost while `p` is alive. -/
theorem Sound.owes {e : Event} (h : m.Sound N) (ht : Ticks N.stck) (ha : N.Accounts)
    (he : m.Enabled e) (ho : N.Owes v p m.mode) (hp : p ∉ N.free)
    (hp' : p ∉ (m.step L e).kernel.free) :
    ∃ M, (m.step L e).kernel.Refines M ∧ M.stck = N.stck ∧ M.Accounts ∧
      M.Owes v p (m.step L e).mode := by
  cases e with
  | wake =>
    obtain ⟨s', hstep, hs', -⟩ := step_wake (L := L) h.refines
    have hm : m.mode = .waiting := he
    rw [hstep, hs'.pcbs]
    refine ⟨_, hs', Nucleus.stck_schedule, ha.schedule ht, ?_⟩
    exact Nucleus.Owes.schedule (ho.other (by simp [hm])) m.mode
  | exception t =>
    have ha' : (N.trapped t (decide (m.mode = .waiting))).Accounts := ⟨ha.read, ha.sum⟩
    have left : ∀ {e s' M}, m.step L (.exception t) = ⟨s', resume m.mode s'.pcbs e⟩ →
        s'.Refines M → M.stck = N.stck → M.Accounts →
        (p ∉ M.free → M.Owes v p (resume m.mode M.pcbs e)) →
        ∃ M, (m.step L (.exception t)).kernel.Refines M ∧ M.stck = N.stck ∧ M.Accounts ∧
          M.Owes v p (m.step L (.exception t)).mode := by
      intro e s' M hstep hM hs hacc howes
      rw [hstep] at hp' ⊢
      rw [hM.pcbs]
      exact ⟨M, hM, hs, hacc, howes (hM.free ▸ hp')⟩
    by_cases hm : m.mode = .running p
    · obtain ⟨hc, -⟩ := h.running p hm
      by_cases h0 : excCode (t.old 1) = 0
      · -- the interrupted process is charged first
        obtain ⟨e, s', M, hstep, hM, hend⟩ := interrupt_left (B := anyScope) h.refines h0 trivial
          fun u _ => anyScope_allows u
        have hcharged : (N.trapped t (decide (m.mode = .waiting))).charge.Charged v p := by
          have hcharge := ha'.charge_time ht hc
          have hmono := ht.mono (N.stckReads - 1) N.stckReads (Nat.sub_le _ _)
          have hr : v + N.gTod.toNat ≤ (N.pcbs p).pTime.toNat +
            (N.stck (N.stckReads - 1)).toNat := ho.running hm
          change _ + N.gTod.toNat = (N.pcbs p).pTime.toNat + (N.stck N.stckReads).toNat at hcharge
          rw [Nucleus.Charged]
          omega
        apply left hstep hM hend.stck (hend.accounts (ha'.charge ht) ht)
        exact fun _ => hend.charged (ha'.charge ht) ht hp hcharged _
      · have hcov : callScope.Covers L (m.trapped t) := by
          exact h.covers he (fun h => absurd h h0) (fun _ => trivial)
            (fun _ _ => ⟨trivial, anyScope_writes _⟩) (fun _ => ⟨trivial, trivial⟩)
            (fun _ _ _ => ⟨trivial, trivial, trivial⟩) (fun _ _ _ _ => trivial) fun _ _ _ _ => trivial
        obtain ⟨e, s', M, hstep, hM, hend⟩ := step_exception h.refines hcov
        apply left hstep hM hend.stck (hend.accounts ha' ht)
        exact hend.running ha' ht hp hc (ho.running hm) hM.current
    · obtain ⟨e, s', M, hstep, hM, hend⟩ := step_exception h.refines (h.covers_any he (L := L))
      apply left hstep hM hend.stck (hend.accounts ha' ht)
      intro hfree
      rcases ho.other hm with hcharged | hstranded
      · exact hend.charged ha' ht hp hcharged _
      · refine hend.stranded hp hstranded hm (fun hc => ?_) hfree
        obtain ⟨⟨q, hq⟩ | ⟨hw, -⟩, -⟩ := he
        · obtain rfl : q = p := Option.some.inj ((h.running q hq).1.symm.trans hc)
          exact absurd hq hm
        · simp [Nucleus.trapped, hw]

/-- `GETTIME` returns what the caller has been charged for and the time since. -/
theorem step_getTime (hm : m.kernel.Refines N) (h6 : t.Calls 6) (hc : N.gCurrentProcess = some p) :
    (m.step L (.exception t)).mode = m.mode ∧
    (m.step L (.exception t)).kernel.gOldState.regV0 =
      (N.pcbs p).pTime + (N.stck N.stckReads - N.gTod) ∧
    ∃ M, (m.step L (.exception t)).kernel.Refines M ∧ M.toQueues = N.toQueues ∧
      M.stck = N.stck ∧ M.gTod = N.gTod ∧ M.stckReads = N.stckReads + 1 := by
  obtain ⟨e, s', M, hstep, hM, rfl, hv, hq, hs, ht, hr⟩ := step_syscall (L := L)
    (E := fun e M => e = .ldst ∧
      M.gOldState.regV0 = (N.pcbs p).pTime + (N.stck N.stckReads - N.gTod) ∧
      M.toQueues = N.toQueues ∧ M.stck = N.stck ∧ M.gTod = N.gTod ∧
      M.stckReads = N.stckReads + 1) hm h6.1 (by
      rw [syscall_getTime h6.2]
      exact Runs.sysGetTime hc ⟨rfl, rfl, rfl, rfl, rfl, rfl⟩)
  rw [hstep]
  refine ⟨rfl, ?_, M, hM, hq, hs, ht, hr⟩
  rw [← hv, ← hM.globals]

/-- What `p` is owed is not lost in any run in which it is not terminated. -/
theorem Leads.owes {m' : Machine} (h : m.Leads L (fun m e => p ∉ (m.step L e).kernel.free) m')
    (hS : m.Sound N) (ht : Ticks N.stck) (ha : N.Accounts) (ho : N.Owes v p m.mode)
    (hp : p ∉ N.free) :
    ∃ M, m'.Sound M ∧ M.stck = N.stck ∧ M.Accounts ∧ M.Owes v p m'.mode ∧ p ∉ M.free := by
  induction h with
  | refl => exact ⟨N, hS, rfl, ha, ho, hp⟩
  | step _ he hlive ih =>
    obtain ⟨M, hM, hs, hacc, howes, hfree⟩ := ih
    obtain ⟨P, hP, hsP, haccP, howesP⟩ := hM.owes (hs ▸ ht) hacc he howes hfree hlive
    obtain ⟨P', hP'⟩ := hM.step he (L := L)
    obtain rfl := hP'.refines.unique hP
    exact ⟨P', hP', hsP.trans hs, haccP, howesP, hP.free ▸ hlive⟩

/-- No time is charged twice, and the times that `GETTIME` returns to a process
never decrease. -/
theorem time_charged_once (h : Reachable L ok m) (ht : Ticks m.kernel.stck) :
    (∀ now : Word, (∀ i < m.kernel.stckReads, (m.kernel.stck i).toNat ≤ now.toNat) →
      (∑ p with p ∉ m.kernel.free, (m.kernel.pcbs p).pTime.toNat) + (now - m.kernel.gTod).toNat ≤
        (now - m.kernel.stck 0).toNat) ∧
    ∀ p t, m.mode = .running p → m.Enabled (.exception t) → t.Calls 6 → ∀ m' t',
      (m.step L (.exception t)).Leads L (fun m e => p ∉ (m.step L e).kernel.free) m' →
      m'.mode = .running p → m'.Enabled (.exception t') → t'.Calls 6 →
      (m.step L (.exception t)).kernel.gOldState.regV0.toNat ≤
        (m'.step L (.exception t')).kernel.gOldState.regV0.toNat := by
  obtain ⟨N, hS, hacc⟩ := h.accounts
  have hg := hS.refines.globals
  have hstck : m.kernel.stck = N.stck := by rw [hg]
  have ht : Ticks N.stck := hstck ▸ ht
  have ha : N.Accounts := hacc ht
  constructor
  · intro now hnow
    rw [hS.refines.free, hS.refines.pcbs, hg]
    rw [hg] at hnow
    obtain ⟨i, hi, htod⟩ := ha.read
    have hlive : (∑ p with p ∉ N.free, (N.pcbs p).pTime.toNat) ≤ N.total :=
      Finset.sum_le_sum_of_subset (Finset.filter_subset _ _)
    have hsum := ha.sum
    have htod_le : N.gTod.toNat ≤ now.toNat := htod ▸ hnow i hi
    have h0 : (N.stck 0).toNat ≤ now.toNat := hnow 0 (Nat.zero_lt_of_lt hi)
    rw [BitVec.toNat_sub_of_le htod_le, BitVec.toNat_sub_of_le h0]
    omega
  · intro p t hm he h6 m' t' hrun hm' he' h6'
    obtain ⟨hc, hp⟩ := hS.running p hm
    obtain ⟨hmode, hv, M, hM, hq, hs, htod, hr⟩ := step_getTime (L := L) hS.refines h6 hc
    obtain ⟨M', hS'⟩ := hS.step he (L := L)
    obtain rfl := hS'.refines.unique hM
    have hle := ha.tod_le ht (k := N.stckReads) (by omega)
    -- what is returned does not overflow
    have toNat : ∀ {P : Nucleus}, P.Accounts → Ticks P.stck →
        ((P.pcbs p).pTime + (P.stck P.stckReads - P.gTod)).toNat + P.gTod.toNat =
          (P.pcbs p).pTime.toNat + (P.stck P.stckReads).toNat := by
      intro P hP htP
      have hle := hP.tod_le htP (k := P.stckReads) (by omega)
      have hb := htP.bound P.stckReads
      have htime := hP.time_le p
      rw [BitVec.toNat_add, BitVec.toNat_sub]
      omega
    have hacc' : M'.Accounts :=
      ha.keep hs htod (by omega) fun q => (congrArg (fun P : Queues => (P.pcbs q).pTime.toNat) hq).le
    have howes : M'.Owes (m.step L (.exception t)).kernel.gOldState.regV0.toNat p
        (m.step L (.exception t)).mode := by
      refine ⟨fun _ => ?_, fun hn => absurd (hmode.trans hm) hn⟩
      rw [Nucleus.Running, hv, htod, hs, hr, hq, Nat.add_sub_cancel]
      exact (toNat ha ht).le
    have hfree : p ∉ M'.free := by
      rw [Queues.free, hq]
      exact hp
    obtain ⟨P, hP, hsP, haP, howesP, -⟩ := hrun.owes hS' (hs ▸ ht) hacc' howes hfree
    have htP : Ticks P.stck := by rwa [hsP, hs]
    obtain ⟨-, hv', -⟩ := step_getTime (L := L) hP.refines h6' (hP.running p hm').1
    have hrunning := howesP.running hm'
    have hmono := htP.mono (P.stckReads - 1) P.stckReads (Nat.sub_le _ _)
    have hret := toNat haP htP
    rw [Nucleus.Running] at hrunning
    rw [hv']
    omega

end Machine

/-- A machine whose clock does not wrap. -/
def tickBoot : Machine :=
  .boot sampleLayout (fun _ => 0) (fun _ => 0) fun n => BitVec.ofNat 32 (min n 1000)

theorem ticks_min : Ticks fun n => BitVec.ofNat 32 (min n 1000) where
  mono i j hij := by simp only [BitVec.toNat_ofNat]; omega
  bound i := by simp only [BitVec.toNat_ofNat]; omega

/-- The first process asks for its time, is preempted and asks again. -/
theorem Machine.time_charged_once_preempted :
    (tickBoot.run sampleLayout [call 6 0 0 0]).kernel.gOldState.regV0.toNat ≤
      (tickBoot.run sampleLayout [call 6 0 0 0, preempt, call 6 0 0 0]).kernel.gOldState.regV0.toNat := by
  have hboot : Reachable sampleLayout (fun _ _ => True) tickBoot := .boot _ _ _
  refine (time_charged_once hboot ticks_min).2 19 (callTrap 6 0 0 0 tickBoot) ?_ ?_ ?_
    (tickBoot.run sampleLayout [call 6 0 0 0, preempt]) (callTrap 6 0 0 0 _) ?_ ?_ ?_ ?_
  · decide +kernel
  · exact ⟨.inl ⟨19, by decide +kernel⟩, fun d => .inl rfl⟩
  · decide +kernel
  · apply Leads.step (e := preempt (tickBoot.run sampleLayout [call 6 0 0 0])) .refl
    · exact ⟨.inl ⟨19, by decide +kernel⟩, fun d => .inl rfl⟩
    · decide +kernel
  · decide +kernel
  · exact ⟨.inl ⟨19, by decide +kernel⟩, fun d => .inl rfl⟩
  · decide +kernel

end Pandos
