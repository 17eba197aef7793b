import Pandos.Phase1.Calls

/-!
# `insertBlocked` of a process that is blocked already

The process leaves the semaphore it was blocked on by way of its links only, so
a descriptor that it leaves without a process is not freed.
-/

namespace Pandos.Tables
open Intrusive

/-- What `insertBlocked` does with a process that is blocked on `s₁` when it
moves it to `s₂` cleanly: nothing at all, or the process is the last of `s₂` and
in no other queue, and a descriptor of `s₁` that it was alone on is freed, so
that every allocated descriptor has a process. -/
def MovesCleanly (t : Tables) (s₁ s₂ : Word) (p : Pcb) : Prop :=
  let r := t.insertBlocked s₂ p
  r.1 = true ∧ r.2 = t ∨
  r.1 = false ∧ r.2.waiters s₂ = (t.waiters s₂).filter (· ≠ p) ++ [p] ∧
    (∀ k, p ∈ r.2.procQ k → ∃ i, k = .sProcq i ∧ r.2.findSem s₂ = some i) ∧
    (r.2.pcbs p).pSemAdd = s₂ ∧
    (s₁ ≠ s₂ → t.waiters s₁ = [p] → ∀ i, t.findSem s₁ = some i →
      (∀ b, i ∉ r.2.semdH b) ∧ i ∈ r.2.semdFreeH) ∧
    ∀ i, i ∉ r.2.semdFreeH → r.2.procQ (.sProcq i) ≠ []

variable {t u : Tables} {s₁ s₂ : Word} {p : Pcb} {i j : Semd}

/-- It is the descriptor that `p` was on only if the semaphores are the same. -/
theorem Fitted.same_iff (hf : Fitted t u s₂ i) (hq : t.Queued) (hp : p ∈ t.procQ (.sProcq j))
    (hj : t.sKey j = s₁) : j = i ↔ s₁ = s₂ := by
  constructor
  · rintro rfl
    exact hj.symm.trans (hf.oldKey p hp)
  · rintro rfl
    have hi : p ∈ t.procQ (.sProcq i) := by
      rw [← hf.queue, hq.waiters_of_key hj (List.ne_nil_of_mem hp)]
      exact hp
    exact ProcQ.sProcq.inj (hq.apart.unique hp hi)

/-- A blocked process moves cleanly unless it leaves a descriptor without a
process behind. -/
theorem moves_cleanly_iff (hq : t.Queued) (hp : (t.pcbs p).pSemAdd = s₁) (h₁ : s₁ ≠ 0)
    (h₂ : s₂ ≠ 0) : t.MovesCleanly s₁ s₂ p ↔
      s₁ = s₂ ∨ t.waiters s₁ ≠ [p] ∨ t.findSem s₂ = none ∧ t.semdFreeH = [] := by
  obtain ⟨j, hj⟩ := hq.blocked p (hp ▸ h₁)
  have hkey : t.sKey j = s₁ := (hq.keyed j p hj).symm.trans hp
  have hactive : j ∉ t.semdFreeH := hq.active_of_mem hj
  have hwaiters : t.waiters s₁ = t.procQ (.sProcq j) :=
    hq.waiters_of_key hkey (List.ne_nil_of_mem hj)
  rcases semFor_cases hq h₂ with ⟨hsem, hnone, hfree⟩ | ⟨hroom, i, u, hsem, hfit⟩
  · have hstay : t.insertBlocked s₂ p = (true, t) := by simp [insertBlocked, hsem]
    simp [MovesCleanly, hstay, hnone, hfree]
  · have hmove : t.insertBlocked s₂ p = (false, u.put i s₂ p) := insertBlocked_fitted hsem
    have hlast : (u.put i s₂ p).procQ (.sProcq i) = (t.procQ (.sProcq i)).filter (· ≠ p) ++ [p] :=
      hfit.put_self
    have hrest : ∀ k, k ≠ .sProcq i → (u.put i s₂ p).procQ k = (t.procQ k).filter (· ≠ p) :=
      fun k => hfit.put_other
    have hnew : (u.put i s₂ p).findSem s₂ = some i := hfit.findSem_put
    have hsame : j = i ↔ s₁ = s₂ := hfit.same_iff hq hj hkey
    have hempty : ¬(t.findSem s₂ = none ∧ t.semdFreeH = []) := by tauto
    constructor
    · intro hclean
      by_contra hn
      push Not at hn
      obtain ⟨hne, hsole, -⟩ := hn
      have hji : j ≠ i := fun e => hne (hsame.mp e)
      simp only [MovesCleanly, hmove, Bool.false_eq_true, false_and, false_or, true_and] at hclean
      obtain ⟨-, -, -, -, hstock⟩ := hclean
      apply hstock j
      · exact fun hm => hactive ((hfit.otherFree j hji).mp hm)
      · rw [hrest _ (by simpa using hji), ← hwaiters, hsole]
        simp
    · intro hcond
      have hmoved : s₁ ≠ s₂ → t.waiters s₁ ≠ [p] := fun hne =>
        (hcond.resolve_left hne).resolve_right hempty
      simp only [MovesCleanly, hmove, Bool.false_eq_true, false_and, false_or, true_and]
      refine ⟨?_, fun k hk => ?_, ?_, fun hne hsole => absurd hsole (hmoved hne), fun k hk => ?_⟩
      · rw [waiters, hnew, hfit.queue]
        exact hlast
      · by_cases hki : k = .sProcq i
        · exact ⟨i, hki, hnew⟩
        · rw [hrest k hki] at hk
          simp at hk
      · simp [hfit.put_pcbs]
      · by_cases hki : k = i
        · subst hki
          simp [hlast]
        · rw [hrest _ (by simpa using hki)]
          have hk' : k ∉ t.semdFreeH := fun hm => hk ((hfit.otherFree k hki).mpr hm)
          by_cases hkj : k = j
          · subst hkj
            -- somebody else is on the descriptor that `p` leaves
            have hne : s₁ ≠ s₂ := fun e => hki (hsame.mpr e)
            exact hq.apart.unlink_ne_nil hj (hwaiters ▸ hmoved hne)
          · have hout : (t.procQ (.sProcq k)).filter (· ≠ p) = t.procQ (.sProcq k) :=
              hq.apart.unlink_other hj (by simpa using hkj)
            rw [hout]
            exact fun he => hk' ((hq.waiting k).mp he)

/-- One or two processes wait for a semaphore. -/
def oneWaiter : Tables := (zero.initASH.call (.insert 0x1000 3)).2
def twoWaiters : Tables := (oneWaiter.call (.insert 0x1000 4)).2

theorem oneWaiter_queued : oneWaiter.Queued :=
  ((zero_unused.queued fun _ => rfl).call (c := .insert 0x1000 3) (by decide +kernel)).1

theorem moves_cleanly_from_two : twoWaiters.MovesCleanly 0x1000 0x2000 3 ↔ (0x1000 : Word) = 0x2000 ∨
    twoWaiters.waiters 0x1000 ≠ [3] ∨
    twoWaiters.findSem 0x2000 = none ∧ twoWaiters.semdFreeH = [] :=
  moves_cleanly_iff (oneWaiter_queued.call (c := .insert 0x1000 4) (by decide +kernel)).1
    (by decide +kernel) (by decide) (by decide)

/-- Moved to another semaphore, the only waiter leaves an allocated descriptor
with an empty queue behind. -/
theorem sole_waiter_leaves_descriptor : ∃ t s₁ s₂ p, Queued t ∧ (t.pcbs p).pSemAdd = s₁ ∧ s₁ ≠ 0 ∧
    s₂ ≠ 0 ∧ ¬t.MovesCleanly s₁ s₂ p := by
  refine ⟨oneWaiter, 0x1000, 0x2000, 3, oneWaiter_queued, by decide +kernel, by decide, by decide, ?_⟩
  rintro (⟨hfull, -⟩ | ⟨-, -, -, -, -, hstock⟩)
  · exact absurd hfull (by decide +kernel)
  · exact hstock 19 (by decide +kernel) (by decide +kernel)

end Pandos.Tables
