import Pandos.Scenario

/-!
# Waiting in line

Whatever happens, a semaphore's queue loses its oldest waiters and those that are
terminated, and gets new ones at its end.
-/

namespace Pandos
open Intrusive

section
variable {α : Type} {l l' S : List α} {p q : α}

/-- Who stands behind somebody is not among the oldest that leave without him. -/
theorem sublist_drop {k : Nat} (hd : l.Nodup) (hpq : [p, q].Sublist l) (hp : p ∈ l.drop k) :
    [p, q].Sublist (l.drop k) := by
  induction k generalizing l with
  | zero => exact hpq
  | succ k ih =>
    cases l with
    | nil => cases hp
    | cons x l =>
      obtain ⟨hx, hd⟩ := List.nodup_cons.mp hd
      rw [List.drop_succ_cons] at hp ⊢
      cases hpq with
      | cons _ hpq => exact ih hd hpq hp
      | cons_cons _ hq => exact absurd (List.mem_of_mem_drop hp) hx

variable [DecidableEq α]

/-- A queue loses some of its oldest members and those in `S`, and gets new ones. -/
def Proceeds (l l' S : List α) : Prop :=
  ∃ k new, l' = (l.drop k).filter (· ∉ S) ++ new ∧ ∀ x ∈ new, x ∉ l

theorem Proceeds.drop (k : Nat) : Proceeds l (l.drop k) [] := ⟨k, [], by simp, by simp⟩

/-- Nobody overtakes. -/
theorem Proceeds.behind (h : Proceeds l l' S) (hd : l.Nodup) (hpq : [p, q].Sublist l) (hp : p ∈ l')
    (hq : q ∉ S) : [p, q].Sublist l' := by
  obtain ⟨k, new, rfl, hnew⟩ := h
  have hpl : p ∈ l := hpq.subset (by simp)
  have hp : p ∈ (l.drop k).filter (· ∉ S) :=
    (List.mem_append.mp hp).resolve_right fun hm => hnew p hm hpl
  obtain ⟨hdrop, hpS⟩ := List.mem_filter.mp hp
  have hkept : [p, q].filter (· ∉ S) = [p, q] := by
    have hpS : p ∉ S := by simpa using hpS
    simp [hpS, hq]
  have hsub := (sublist_drop hd hpq hdrop).filter (· ∉ S)
  rw [hkept] at hsub
  exact hsub.trans (List.sublist_append_left _ _)

end

section
variable {L : Layout} {B : Scope} {N M : Nucleus} {a b : Word} {p : Pcb} {l : List Pcb}

/-- The oldest waiter of one semaphore goes. -/
theorem Nucleus.unlink_waiter (hN : N.Placed) (hw : N.waiters b = p :: l) :
    ∃ k, N.queue.unlink p (.sem a) = (N.waiters a).drop k := by
  by_cases hab : a = b
  · subst hab
    refine ⟨1, ?_⟩
    rw [hN.apart.unlink_cons hw, hw]
    rfl
  · refine ⟨0, hN.apart.unlink_other (show p ∈ N.waiters b by simp [hw]) ?_⟩
    exact fun h => hab (Place.sem.inj h)

theorem Move.drops (h : Move L B N M) (a : Word) : ∃ k, M.waiters a = (N.waiters a).drop k := by
  cases h.shift with
  | still h => exact ⟨0, h.waiters a⟩
  | wake hN _ hw =>
    rw [Queues.waiters, Nucleus.queue_wakeUp, if_neg (by simp)]
    exact Nucleus.unlink_waiter hN.placed hw
  | take hN _ hw => exact Nucleus.unlink_waiter hN.placed hw
  | @create c p l r hN _ _ _ hf =>
    refine ⟨0, ?_⟩
    rw [Queues.waiters, Nucleus.queue_create, if_neg (by simp)]
    exact hN.placed.apart.unlink_other (show p ∈ N.free by simp [hf]) (by simp)

theorem Moves.drops (h : Moves L B N M) (a : Word) : ∃ k, M.waiters a = (N.waiters a).drop k := by
  induction h with
  | refl => exact ⟨0, rfl⟩
  | tail _ h ih =>
    obtain ⟨k, hk⟩ := ih
    obtain ⟨j, hj⟩ := h.drops a
    exact ⟨k + j, by rw [hj, hk, List.drop_drop]⟩

/-- What an exception does to the queue of a semaphore. -/
theorem Ending.proceeds {e : Exit} (h : Ending L B N e M) (hv : N.Valid) (a : Word) :
    ∃ S, (∀ q ∈ S, q ∈ M.free) ∧ Proceeds (N.waiters a) (M.waiters a) S := by
  obtain ⟨N', hmv, hl⟩ := h
  obtain ⟨k, hk⟩ := hmv.drops a
  have scheduled : ∀ P : Nucleus, P.Placed → P.schedule.2.waiters a = P.waiters a := fun P hP =>
    Nucleus.queue_schedule hP (by simp)
  have apart : ∀ {c b}, N'.Valid → N'.gCurrentProcess = some c →
      N'.queue.unlink c (.sem b) = N'.waiters b := fun hv' hc =>
    Lists.unlink_of_not_mem (hv'.placed.not_waiting (hv'.current _ hc).2)
  cases hl with
  | stay => exact ⟨[], by simp, hk ▸ .drop k⟩
  | @block b c hv' _ _ hc hP =>
    refine ⟨[], by simp, k, if a = b then [c] else [], ?_, ?_⟩
    · rw [scheduled _ hP, Queues.waiters, Nucleus.queue_suspend, apart hv' hc, hk]
      by_cases hab : a = b <;> simp [hab]
    · have hcN : c ∉ N.waiters a := hv.placed.not_waiting (hv.current c (hmv.current ▸ hc)).2
      intro x hx
      split at hx
      · obtain rfl := List.mem_singleton.mp hx
        exact hcN
      · cases hx
  | @preempt c hv' _ hc hP =>
    have hwaiters : (N'.preempt c).waiters a = N'.waiters a := by
      rw [Queues.waiters, Nucleus.queue_preempt, if_neg (by simp)]
      exact apart hv' hc
    refine ⟨[], by simp, ?_⟩
    rw [scheduled _ hP, hwaiters, hk]
    exact .drop k
  | @kill P S p _ _ hr _ hP =>
    refine ⟨S, fun q hq => ?_, k, [], ?_, by simp⟩
    · rw [Nucleus.free_schedule hP]
      exact hr.mem_free hq
    · rw [scheduled _ hP, hr.waiters, hk, List.append_nil]

end

namespace Machine
variable {L : Layout} {ok : Machine → Event → Prop} {m m' : Machine} {N : Nucleus} {a : Word} {p q : Pcb}

/-- What one event does to the queue of a semaphore. -/
theorem step_proceeds {e : Event} (hS : m.Sound N) (he : m.Enabled e) (a : Word) :
    ∃ S, (∀ q ∈ S, q ∈ (m.step L e).kernel.free) ∧
      Proceeds (m.kernel.waiters a) ((m.step L e).kernel.waiters a) S := by
  rw [hS.refines.waiters]
  cases e with
  | wake =>
    obtain ⟨s', hstep, hs', hN⟩ := step_wake (L := L) hS.refines
    have hwaiters : N.schedule.2.waiters a = N.waiters a := Nucleus.queue_schedule hN (by simp)
    rw [hstep, hs'.waiters, hwaiters]
    exact ⟨[], by simp, .drop 0⟩
  | exception t =>
    obtain ⟨e, s', M, hstep, hM, hend⟩ := step_exception hS.refines (hS.covers_any he (L := L))
    rw [hstep, hM.free, hM.waiters]
    exact hend.proceeds (trapped_refines hS.refines t).valid a

theorem step_behind {e : Event} (hS : m.Sound N) (he : m.Enabled e)
    (hpq : [p, q].Sublist (m.kernel.waiters a)) (hp : p ∈ (m.step L e).kernel.waiters a)
    (hq : q ∉ (m.step L e).kernel.free) : [p, q].Sublist ((m.step L e).kernel.waiters a) := by
  obtain ⟨S, hfree, hpass⟩ := step_proceeds hS he (L := L) a
  exact hpass.behind (hS.refines.queued.waiters_nodup a) hpq hp fun h => hq (hfree q h)

/-- A process that blocked on a semaphore after another one, and is not
terminated, waits behind it for as long as the other one waits. -/
theorem semaphores_are_fifo (h : Reachable L ok m) (hpq : [p, q].Sublist (m.kernel.waiters a))
    (hrun : Leads L (fun m e => p ∈ (m.step L e).kernel.waiters a ∧ q ∉ (m.step L e).kernel.free) m m') :
    [p, q].Sublist (m'.kernel.waiters a) := by
  obtain ⟨N, hN⟩ := h.sound
  obtain ⟨-, -, hwait⟩ := hrun.invariant hN (I := fun n => [p, q].Sublist (n.kernel.waiters a)) hpq
    fun hS hpq he hok => step_behind hS he hpq hok.1 hok.2
  exact hwait

/-- Two processes wait for a semaphore while a third one is preempted. -/
theorem semaphores_are_fifo_pair :
    let m := sampleBoot.run sampleLayout [call 1 0x20060000 0 0, call 1 0x20060000 0 0,
      call 3 0x20070000 0 0, call 3 0x20070000 0 0]
    [19, 18].Sublist ((m.run sampleLayout [preempt]).kernel.waiters 0x20070000) := by
  intro m
  have hm : Reachable sampleLayout (Lawful sampleLayout) m := (Reachable.boot _ _ _).run (by decide +kernel)
  have hpq : ([19, 18] : List Pcb).Sublist (m.kernel.waiters 0x20070000) := by decide +kernel
  exact semaphores_are_fifo hm hpq (Leads.refl.run (by decide +kernel))

end Machine

end Pandos
