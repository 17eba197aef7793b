import Pandos.Scenario

/-!
# The ready queue is served in order

No event moves a ready process back: the ready queue grows at its end, loses
terminated processes anywhere and dispatched ones at its front.
-/

namespace Pandos
open Intrusive

/-- The process that an exit dispatches. -/
def Exit.dispatched : Exit → Option Pcb
  | .dispatch p => some p
  | _ => none

/-- The ready queue `l` becomes `l'` when `S` is terminated, `new` becomes
ready, and the scheduler dispatches `d`, if it dispatches at all. -/
def Advances (l l' S new : List Pcb) (d : Option Pcb) : Prop :=
  l.filter (· ∉ S) ++ new = d.toList ++ l'

section
variable {p : Pcb} {S ahead behind l l' new : List Pcb} {d : Option Pcb}

/-- A ready process that is not terminated is dispatched once nobody is ahead
of it, or it stays and nobody gets ahead of it. -/
theorem Advances.keeps (h : Advances l l' S new d) (hl : l = ahead ++ p :: behind) (hp : p ∉ S) :
    d = some p ∨ ∃ ahead' behind', l' = ahead' ++ p :: behind' ∧
      d.toList ++ ahead' = ahead.filter (· ∉ S) := by
  have hsplit : l.filter (· ∉ S) ++ new =
      ahead.filter (· ∉ S) ++ p :: (behind.filter (· ∉ S) ++ new) := by
    rw [hl, List.filter_append, List.filter_cons_of_pos (by simpa using hp)]
    simp
  rw [Advances, hsplit] at h
  cases d with
  | none => exact .inr ⟨_, _, h.symm, rfl⟩
  | some q =>
    cases hahead : ahead.filter (· ∉ S) with
    | nil =>
      rw [hahead] at h
      have hq : p = q := (List.cons.inj h).1
      exact .inl (congrArg some hq.symm)
    | cons r ahead' =>
      rw [hahead] at h
      obtain ⟨rfl, hl'⟩ := List.cons.inj h
      exact .inr ⟨ahead', _, hl'.symm, rfl⟩

end

section
variable {L : Layout} {B : Scope} {N M : Nucleus}

theorem Move.ready (h : Move L B N M) : ∃ new, M.ready = N.ready ++ new := by
  have other : ∀ {k : Place} {p : Pcb}, N.Placed → p ∈ N.queue k → k ≠ .ready →
      N.queue.unlink p .ready = N.ready := by
    intro k p hN hp hk
    apply hN.apart.unlink_other hp
    exact hk.symm
  cases h.shift with
  | still h => exact ⟨[], by rw [h.ready, List.append_nil]⟩
  | @wake a p l hN _ hw =>
    have hp : p ∈ N.queue (.sem a) := by
      rw [show N.queue (.sem a) = p :: l from hw]
      simp
    refine ⟨[p], ?_⟩
    rw [Queues.ready, Nucleus.queue_wakeUp, if_pos rfl, other hN.placed hp (by simp)]
  | @take d p l hN _ hw =>
    have hp : p ∈ N.queue (.sem (L.addr (.semMut d))) := by
      rw [show N.queue (.sem (L.addr (.semMut d))) = p :: l from hw]
      simp
    refine ⟨[], ?_⟩
    rw [List.append_nil]
    exact other hN.placed hp (by simp)
  | @create c p l r hN _ _ _ hf =>
    have hp : p ∈ N.queue .free := by
      rw [show N.queue .free = p :: l from hf]
      simp
    refine ⟨[p], ?_⟩
    rw [Queues.ready, Nucleus.queue_create, if_pos rfl, other hN.placed hp (by simp)]

theorem Moves.ready (h : Moves L B N M) : ∃ new, M.ready = N.ready ++ new := by
  induction h with
  | refl => exact ⟨[], (List.append_nil _).symm⟩
  | tail _ h ih =>
    obtain ⟨new, ih⟩ := ih
    obtain ⟨more, h⟩ := h.ready
    exact ⟨new ++ more, by rw [h, ih, List.append_assoc]⟩

theorem Nucleus.schedule_ready (hN : N.Placed) :
    N.ready = N.schedule.1.dispatched.toList ++ N.schedule.2.ready := by
  cases hr : N.ready with
  | nil =>
    rw [schedule_nil hr, idleExit]
    split_ifs <;> simp [Exit.dispatched, hr]
  | cons p l =>
    rw [schedule_cons hr]
    have hl : N.queue.unlink p .ready = l := hN.apart.unlink_cons hr
    exact congrArg (p :: ·) hl.symm

/-- What an exception does to the ready queue. -/
theorem Ending.advances {e : Exit} (h : Ending L B N e M) :
    ∃ S new, (∀ q ∈ S, q ∈ M.free) ∧ Advances N.ready M.ready S new e.dispatched := by
  obtain ⟨N', hmv, hl⟩ := h
  obtain ⟨new, hnew⟩ := hmv.ready
  have none : ∀ {P : Nucleus} {l : List Pcb}, P.Placed → P.ready = N'.ready ++ l →
      ∃ S new, (∀ q ∈ S, q ∈ P.schedule.2.free) ∧
        Advances N.ready P.schedule.2.ready S new P.schedule.1.dispatched := by
    intro P l hP hr
    refine ⟨[], new ++ l, by simp, ?_⟩
    rw [Advances, ← Nucleus.schedule_ready hP, hr, hnew]
    simp
  have apart : ∀ {c}, N'.Valid → N'.gCurrentProcess = some c →
      N'.queue.unlink c .ready = N'.ready := fun hv hc =>
    Lists.unlink_of_not_mem (hv.current _ hc).1
  cases hl with
  | stay _ _ hd =>
    refine ⟨[], new, by simp, ?_⟩
    have : e.dispatched = Option.none := by
      cases e with
      | dispatch p => exact absurd rfl (hd p)
      | _ => rfl
    rw [Advances, this, hnew]
    simp
  | @block a c hv _ _ hc hp =>
    apply none (l := []) hp
    rw [Queues.ready, Nucleus.queue_suspend, if_neg (by simp), apart hv hc, List.append_nil]
  | @preempt c hv _ hc hp =>
    apply none (l := [c]) hp
    rw [Queues.ready, Nucleus.queue_preempt, if_pos rfl, apart hv hc]
  | @kill P S p _ _ hr _ hp =>
    refine ⟨S, new.filter (· ∉ S), fun q hq => ?_, ?_⟩
    · rw [Nucleus.free_schedule hp]
      exact hr.mem_free hq
    · rw [Advances, ← Nucleus.schedule_ready hp, hr.ready, hnew, List.filter_append]

end

namespace Machine
variable {L : Layout} {ok : Machine → Event → Prop} {m m' : Machine} {N : Nucleus} {p : Pcb}

/-- The process that the scheduler dispatches in an event. -/
def dispatched (L : Layout) (m : Machine) (e : Event) : Option Pcb :=
  let result := match e with
    | .exception t => exceptionHandler L (m.trapped t)
    | .wake => scheduler m.kernel
  match result with
  | .error e _ => e.dispatched
  | .ok _ _ => none

/-- The runs from `m`, with the processes dispatched on the way, in order. -/
inductive Dispatches (L : Layout) (ok : Machine → Event → Prop) (m : Machine) :
    List Pcb → Machine → Prop
  | refl : Dispatches L ok m [] m
  | step {ds : List Pcb} {m' : Machine} {e : Event} : Dispatches L ok m ds m' → m'.Enabled e →
      ok m' e → Dispatches L ok m (ds ++ (m'.dispatched L e).toList) (m'.step L e)

/-- What one event does to the ready queue. -/
theorem step_advances {e : Event} (hS : m.Sound N) (he : m.Enabled e) :
    ∃ S new, (∀ q ∈ S, q ∈ (m.step L e).kernel.free) ∧
      Advances m.kernel.ready (m.step L e).kernel.ready S new (m.dispatched L e) := by
  rw [hS.refines.ready]
  cases e with
  | wake =>
    obtain ⟨s', hleft, hs'⟩ := scheduler_left hS.refines
    have hstep : m.step L .wake = ⟨s', resume m.mode s'.pcbs N.schedule.1⟩ := enter_left hleft
    have hd : m.dispatched L .wake = N.schedule.1.dispatched := by
      simp only [dispatched, hleft]
    refine ⟨[], [], by simp, ?_⟩
    rw [hstep, hs'.ready, hd, Advances, ← Nucleus.schedule_ready hS.refines.placed]
    simp
  | exception t =>
    obtain ⟨e, s', M, hleft, hM, hend⟩ := exception_left hS.refines (hS.covers_any he (L := L))
    have hstep : m.step L (.exception t) = ⟨s', resume m.mode s'.pcbs e⟩ := enter_left hleft
    have hd : m.dispatched L (.exception t) = e.dispatched := by
      simp only [dispatched, hleft]
    rw [hstep, hM.free, hM.ready, hd]
    exact hend.advances

/-- In the order in which `ds` were dispatched, `p` came after processes that
were ahead of it at the start, or its turn has not come and it is still ready
behind such processes. -/
structure Turn (start ds : List Pcb) (p : Pcb) (ready : List Pcb) : Prop where
  had : p ∈ ds → ∃ before after, ds = before ++ p :: after ∧ p ∉ before ∧ before.Sublist start
  waits : p ∉ ds → ∃ ahead behind, ready = ahead ++ p :: behind ∧ (ds ++ ahead).Sublist start

theorem Turn.advances {start ds ready ready' S new : List Pcb} {d : Option Pcb}
    (h : Turn start ds p ready) (hadv : Advances ready ready' S new d) (hp : p ∉ S) :
    Turn start (ds ++ d.toList) p ready' := by
  by_cases hds : p ∈ ds
  · refine ⟨fun _ => ?_, fun hn => absurd (List.mem_append_left _ hds) hn⟩
    obtain ⟨before, after, rfl, hb, hs⟩ := h.had hds
    exact ⟨before, after ++ d.toList, by simp, hb, hs⟩
  · obtain ⟨ahead, behind, hready, hs⟩ := h.waits hds
    rcases hadv.keeps hready hp with rfl | ⟨ahead', behind', hr', ha'⟩
    · refine ⟨fun _ => ⟨ds, [], rfl, hds, ?_⟩, fun hn => absurd (by simp) hn⟩
      exact (List.sublist_append_left ds ahead).trans hs
    · have hs' : (ds ++ d.toList ++ ahead').Sublist start := by
        rw [List.append_assoc, ha']
        exact ((List.Sublist.refl ds).append List.filter_sublist).trans hs
      refine ⟨fun hm => ?_, fun _ => ⟨ahead', behind', hr', hs'⟩⟩
      -- whoever is dispatched was ahead of `p`, so it is not `p` itself
      cases d with
      | none => simp [hds] at hm
      | some q =>
        obtain rfl : p = q := by simpa [hds] using hm
        refine ⟨ds, [], rfl, hds, ?_⟩
        exact (List.sublist_append_left ds ahead).trans hs

theorem Dispatches.turn {k : Nat} {ds : List Pcb} (h : Reachable L ok m)
    (hp : m.kernel.ready[k]? = some p)
    (hr : Dispatches L (fun m e => ok m e ∧ p ∉ (m.step L e).kernel.free) m ds m') :
    Reachable L ok m' ∧ Turn (m.kernel.ready.take k) ds p m'.kernel.ready := by
  induction hr with
  | refl =>
    refine ⟨h, by simp, fun _ => ⟨m.kernel.ready.take k, m.kernel.ready.drop (k + 1), ?_, by simp⟩⟩
    obtain ⟨hk, rfl⟩ := List.getElem?_eq_some_iff.mp hp
    rw [← List.drop_eq_getElem_cons hk, List.take_append_drop]
  | @step ds m' e _ he hok ih =>
    obtain ⟨hm', hturn⟩ := ih
    obtain ⟨N, hS⟩ := hm'.sound
    obtain ⟨S, new, hfree, hadv⟩ := step_advances hS he (L := L)
    exact ⟨hm'.step he hok.1, hturn.advances hadv fun hp => hok.2 (hfree p hp)⟩

/-- A local-timer interrupt is taken only while a process runs. -/
def TimerRuns (m : Machine) : Event → Prop
  | .exception t => excCode (t.old 1) = 0 → t.old 1 &&& localTimerInt ≠ 0 → ∃ p, m.mode = .running p
  | .wake => True

instance (m : Machine) : (e : Event) → Decidable (m.TimerRuns e)
  | .exception _ => inferInstanceAs (Decidable (_ → _ → _))
  | .wake => inferInstanceAs (Decidable True)

/-- Only those that were ahead of `p` are dispatched before it. -/
theorem Turn.before {start ds ready before after : List Pcb} (h : Turn start ds p ready)
    (hds : ds = before ++ after) (hp : p ∉ before) : before.Sublist start := by
  subst hds
  by_cases hm : p ∈ before ++ after
  · obtain ⟨before', after', heq, -, hs⟩ := h.had hm
    rcases List.append_eq_append_iff.mp heq with ⟨mid, rfl, -⟩ | ⟨mid, rfl, hmid⟩
    · exact (List.sublist_append_left before mid).trans hs
    · cases mid with
      | nil => simpa using hs
      | cons q mid =>
        obtain rfl : p = q := (List.cons.inj hmid).1
        simp at hp
  · obtain ⟨ahead, _, -, hs⟩ := h.waits hm
    rw [List.append_assoc] at hs
    exact (List.sublist_append_left before _).trans hs

/-- The ready queue is served in order: a process that is not terminated stays
ready and comes nearer, or it has been dispatched, and only those that were
ahead of it are dispatched before it. -/
theorem no_overtaking {k : Nat} {ds : List Pcb} (h : Reachable L ok m)
    (hp : m.kernel.ready[k]? = some p)
    (hr : Dispatches L (fun m e => ok m e ∧ p ∉ (m.step L e).kernel.free) m ds m') :
    (ds.length ≤ k → p ∈ ds ∨ ∃ j, m'.kernel.ready[j]? = some p ∧ j ≤ k - ds.length) ∧
    (k + 1 ≤ ds.length → p ∈ ds.take (k + 1)) ∧
    ∀ before after, ds = before ++ after → p ∉ before → before.Sublist (m.kernel.ready.take k) := by
  obtain ⟨-, hturn⟩ := hr.turn h hp
  have hlen : (m.kernel.ready.take k).length ≤ k := List.length_take_le _ _
  refine ⟨fun _ => ?_, fun hk => ?_, fun _ _ hds hn => hturn.before hds hn⟩
  · by_cases hds : p ∈ ds
    · exact .inl hds
    · obtain ⟨ahead, behind, hready, hs⟩ := hturn.waits hds
      refine .inr ⟨ahead.length, by simp [hready], ?_⟩
      have := hs.length_le
      rw [List.length_append] at this
      omega
  · by_contra hn
    have hs := hturn.before (List.take_append_drop (k + 1) ds).symm hn
    have := hs.length_le
    rw [List.length_take] at this
    omega

/-- A process with two children that are ready. -/
def siblings : Machine := sampleBoot.run sampleLayout [call 1 0x20060000 0 0, call 1 0x20060000 0 0]

theorem siblings_reachable :
    Reachable sampleLayout (fun m e => m.Lawful sampleLayout e ∧ m.TimerRuns e) siblings :=
  .run (.boot _ _ _) (by decide +kernel)

theorem no_overtaking_siblings : (17 : Pcb) ∈ (siblings.dispatched sampleLayout (preempt siblings)).toList ∨
    ∃ j, (siblings.step sampleLayout (preempt siblings)).kernel.ready[j]? = some (17 : Pcb) ∧ j ≤ 0 := by
  have hd : (siblings.dispatched sampleLayout (preempt siblings)).toList = [18] := by decide +kernel
  have hrun : Dispatches sampleLayout (fun m e => (m.Lawful sampleLayout e ∧ m.TimerRuns e) ∧
      (17 : Pcb) ∉ (m.step sampleLayout e).kernel.free) siblings
      ([] ++ (siblings.dispatched sampleLayout (preempt siblings)).toList)
      (siblings.step sampleLayout (preempt siblings)) :=
    .step .refl (by decide +kernel) (by decide +kernel)
  have h := (no_overtaking (k := 1) siblings_reachable (by decide +kernel) hrun).1
  rw [List.nil_append, hd] at h
  rw [hd]
  exact h (by decide)

/-- The process that terminates the first of its two children dispatches the
second at once, which is then no longer ready. -/
theorem ready_not_still : ¬∀ (L : Layout) (m m' : Machine) (p : Pcb) (k : Nat) (ds : List Pcb),
    Reachable L (fun m e => m.Lawful L e ∧ m.TimerRuns e) m → m.kernel.ready[k]? = some p →
    Dispatches L (fun m e => (m.Lawful L e ∧ m.TimerRuns e) ∧ p ∉ (m.step L e).kernel.free)
      m ds m' →
    (ds.length ≤ k → ∃ j, m'.kernel.ready[j]? = some p ∧ j ≤ k - ds.length) ∧
    (k + 1 ≤ ds.length → p ∈ ds.take (k + 1)) ∧
    ∀ before after, ds = before ++ after → p ∉ before → before.Sublist (m.kernel.ready.take k) := by
  intro h
  let kill : Event := .exception (callTrap 2 (sampleLayout.pcb 18) 0 0 siblings)
  have hd : (siblings.dispatched sampleLayout kill).toList = [17] := by decide +kernel
  have hrun : Dispatches sampleLayout (fun m e => (m.Lawful sampleLayout e ∧ m.TimerRuns e) ∧
      (17 : Pcb) ∉ (m.step sampleLayout e).kernel.free) siblings
      ([] ++ (siblings.dispatched sampleLayout kill).toList) (siblings.step sampleLayout kill) :=
    .step .refl (by decide +kernel) (by decide +kernel)
  rw [List.nil_append, hd] at hrun
  obtain ⟨j, hj, -⟩ := (h sampleLayout siblings _ 17 1 [17] siblings_reachable (by decide +kernel)
    hrun).1 (by decide)
  have hready : (siblings.step sampleLayout kill).kernel.ready = [] := by decide +kernel
  rw [hready] at hj
  cases hj

end Machine

end Pandos
