import Pandos.Scenario

/-!
# Completion of I/O

What the interrupt of a device does when other processes wait for the device,
and when the process in I/O has been terminated: the blocking half of
`PASSEREN` and `VERHOGEN` acts on the interrupted process.
-/

namespace Pandos
open Intrusive Outcome

namespace Runs
variable {L : Layout} {N M : Nucleus} {d : Dev} {p q : Pcb} {l : List Pcb} {a : Word}

theorem waiter_ne_current {c : Pcb} {a : Word} (hN : N.Placed) (hcur : N.Current)
    (hq : q ∈ N.waiters a) (hc : N.gCurrentProcess = some c) : q ≠ c := by
  rintro rfl
  exact hN.not_waiting (hcur q hc).2 hq

/-- The process that the device is handed to is in no queue afterwards. -/
theorem passDevice_drops (hw : N.waiters (L.addr (.semMut d)) = q :: l)
    (hv : (N.gSysiostates d).semSync ≠ 1) :
    Runs (Pandos.passDevice L d) N (fun _ M => q ∉ M.waiters (L.addr (.semSync d)))
      fun _ M => q ∉ M.waiters (L.addr (.semSync d)) := by
  refine sound fun ⟨hN, _, hcur⟩ => passDevice (fun hn => ?_) fun q' l' hw' => beginIo ?_
  · cases hn.symm.trans hw
  obtain ⟨rfl, rfl⟩ := List.cons.inj (hw.symm.trans hw')
  have hq : q ∈ N.waiters (L.addr (.semMut d)) := by simp [hw]
  have hload : (Nucleus.start ⟨N.toQueues.wake q, N.toGlobals⟩ d q).load L (L.addr (.semSync d)) =
      (N.gSysiostates d).semSync := by
    rw [Nucleus.start, Globals.submit_eq]
    simp [Globals.word, Globals.modDev]
  have hgone : q ∉ (N.toQueues.wake q).waiters (L.addr (.semSync d)) :=
    fun hm => (Lists.mem_unlink.mp hm).2 rfl
  apply semOp_blocks (L.addr_ne_zero _) fun h => hv (hload.symm.trans h)
  · intro _ c hc _ hm
    have hc' : N.gCurrentProcess = some c := by
      rw [← hc, Nucleus.start, Globals.submit_eq]
      rfl
    rcases (Nucleus.mem_suspend _ _ _ _).mp (Nucleus.mem_of_mem_schedule hm) with ⟨hm, -⟩ | ⟨-, h⟩
    · exact hgone hm
    · exact waiter_ne_current hN hcur hq hc' h
  · exact fun _ => hgone

/-- A process that waits for the device is not taken into I/O while the one in
I/O is still blocked. -/
theorem serveDevice_drops (hw : N.waiters (L.addr (.semMut d)) = q :: l)
    (hs : N.waiters (L.addr (.semSync d)) ≠ []) (hp : (N.gSysiostates d).waitingProcess = some p) :
    Runs (Pandos.serveDevice L d a) N (fun _ M => q ∉ M.waiters (L.addr (.semSync d)))
      fun _ M => q ∉ M.waiters (L.addr (.semSync d)) := by
  have hq : q ∈ N.waiters (L.addr (.semMut d)) := by simp [hw]
  have verhogen : ∀ M : Nucleus, M.queue = N.queue → M.gSysiostates = N.gSysiostates →
      Runs (sysVerhogen L (L.addr (.semSync d))) M
        (fun _ M' => Runs (Pandos.passDevice L d) M'
          (fun _ P => q ∉ P.waiters (L.addr (.semSync d)))
          fun _ P => q ∉ P.waiters (L.addr (.semSync d)))
        fun _ P => q ∉ P.waiters (L.addr (.semSync d)) := by
    intro M hqueue hsys
    refine sound fun ⟨hM, _, hcur⟩ => ?_
    have hqM : q ∈ M.waiters (L.addr (.semMut d)) := by rwa [Queues.waiters, hqueue]
    have hload : M.load L (L.addr (.semSync d)) = (M.gSysiostates d).semSync := by
      simp [Globals.word]
    have hne : q ∉ M.waiters (L.addr (.semSync d)) := fun hm => by
      have := L.addr_injective (Place.sem.inj (hM.apart.unique hqM hm))
      cases this
    apply semOp (L.addr_ne_zero _)
    · intro h0 r l' hr
      apply passDevice_drops (l := l)
      · have hr' : r ∈ M.waiters (L.addr (.semSync d)) := by simp [hr]
        have hother : M.queue.unlink r (.sem (L.addr (.semMut d))) = q :: l := by
          rw [hM.apart.unlink_other hr' (fun h => by cases L.addr_injective (Place.sem.inj h)), hqueue]
          exact hw
        rw [Queues.waiters, Nucleus.queue_wakeUp, if_neg (by simp), hother]
      · show (M.gSysiostates d).semSync ≠ 1
        rw [← hload, h0]
        decide
    · intro _ hn
      exact absurd (by rwa [Queues.waiters, hqueue] at hn) hs
    · intro _ c hc _ hm
      rcases (Nucleus.mem_suspend _ _ _ _).mp (Nucleus.mem_of_mem_schedule hm) with ⟨hm, -⟩ | ⟨-, h⟩
      · exact hne hm
      · exact waiter_ne_current hM hcur hqM hc h
    · exact fun _ _ => hne
  refine serveDevice (fun _ => ?_) (fun r _ _ => ?_) fun _ hn => by cases hn.symm.trans hp
  · exact verhogen _ (N.touch_ack a).queue Nucleus.ack_gSysiostates
  · exact verhogen _ (N.touch_complete r a).queue Nucleus.complete_gSysiostates

/-- The completion of the I/O of a terminated process never gets beyond its
`VERHOGEN`. -/
theorem serveDevice_stale (hs : (N.gSysiostates d).semSync = -1) :
    Runs (Pandos.serveDevice L d a) N (fun _ _ => False)
      fun _ M => (M.gSysiostates d).semSync = -1 := by
  have hstale : ((N.ack a).gSysiostates d).semSync = -1 := by rwa [Nucleus.ack_gSysiostates]
  have hload : (N.ack a).load L (L.addr (.semSync d)) ≠ 0 := by
    simp [Globals.word, hstale]
  refine serveDevice (fun _ => ?_) (fun _ hn _ => absurd hs hn) fun hn _ => absurd hs hn
  apply semOp_blocks (L.addr_ne_zero _) hload
  · intro _ c _ _
    rw [Nucleus.globals_schedule]
    exact hstale
  · exact fun _ => hstale

end Runs

section
variable {L : Layout} {ok : Machine → Event → Prop} {m : Machine} {t : Trap} {u v : Kernel}
  {d : Dev} {p q : Pcb} {l : List Pcb}

theorem pass_refines (h : Machine.Reachable L ok m) (hu : Pass L (m.trapped t).charged u) :
    ∃ N, u.Refines N := by
  obtain ⟨N, hS⟩ := h.sound
  obtain ⟨M, hM, -⟩ := hu.sound (updateProcessTime_ok (Machine.trapped_refines hS.refines t)).2
  exact ⟨M, hM⟩

/-! ## Passing the baton -/

/-- What the interrupt of device `d` should do when `p` is in I/O on it and `q`
and then `l` wait for it, from `u` to `v`: `p` is ready, `q` is in I/O and has
its command in the registers, `l` still waits, and everybody else is where he
was. -/
structure HandsOver (L : Layout) (u v : Kernel) (d : Dev) (p q : Pcb) (l : List Pcb) : Prop where
  ready : p ∈ v.ready
  blocked : v.waiters (L.addr (.semSync d)) = [q]
  waiting : (v.gSysiostates d).waitingProcess = some q
  command : ∀ i : Nat, i < getNumRegister (u.pcbs q).cmdAddr →
    v.bus (wordAt (u.pcbs q).cmdAddr i) = u.mem (wordAt (u.pcbs q).cmdValues i)
  waiters : v.waiters (L.addr (.semMut d)) = l
  semMut : (v.gSysiostates d).semMut = 0
  others : ∀ k r, r ≠ p → r ≠ q → (r ∈ v.nucleus.queue k ↔ r ∈ u.nucleus.queue k)

/-- The baton is never passed. -/
theorem baton_dropped (h : Machine.Reachable L ok m) (hu : Pass L (m.trapped t).charged u)
    (hd : u.Serves d) (hp : (u.gSysiostates d).waitingProcess = some p)
    (hs : p ∈ u.waiters (L.addr (.semSync d))) (hm : u.waiters (L.addr (.semMut d)) = q :: l) :
    ¬HandsOver L u (final (serveLine L) u) d p q l := by
  obtain ⟨N, hN⟩ := pass_refines h hu
  have hq : q ∉ (final (serveLine L) u).waiters (L.addr (.semSync d)) := by
    have hrun : Runs (serveLine L) N (fun _ M => q ∉ M.waiters (L.addr (.semSync d)))
        fun _ M => q ∉ M.waiters (L.addr (.semSync d)) := by
      refine Runs.serveLine_serves hN hd fun bit ty _ _ _ => ?_
      rw [hN.waiters] at hs hm
      apply Runs.serveDevice_drops (N := N.clear bit) (p := p) hm (List.ne_nil_of_mem hs)
      rw [hN.globals] at hp
      exact hp
    exact hrun.final hN
  intro hh
  rw [hh.blocked] at hq
  simp at hq

/-- One process does I/O on a disk, one waits for it and one runs. -/
def contended : Machine := sampleBoot.run sampleLayout
  [call 1 0x20060000 0 0, call 1 0x20060000 0 0, call 5 0x10000054 0x20070000 0,
    call 5 0x10000054 0x20070000 0]

theorem contended_reachable :
    Machine.Reachable sampleLayout (Machine.Lawful sampleLayout) contended :=
  .run (.boot _ _ _) (by decide +kernel)

/-- The interrupt of the disk. -/
def contendedPass : Kernel := (contended.trapped (diskTrap contended)).charged

theorem contended_serves : contendedPass.Serves 0 :=
  ⟨0x800, 3, by decide +kernel, by decide +kernel, by decide +kernel⟩

theorem baton_dropped_disk :
    ¬HandsOver sampleLayout contendedPass (final (serveLine sampleLayout) contendedPass) 0 19 18 [] :=
  baton_dropped contended_reachable (.first _) contended_serves (by decide +kernel)
    (by decide +kernel) (by decide +kernel)

/-- The process that waits for the disk is dropped, and the running one is
blocked. -/
theorem baton_not_passed : ¬∀ (L : Layout) (m : Machine) (t : Trap) (u : Kernel) (d : Dev)
    (p q : Pcb) (l : List Pcb), Machine.Reachable L (Machine.Lawful L) m →
    m.Enabled (.exception t) → excCode (t.old 1) = 0 → Pass L (m.trapped t).charged u →
    u.Serves d → (u.gSysiostates d).waitingProcess = some p →
    p ∈ u.waiters (L.addr (.semSync d)) → u.waiters (L.addr (.semMut d)) = q :: l →
    HandsOver L u (final (serveLine L) u) d p q l := by
  intro h
  have hh := h sampleLayout contended (diskTrap contended) contendedPass 0 19 18 []
    contended_reachable (by decide +kernel) (by decide +kernel) (.first _) contended_serves
    (by decide +kernel) (by decide +kernel) (by decide +kernel)
  exact absurd hh.blocked (by decide +kernel)

/-! ## I/O of a terminated process -/

/-- What the interrupt of device `d` should do when the process in I/O has been
terminated, from `u` to `v`. -/
structure CleansUp (L : Layout) (u v : Kernel) (d : Dev) : Prop where
  sync : (v.gSysiostates d).semSync = 0
  blocked : ∀ a r, a ≠ L.addr (.semSync d) → r ∈ v.waiters a → r ∈ u.waiters a
  current : v.gCurrentProcess = u.gCurrentProcess
  values : v.mem = u.mem
  saved : ∀ r, (v.pcbs r).pS = (u.pcbs r).pS
  idle : u.waiters (L.addr (.semMut d)) = [] →
    (∃ a, resolveDeviceAddress a = d.val ∧ v.bus = Function.update u.bus (a + 4) ack) ∧
    (v.gSysiostates d).semMut = 1 ∧ (v.gSysiostates d).waitingProcess = none ∧
    v.waiters (L.addr (.semSync d)) = []
  next : ∀ q l, u.waiters (L.addr (.semMut d)) = q :: l →
    (v.gSysiostates d).semMut = 0 ∧ (v.gSysiostates d).waitingProcess = some q ∧
    v.waiters (L.addr (.semSync d)) = [q] ∧ v.waiters (L.addr (.semMut d)) = l

/-- The I/O of a terminated process is never cleaned up. -/
theorem stale_io_stays (h : Machine.Reachable L ok m) (hu : Pass L (m.trapped t).charged u)
    (hd : u.Serves d) (hs : (u.gSysiostates d).semSync = -1) :
    ¬CleansUp L u (final (serveLine L) u) d := by
  obtain ⟨N, hN⟩ := pass_refines h hu
  have hsync : ((final (serveLine L) u).gSysiostates d).semSync = -1 := by
    have hrun : Runs (serveLine L) N (fun _ M => (M.gSysiostates d).semSync = -1)
        fun _ M => (M.gSysiostates d).semSync = -1 := by
      refine Runs.serveLine_serves hN hd fun bit ty _ _ _ => ?_
      rw [hN.globals] at hs
      exact (Runs.serveDevice_stale (N := N.clear bit) hs).mono (fun _ _ => False.elim) fun _ _ => id
    exact hrun.final hN
  intro hc
  rw [hc.sync] at hsync
  exact absurd hsync (by decide)

/-- A process does I/O on a disk, its parent terminates itself, and the
grandparent runs. -/
def orphaned : Machine := sampleBoot.run sampleLayout
  [call 1 0x20060000 0 0, preempt, call 1 0x20060000 0 0, preempt, preempt,
    call 5 0x10000054 0x20070000 0, call 2 0 0 0]

theorem orphaned_reachable :
    Machine.Reachable sampleLayout (Machine.Lawful sampleLayout) orphaned :=
  .run (.boot _ _ _) (by decide +kernel)

/-- The interrupt of the disk. -/
def orphanedPass : Kernel := (orphaned.trapped (diskTrap orphaned)).charged

theorem orphaned_serves : orphanedPass.Serves 0 :=
  ⟨0x800, 3, by decide +kernel, by decide +kernel, by decide +kernel⟩

theorem stale_io_stays_disk :
    ¬CleansUp sampleLayout orphanedPass (final (serveLine sampleLayout) orphanedPass) 0 :=
  stale_io_stays orphaned_reachable (.first _) orphaned_serves (by decide +kernel)

/-- The interrupt leaves `sem_sync` at -1 and blocks the grandparent. -/
theorem stale_io_not_cleaned : ¬∀ (L : Layout) (m : Machine) (t : Trap) (u : Kernel) (d : Dev),
    Machine.Reachable L (Machine.Lawful L) m → m.Enabled (.exception t) →
    excCode (t.old 1) = 0 → Pass L (m.trapped t).charged u → u.Serves d →
    (u.gSysiostates d).semSync = -1 → CleansUp L u (final (serveLine L) u) d := by
  intro h
  have hh := h sampleLayout orphaned (diskTrap orphaned) orphanedPass 0 orphaned_reachable
    (by decide +kernel) (by decide +kernel) (.first _) orphaned_serves (by decide +kernel)
  exact absurd hh.sync (by decide +kernel)

end

end Pandos
