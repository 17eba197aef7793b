import Pandos.Scenario

/-!
# Conservation of processes

Without device I/O no process is lost: each one is free, ready, blocked or
executing, and the process count is right.
-/

namespace Pandos
open Intrusive

namespace Nucleus

/-- All processes are counted. -/
def Counted (N : Nucleus) : Prop := N.gProcessCount + N.free.length = maxProc

namespace Counted
variable {N M : Nucleus} {p c : Pcb} {a : Word} {l : List Pcb}

/-- Neither the count nor the free list changes. -/
theorem keep (h : N.Counted) (hn : M.gProcessCount = N.gProcessCount) (hf : M.free = N.free) :
    M.Counted := by
  rw [Counted, hn, hf]
  exact h

theorem create {r : PcbT} (h : N.Counted) (hN : N.Placed) (hf : N.free = p :: l) :
    (N.create c p r).Counted := by
  have hl : (N.create c p r).free = l := by
    rw [Queues.free, queue_create, if_neg (by simp)]
    exact hN.apart.unlink_cons hf
  rw [Counted, hf, List.length_cons] at h
  rw [Counted, hl]
  show N.gProcessCount + 1 + _ = _
  omega

theorem suspend (h : N.Counted) (hf : c ∉ N.free) : (N.suspend a c).Counted := by
  refine h.keep rfl ?_
  rw [Queues.free, queue_suspend, if_neg (by simp)]
  exact Lists.unlink_of_not_mem hf

theorem preempt (h : N.Counted) (hf : c ∉ N.free) : (N.preempt c).Counted := by
  refine h.keep rfl ?_
  rw [Queues.free, queue_preempt, if_neg (by simp)]
  exact Lists.unlink_of_not_mem hf

theorem reap {S : List Pcb} {L : Layout} (h : N.Counted) (hr : Reaped L S N M)
    (hS : ∀ q ∈ S, q ∉ N.free) : M.Counted := by
  have hf : N.free.filter (· ∉ S) = N.free :=
    List.filter_eq_self.mpr fun q hq => by simpa using fun hm => hS q hm hq
  rw [Counted] at h
  rw [Counted, hr.free, hr.count, hf, List.length_append, List.length_reverse]
  omega

theorem schedule (h : N.Counted) (hN : N.Placed) : N.schedule.2.Counted := by
  apply h.keep _ (free_schedule hN)
  rw [globals_schedule]

end Counted

/-- A waiting process is not free. -/
theorem free_unlink_waiter {N : Nucleus} {p : Pcb} {a : Word} {l : List Pcb} (hN : N.Placed)
    (hw : N.waiters a = p :: l) : N.queue.unlink p .free = N.free := by
  apply hN.apart.unlink_other (h := .sem a)
  · rw [show N.queue (.sem a) = p :: l from hw]
    simp
  · simp

/-- No process is lost, and all are counted. -/
structure Held (N : Nucleus) : Prop where
  place : ∀ p, p ∈ N.free ∨ p ∈ N.ready ∨ (N.pcbs p).pSemAdd ≠ 0 ∨ N.gCurrentProcess = some p
  count : N.Counted

/-- The current process, if there is one, is not alive. -/
def Idle (N : Nucleus) : Prop := ∀ c, N.gCurrentProcess = some c → c ∈ N.free

namespace Held
variable {N M : Nucleus} {p c : Pcb} {a : Word} {l : List Pcb}

theorem still (h : N.Held) (ht : N.Still M) : M.Held where
  place p := by
    rw [ht.free, ht.ready, ht.semAdd, ht.current]
    exact h.place p
  count := h.count.keep ht.count ht.free

theorem wakeUp (h : N.Held) (hN : N.Placed) (hw : N.waiters a = p :: l) : (N.wakeUp p).Held where
  place q := by
    by_cases hq : q = p
    · exact .inr (.inl ((N.mem_wakeUp _ _).mpr (.inr ⟨rfl, hq⟩)))
    · refine (h.place q).imp (fun hf => ?_) (.imp (fun hr => ?_) (.imp (fun h0 => ?_) id))
      · exact (N.mem_wakeUp _ _).mpr (.inl ⟨hf, hq⟩)
      · exact (N.mem_wakeUp _ _).mpr (.inl ⟨hr, hq⟩)
      · rwa [pcbs_wakeUp, if_neg hq]
  count := by
    refine h.count.keep rfl ?_
    rw [Queues.free, queue_wakeUp, if_neg (by simp), free_unlink_waiter hN hw]

theorem create {r : PcbT} (h : N.Held) (hN : N.Placed) (hf : N.free = p :: l) :
    (N.create c p r).Held where
  place q := by
    by_cases hq : q = p
    · exact .inr (.inl (mem_create.mpr (.inr ⟨rfl, hq⟩)))
    · refine (h.place q).imp (fun hf => ?_) (.imp (fun hr => ?_) (.imp (fun h0 => ?_) id))
      · exact mem_create.mpr (.inl ⟨hf, hq⟩)
      · exact mem_create.mpr (.inl ⟨hr, hq⟩)
      · rwa [pcbs_create, if_neg hq]
  count := h.count.create hN hf

theorem suspend (h : N.Held) (hc : N.gCurrentProcess = some c) (ha : a ≠ 0)
    (hf : c ∉ N.free) : (N.suspend a c).Held where
  place q := by
    by_cases hq : q = c
    · refine .inr (.inr (.inl ?_))
      rwa [semAdd_suspend, if_pos hq]
    · refine (h.place q).imp (fun hf => ?_) (.imp (fun hr => ?_) (.imp (fun h0 => ?_) fun hc' => ?_))
      · exact (N.mem_suspend _ _ _).mpr (.inl ⟨hf, hq⟩)
      · exact (N.mem_suspend _ _ _).mpr (.inl ⟨hr, hq⟩)
      · rwa [semAdd_suspend, if_neg hq]
      · exact absurd (Option.some.inj (hc'.symm.trans hc)) hq
  count := h.count.suspend hf

theorem preempt (h : N.Held) (hc : N.gCurrentProcess = some c) (hf : c ∉ N.free) :
    (N.preempt c).Held where
  place q := by
    by_cases hq : q = c
    · exact .inr (.inl ((N.mem_preempt _ _).mpr (.inr ⟨rfl, hq⟩)))
    · refine (h.place q).imp (fun hf => ?_) (.imp (fun hr => ?_) (.imp (fun h0 => ?_) fun hc' => ?_))
      · exact (N.mem_preempt _ _).mpr (.inl ⟨hf, hq⟩)
      · exact (N.mem_preempt _ _).mpr (.inl ⟨hr, hq⟩)
      · rwa [pcbs_preempt, if_neg hq]
      · exact absurd (Option.some.inj (hc'.symm.trans hc)) hq
  count := h.count.preempt hf

theorem reap {S : List Pcb} {L : Layout} (h : N.Held) (hr : Reaped L S N M)
    (hS : ∀ q ∈ S, q ∉ N.free) : M.Held where
  place q := by
    by_cases hq : q ∈ S
    · exact .inl (hr.mem_free hq)
    · rw [hr.free, hr.ready, hr.pcbs, if_neg hq]
      refine (h.place q).imp (fun hf => ?_) (.imp (fun hm => ?_) (.imp id fun hc => ?_))
      · exact List.mem_append_right _ (List.mem_filter.mpr ⟨hf, by simpa using hq⟩)
      · exact List.mem_filter.mpr ⟨hm, by simpa using hq⟩
      · rw [hr.rest]
        exact hc
  count := h.count.reap hr hS

/-- The scheduler loses nobody unless the current process is alive. -/
theorem schedule (h : N.Held) (hN : N.Placed) (hi : N.Idle) : N.schedule.2.Held := by
  cases hr : N.ready with
  | nil =>
    rw [schedule_nil hr]
    exact h
  | cons p l =>
    rw [schedule_cons hr]
    have hp : p ∈ N.ready := by simp [hr]
    refine ⟨fun q => ?_, ?_⟩
    · by_cases hq : q = p
      · exact .inr (.inr (.inr (hq ▸ rfl)))
      · rcases h.place q with hf | hm | h0 | hc
        · exact .inl (Lists.mem_unlink.mpr ⟨hf, hq⟩)
        · exact .inr (.inl (Lists.mem_unlink.mpr ⟨hm, hq⟩))
        · exact .inr (.inr (.inl h0))
        · exact .inl (Lists.mem_unlink.mpr ⟨hi q hc, hq⟩)
    · exact h.count.keep rfl (hN.apart.unlink_other hp (by simp))

end Held

theorem Idle.schedule {N : Nucleus} {mode : Mode} (hi : N.Idle) (h : N.Saved)
    (hw : Machine.resume mode N.schedule.2.pcbs N.schedule.1 = .waiting) : N.schedule.2.Idle := by
  rw [pcbs_schedule] at hw
  rw [schedule_nil (schedule_waiting h hw).1]
  exact hi

end Nucleus

/-- What `p_list` links a pcb into. -/
inductive Linkage
  | free
  | ready
  | blocked
  | nowhere

/-- A blocked pcb is on the queue of one active descriptor, whose key is its
`p_semAdd`. -/
def Tables.At (t : Tables) (p : Pcb) : Linkage → Prop
  | .free => p ∈ t.free
  | .ready => p ∈ t.ready
  | .blocked => ∃ i, (∃ b, i ∈ t.semdH b) ∧ p ∈ t.procQ (.sProcq i) ∧
      t.sKey i = (t.pcbs p).pSemAdd ∧ ∀ j, p ∈ t.procQ (.sProcq j) → j = i
  | .nowhere => ∀ k, p ∉ t.procQ k

/-- Every pcb is in one place, and only the executing process is nowhere. -/
structure Kernel.Conserved (s : Kernel) (executing : Option Pcb) : Prop where
  place : ∀ p, ∃! k, s.At p k
  nodup : ∀ k, (s.procQ k).Nodup
  nowhere : ∀ p, s.At p .nowhere ↔ executing = some p
  semAdd : ∀ p, s.At p .ready ∨ s.At p .nowhere → (s.pcbs p).pSemAdd = 0
  count : s.gProcessCount = (Finset.univ.filter fun p => p ∉ s.free).card

namespace Tables.Queued
variable {t : Tables} {p : Pcb}

theorem at_blocked (h : t.Queued) : t.At p .blocked ↔ (t.pcbs p).pSemAdd ≠ 0 := by
  constructor
  · rintro ⟨i, -, hi, -⟩ h0
    exact h.semAdd_eq_zero.mp h0 i hi
  · intro h0
    obtain ⟨i, hi⟩ := h.blocked p h0
    refine ⟨i, ⟨_, (h.placed _ i).mpr ⟨h.active_of_mem hi, rfl⟩⟩, hi, (h.keyed i p hi).symm, ?_⟩
    exact fun j hj => ProcQ.sProcq.inj (h.apart.unique hj hi)

theorem at_nowhere (h : t.Queued) :
    t.At p .nowhere ↔ p ∉ t.free ∧ p ∉ t.ready ∧ (t.pcbs p).pSemAdd = 0 := by
  rw [h.semAdd_eq_zero]
  refine ⟨fun hn => ⟨hn _, hn _, fun i => hn _⟩, ?_⟩
  rintro ⟨hf, hr, hi⟩ k
  cases k with
  | pcbFreeH => exact hf
  | gReadyQueue => exact hr
  | sProcq i => exact hi i

theorem at_unique (h : t.Queued) {j k : Linkage} (hj : t.At p j) (hk : t.At p k) : j = k := by
  have free : t.At p .free → (t.pcbs p).pSemAdd = 0 := h.semAdd_of_free
  have ready : t.At p .ready → (t.pcbs p).pSemAdd = 0 := h.semAdd_of_ready
  have apart : t.At p .ready → ¬t.At p .free := h.not_free_of_ready
  have blocked := h.at_blocked (p := p)
  have nowhere : t.At p .nowhere ↔ ¬t.At p .free ∧ ¬t.At p .ready ∧ (t.pcbs p).pSemAdd = 0 :=
    h.at_nowhere
  cases j <;> cases k <;> first | rfl | grind

end Tables.Queued

theorem Nucleus.Held.conserved {s : Kernel} {N : Nucleus} {executing : Option Pcb} (h : N.Held)
    (hs : s.Refines N) (he : ∀ p, executing = some p ↔ N.gCurrentProcess = some p ∧ p ∉ N.free) :
    s.Conserved executing where
  place p := by
    have hp := h.place p
    rw [← hs.free, ← hs.ready, ← hs.pcbs] at hp
    have : ∃ k, s.At p k := by
      rcases hp with hf | hr | h0 | hc
      · exact ⟨.free, hf⟩
      · exact ⟨.ready, hr⟩
      · exact ⟨.blocked, hs.queued.at_blocked.mpr h0⟩
      · by_cases hf : p ∈ s.free
        · exact ⟨.free, hf⟩
        · refine ⟨.nowhere, hs.queued.at_nowhere.mpr ⟨hf, ?_⟩⟩
          rw [hs.ready, hs.pcbs]
          exact hs.current p hc
    obtain ⟨k, hk⟩ := this
    exact ⟨k, hk, fun j hj => hs.queued.at_unique hj hk⟩
  nodup := hs.queued.apart.nodup
  nowhere p := by
    rw [hs.queued.at_nowhere, he, hs.free, hs.ready, hs.pcbs]
    constructor
    · rintro ⟨hf, hr, h0⟩
      have := h.place p
      simp_all
    · rintro ⟨hc, hf⟩
      exact ⟨hf, hs.current p hc⟩
  semAdd p := by
    rintro (hr | hn)
    · exact hs.queued.semAdd_of_ready hr
    · exact (hs.queued.at_nowhere.mp hn).2.2
  count := by
    have hnot : (Finset.univ.filter fun p => p ∉ s.free) = s.free.toFinsetᶜ := by
      ext p
      simp
    have hle : s.free.length ≤ _ := (hs.queued.apart.nodup .pcbFreeH).length_le_card
    rw [Fintype.card_fin] at hle
    rw [hnot, Finset.card_compl, List.toFinset_card_of_nodup (hs.queued.apart.nodup _),
      Fintype.card_fin]
    have hcount : N.gProcessCount + N.free.length = maxProc := h.count
    rw [← hs.free] at hcount
    have : s.gProcessCount = N.gProcessCount := by rw [hs.globals]
    change s.gProcessCount = ((maxProc - s.free.length : Nat) : Int)
    omega

/-! ## The runs -/

/-- Only timers interrupt, the local timer only while a process runs. -/
def Machine.Timers (m : Machine) (t : Trap) : Prop :=
  excCode (t.old 1) = 0 → ∀ l ∈ interruptLines, t.old 1 &&& l.1 ≠ 0 →
    l.2 = .sysTimer ∨ l.2 = .localTimer ∧ ∃ p, m.mode = .running p

instance (m : Machine) (t : Trap) : Decidable (m.Timers t) := by unfold Machine.Timers; infer_instance

/-- No process does I/O, and processes are terminated by themselves, by their
descendants or by a trap. -/
def Machine.Modest (L : Layout) (m : Machine) : Event → Prop
  | .exception t =>
    m.Timers t ∧ ¬t.Calls 5 ∧
    (t.Calls 3 ∨ t.Calls 4 → t.old 8 ≠ 0 ∧ ¬L.KernelData (t.old 8)) ∧
    (t.Calls 2 → t.old 8 = 0 ∨ ∃ p c, t.old 8 = L.pcb p ∧
      m.kernel.gCurrentProcess = some c ∧ m.kernel.nucleus.Below p c)
  | .wake => True

/-- The scope of such runs. -/
def modestScope (L : Layout) (running : Prop) : Scope where
  sem a := a ≠ 0 ∧ (¬L.KernelData a ∨ a = L.addr .clock)
  device _ := True
  clock := True
  create _ := True
  target N p := ∃ c, N.gCurrentProcess = some c ∧ c ∉ N.free ∧ (c = p ∨ N.Below p c)
  block := running
  preempt := running
  interrupt := True

section
variable {L : Layout} {running : Prop} {N M : Nucleus}

theorem modest_semMut (d : Dev) : ¬(modestScope L running).sem (L.addr (.semMut d)) := by
  rintro ⟨-, h | h⟩
  · exact h (L.kernelData_addr _)
  · cases L.addr_injective h

theorem modestScope_writes (a : Word) : (modestScope L running).Writes L a := by
  intro w _
  cases w <;> trivial

theorem Move.held (h : Move L (modestScope L running) N M) (hN : N.Held) : M.Held := by
  cases h.shift with
  | still h => exact hN.still h
  | wake hv _ hw => exact hN.wakeUp hv.placed hw
  | take _ hs => exact absurd hs (modest_semMut _)
  | create hv _ _ _ hf => exact hN.create hv.placed hf

theorem Moves.held (h : Moves L (modestScope L running) N M) (hN : N.Held) : M.Held := by
  induction h with
  | refl => exact hN
  | tail _ h ih => exact h.held ih

theorem Moves.idle {B : Scope} (h : Moves L B N M) (hN : N.Idle) : M.Idle := by
  induction h with
  | refl => exact hN
  | tail _ h ih =>
    intro c hc
    rw [h.current] at hc
    rcases h.stays_free (ih c hc) with hf | ⟨-, d, hd, hlive⟩
    · exact hf
    · exact absurd (ih d hd) hlive

/-- An exception in such a run. -/
theorem Ending.held {e : Exit} {k : Mode} (h : Ending L (modestScope L running) N e M)
    (hN : N.Held) (hi : ¬running → N.Idle) (hm : k = .waiting → ¬running)
    (hlive : running → ∀ c, N.gCurrentProcess = some c → c ∉ N.free) (hM : M.Saved) :
    M.Held ∧ (Machine.resume k M.pcbs e = .waiting → M.Idle) := by
  obtain ⟨N', hmv, hl⟩ := h
  have hN' := hmv.held hN
  have live : ∀ c, running → N'.gCurrentProcess = some c → c ∉ N'.free := fun c hr hc hf =>
    hlive hr c (hmv.current ▸ hc) (hmv.free hf)
  have scheduled : ∀ P : Nucleus, P.schedule.2.Saved → P.Placed → P.Held → P.Idle →
      P.schedule.2.Held ∧ (Machine.resume k P.schedule.2.pcbs P.schedule.1 = .waiting →
        P.schedule.2.Idle) :=
    fun P hs hp hP hi => ⟨hP.schedule hp hi, hi.schedule (Nucleus.saved_schedule.mp hs)⟩
  cases hl with
  | stay hw _ hd =>
    refine ⟨hN', fun hr => hmv.idle (hi (hm ?_))⟩
    cases e <;> simp_all [Machine.resume]
  | block _ hs hr hc hp =>
    refine scheduled _ hM hp (hN'.suspend hc hs.1 (live _ hr hc)) fun c' hc' => ?_
    cases hc'
  | preempt _ hr hc hp =>
    refine scheduled _ hM hp (hN'.preempt hc (live _ hr hc)) fun c' hc' => ?_
    cases hc'
  | kill hv htarget hr hS hp =>
    obtain ⟨c, hc, hlive, hpc⟩ := htarget
    have hcS := (hS c).mpr hpc
    refine scheduled _ hM hp (hN'.reap hr fun q hq => ?_) fun c' hc' => ?_
    · rcases (hS q).mp hq with rfl | hb
      · rcases hpc with rfl | hb
        · exact hlive
        · exact (hb.live hv.tree).1
      · exact (hb.live hv.tree).2
    · rw [hr.rest, hc] at hc'
      exact Option.some.inj hc' ▸ hr.mem_free hcS

end

namespace Machine
variable {L : Layout} {m : Machine} {N : Nucleus} {t : Trap}

/-- What such runs keep. -/
structure Kept (mode : Mode) (N : Nucleus) : Prop where
  held : N.Held
  saved : N.Saved
  idle : mode = .waiting → N.Idle

theorem booted_kept {mem : Word → Word} {p : Pcb} (h : Booted mem p N) : Kept (.running p) N := by
  refine ⟨⟨fun q => ?_, ?_⟩, h.saved, nofun⟩
  · have hq : q ∈ p :: N.free := by rw [← h.free]; simp
    rcases List.mem_cons.mp hq with rfl | hf
    · exact .inr (.inr (.inr h.current))
    · exact .inl hf
  · have hl := congrArg List.length h.free
    rw [List.length_cons, List.length_reverse, List.length_finRange] at hl
    rw [Nucleus.Counted, h.count]
    omega

theorem Timers.line (hS : m.Sound N) (hline : m.Timers t) (h0 : excCode (t.old 1) = 0) {u : Kernel}
    (hu : Pass L (m.trapped t).charged u) {bit : Word} {line : Line}
    (hf : firstLine u.gOldState.cause = some (bit, line)) :
    line = .sysTimer ∨ line = .localTimer ∧ ∃ p, m.mode = .running p := by
  obtain ⟨hm, hne⟩ := hu.line (updateProcessTime_ok (trapped_refines hS.refines t)).2 hf
  exact hline h0 (bit, line) hm hne

/-- The passes of a timer interrupt serve no device. -/
theorem Timers.not_serves (hS : m.Sound N) (hline : m.Timers t) (h0 : excCode (t.old 1) = 0)
    {u : Kernel} (hu : Pass L (m.trapped t).charged u) (d : Dev) : ¬u.Serves d := by
  rintro ⟨bit, ty, hf, -⟩
  rcases hline.line hS h0 hu hf with h | ⟨h, -⟩ <;> cases h

theorem Timers.allows {B : Scope} (hS : m.Sound N) (hline : m.Timers t)
    (h0 : excCode (t.old 1) = 0) (clock : B.clock ∧ B.sem (L.addr .clock))
    (preempt : (∃ p, m.mode = .running p) → B.preempt) {u : Kernel}
    (hu : Pass L (m.trapped t).charged u) : B.Allows L u := by
  have serves := hline.not_serves hS h0 hu
  refine ⟨fun _ _ => clock, fun bit hf => ?_, fun d hd => absurd hd (serves d),
    fun d hd => absurd hd (serves d), fun d hd => absurd hd (serves d)⟩
  rcases hline.line hS h0 hu hf with h | ⟨-, h⟩
  · cases h
  · exact preempt h

theorem Modest.covers (hS : m.Sound N) (he : m.Enabled (.exception t))
    (hok : m.Modest L (.exception t)) :
    (modestScope L (∃ p, m.mode = .running p)).Covers L (m.trapped t) := by
  obtain ⟨hline, hio, huser, hterm⟩ := hok
  have running : excCode (t.old 1) ≠ 0 → ∃ p, m.mode = .running p := fun h0 =>
    he.1.resolve_right fun h => h0 h.2
  refine hS.covers he ?_ ?_ ?_ ?_ ?_ (fun _ _ _ _ => trivial) ?_
  · refine fun h0 => ⟨trivial, fun u hu => ?_⟩
    apply Timers.allows hS hline h0 _ id hu
    exact ⟨trivial, L.addr_ne_zero _, .inr rfl⟩
  · exact fun h8 => running (by omega)
  · exact fun h _ => ⟨⟨(huser h).1, .inl (huser h).2⟩, modestScope_writes _⟩
  · exact fun _ => ⟨trivial, L.addr_ne_zero _, .inr rfl⟩
  · exact fun h => absurd h hio
  · intro p hp M hM
    obtain ⟨c, hrun⟩ := hp.running he
    obtain ⟨hc, hlive⟩ := hS.running c hrun
    refine ⟨c, hM.current.trans hc, fun h => hlive (hM.toTouch.free ▸ h), ?_⟩
    have below : m.kernel.nucleus.Below p c → M.Below p c := fun h => by
      rw [hS.refines.nucleus_eq] at h
      rwa [Nucleus.Below, hM.pChild]
    have hcur := hS.current hrun
    rcases hp.target hcur with rfl | ⟨h2, hpcb⟩
    · exact .inl rfl
    · rcases hterm h2 with h0 | ⟨q, c', hq, hc', hb⟩
      · exact absurd (hpcb.symm.trans h0) (L.pcb_ne p)
      · obtain rfl := L.pcb_inj (hq.symm.trans hpcb)
        obtain rfl : c = c' := Option.some.inj (hcur.symm.trans hc')
        exact .inr (below hb)

theorem Modest.kept (hS : m.Sound N) (hI : Kept m.mode N) (he : m.Enabled (.exception t))
    (hok : m.Modest L (.exception t)) : ∃ e s' M,
      m.step L (.exception t) = ⟨s', resume m.mode s'.pcbs e⟩ ∧ s'.Refines M ∧
      Kept (resume m.mode M.pcbs e) M := by
  obtain ⟨e, s', M, hstep, hM, hend⟩ := step_exception hS.refines (hok.covers hS he)
  refine ⟨e, s', M, hstep, hM, ?_⟩
  have hnot : m.mode = .waiting → ¬∃ p, m.mode = .running p := by
    rintro hw ⟨p, hp⟩
    cases hw.symm.trans hp
  have hsaved : M.Saved := by
    refine hend.saved hI.saved fun hr c _ => ?_
    obtain ⟨p, hp⟩ := hr.elim id id
    simp [Nucleus.trapped, hp]
  have hlive : (∃ p, m.mode = .running p) → ∀ c, N.gCurrentProcess = some c → c ∉ N.free := by
    rintro ⟨p, hp⟩ c hc
    exact hS.live_current hp hc
  obtain ⟨hheld, hidle⟩ := hend.held (k := m.mode) ⟨hI.held.place, hI.held.count⟩
    (fun hn => hI.idle (he.1.resolve_left hn).1) hnot hlive hsaved
  exact ⟨hheld, hsaved, hidle⟩

theorem Modest.reachable (h : Reachable L (Modest L) m) : ∃ N, m.Sound N ∧ Kept m.mode N := by
  refine h.invariant (booted_kept) ?_ fun hS hI he hok => hok.kept hS hI he
  intro N hN hI
  have hi := hI.idle rfl
  exact ⟨hI.held.schedule hN hi, Nucleus.saved_schedule.mpr hI.saved, hi.schedule hI.saved⟩

/-- No process is ever lost. -/
theorem processes_conserved (h : Reachable L (Modest L) m) :
    (∀ p, m.mode = .running p →
      m.kernel.gCurrentProcess = some p ∧ m.kernel.Conserved (some p)) ∧
    (m.mode = .waiting → m.kernel.Conserved none) := by
  obtain ⟨N, hS, hheld, -, hidle⟩ := Modest.reachable h
  constructor
  · intro p hp
    obtain ⟨hc, hlive⟩ := hS.running p hp
    refine ⟨(congrArg (·.gCurrentProcess) hS.refines.globals).trans hc, ?_⟩
    refine hheld.conserved hS.refines fun q => ?_
    rw [hc]
    refine ⟨?_, And.left⟩
    rintro ⟨⟩
    exact ⟨rfl, hlive⟩
  · intro hw
    refine hheld.conserved hS.refines fun q => ?_
    refine ⟨nofun, ?_⟩
    rintro ⟨hc, hf⟩
    exact absurd (hidle hw q hc) hf

/-- One process blocks on the clock and the tick wakes it. -/
theorem processes_conserved_tick : (sampleBoot.run sampleLayout
    [call 1 0x20060000 0 0, call 7 0 0 0, call 7 0 0 0, interrupt 0x400 [] []]).kernel.Conserved
      (some 18) := by
  have modest : ∀ {m : Machine} {t : Trap},
      m.Timers t ∧ ¬t.Calls 5 ∧ ¬(t.Calls 3 ∨ t.Calls 4) ∧ ¬t.Calls 2 →
        m.Modest sampleLayout (.exception t) :=
    fun ⟨hline, h5, h34, h2⟩ => ⟨hline, h5, fun h => absurd h h34, fun h => absurd h h2⟩
  refine ((processes_conserved (.run (.boot _ _ _) ?_)).1 18 (by decide +kernel)).2
  exact ⟨⟨by decide +kernel, modest (by decide +kernel)⟩,
    ⟨by decide +kernel, modest (by decide +kernel)⟩, ⟨by decide +kernel, modest (by decide +kernel)⟩,
    ⟨by decide +kernel, modest (by decide +kernel)⟩, trivial⟩

end Machine

end Pandos
