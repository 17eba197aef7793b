import Pandos.Current
import Pandos.Exits
import Pandos.SoftBlock

/-!
# Halting and panicking

The kernel halts when the last process ends and at no other time, and where it
panics of itself nobody is left who could wake the others.
-/

namespace Pandos
open Intrusive

namespace Nucleus.Counted
variable {N : Nucleus}

/-- The count is the number of processes alive. -/
theorem card_alive (h : N.Counted) (hN : N.Placed) :
    N.gProcessCount = (Finset.univ.filter fun p => p ∉ N.free).card := by
  have hnot : (Finset.univ.filter fun p => p ∉ N.free) = N.free.toFinsetᶜ := by
    ext p
    simp
  have hnodup : N.free.Nodup := hN.apart.nodup .free
  have hle := hnodup.length_le_card
  rw [Fintype.card_fin] at hle
  rw [hnot, Finset.card_compl, List.toFinset_card_of_nodup hnodup, Fintype.card_fin]
  have hcount : N.gProcessCount + N.free.length = maxProc := h
  omega

theorem extinct (h : N.Counted) (hN : N.Placed) : (∀ p, p ∈ N.free) ↔ N.gProcessCount = 0 := by
  rw [h.card_alive hN, Int.natCast_eq_zero, Finset.card_eq_zero, Finset.filter_eq_empty_iff]
  simp

end Nucleus.Counted

section
variable {L : Layout} {B : Scope} {N M : Nucleus} {e : Exit} {k : Mode}

theorem Move.counted (h : Move L B N M) (hN : N.Counted) : M.Counted := by
  cases h.shift with
  | still h => exact hN.keep h.count h.free
  | wake hv _ hw =>
    refine hN.keep rfl ?_
    rw [Queues.free, Nucleus.queue_wakeUp, if_neg (by simp), Nucleus.free_unlink_waiter hv.placed hw]
  | take hv _ hw => exact hN.keep rfl (Nucleus.free_unlink_waiter hv.placed hw)
  | create hv _ _ _ hf => exact hN.create hv.placed hf

theorem Moves.counted (h : Moves L B N M) (hN : N.Counted) : M.Counted := by
  induction h with
  | refl => exact hN
  | tail _ h ih => exact h.counted ih

/-- Only a termination leaves nobody alive, and the scheduler then halts. -/
theorem Ending.counted {p : Pcb} (h : Ending L B N e M) (hN : N.Counted) (hp : p ∉ N.free)
    (hlive : ∀ c, N.gCurrentProcess = some c → c ∉ N.free)
    (htarget : ∀ P q, Moves L B N P → B.target P q → q ∉ P.free) :
    M.Counted ∧ ((∀ q, q ∈ M.free) → e = .halt) := by
  obtain ⟨N', hmv, hl⟩ := h
  have hN' := hmv.counted hN
  have hp' : p ∉ N'.free := fun hf => hp (hmv.free hf)
  have current : ∀ c, N'.gCurrentProcess = some c → c ∉ N'.free := fun c hc hf =>
    hlive c (hmv.current ▸ hc) (hmv.free hf)
  cases hl with
  | stay => exact ⟨hN', fun hall => absurd (hall p) hp'⟩
  | @block a c _ _ _ hc hP =>
    refine ⟨(hN'.suspend (current c hc)).schedule hP, fun hall => ?_⟩
    have hcf := Nucleus.free_schedule hP ▸ hall c
    exact absurd ((N'.mem_suspend _ _ _).mp hcf) (by simp)
  | @preempt c _ _ hc hP =>
    refine ⟨(hN'.preempt (current c hc)).schedule hP, fun hall => ?_⟩
    have hcf := Nucleus.free_schedule hP ▸ hall c
    exact absurd ((N'.mem_preempt _ _).mp hcf) (by simp)
  | @kill P S p hv ht hr hS hP =>
    have hcount : P.Counted := by
      refine hN'.reap hr fun q hq => ?_
      rcases (hS q).mp hq with rfl | hb
      · exact htarget _ _ hmv ht
      · exact (hb.live hv.tree).2
    refine ⟨hcount.schedule hP, fun hall => ?_⟩
    rw [Nucleus.free_schedule hP] at hall
    have hready : P.ready = [] := by
      refine List.eq_nil_iff_forall_not_mem.mpr fun q hq => ?_
      cases hP.apart.unique hq (hall q)
    have h0 := (hcount.extinct hP).mp hall
    rw [Nucleus.schedule_nil hready]
    exact if_pos h0

end

namespace Machine
variable {L : Layout} {m : Machine} {N : Nucleus} {t : Trap} {e : Event} {p : Pcb}

/-! ## Halting -/

/-- Everybody alive is counted, and the machine has halted if nobody is. -/
structure Tallied (mode : Mode) (N : Nucleus) : Prop where
  points : Pointing mode N
  counted : N.Counted
  ended : (∀ p, p ∈ N.free) → mode = .halted

/-- The scope of terminations of live processes. -/
def aliveScope : Scope :=
  ⟨fun _ => True, fun _ => True, True, fun _ => True, fun N p => p ∉ N.free, True, True, True⟩

theorem Lawful.covers (hS : m.Sound N) (he : m.Enabled (.exception t))
    (hok : m.Lawful L (.exception t)) : aliveScope.Covers L (m.trapped t) := by
  have writes : ∀ a : Word, aliveScope.Writes L a := fun a w _ => by cases w <;> trivial
  refine hS.covers he (fun _ => ⟨trivial, fun u _ => ?_⟩) (fun _ => trivial) (fun _ _ => ⟨trivial, writes _⟩)
    (fun _ => ⟨trivial, trivial⟩) (fun _ _ _ => ⟨trivial, trivial, trivial⟩) (fun _ _ _ _ => trivial) ?_
  · exact ⟨fun _ _ => ⟨trivial, trivial⟩, fun _ _ => trivial, fun _ _ => ⟨trivial, trivial, trivial⟩,
      fun _ _ _ _ => trivial, fun _ _ _ _ _ => trivial⟩
  · exact fun p hp M hM hf => target_alive hS he hok hp (hS.refines.free.trans hM.free.symm ▸ hf)

theorem Tallied.exception (hS : m.Sound N) (hI : Tallied m.mode N) (he : m.Enabled (.exception t))
    (hok : m.Lawful L (.exception t) ∧ m.Survivable L (.exception t)) : ∃ e s' M,
      m.step L (.exception t) = ⟨s', resume m.mode s'.pcbs e⟩ ∧ s'.Refines M ∧
      Tallied (resume m.mode M.pcbs e) M := by
  obtain ⟨e₀, s₀, M₀, hstep₀, hM₀, hpoints⟩ := hok.2.keeps hS hI.points he
  obtain ⟨e, s', M, hstep, hM, hend⟩ := step_exception hS.refines (hok.1.covers hS he)
  refine ⟨e, s', M, hstep, hM, ?_⟩
  obtain ⟨rfl, hmode⟩ : s₀ = s' ∧ resume m.mode s₀.pcbs e₀ = resume m.mode s'.pcbs e :=
    ⟨congrArg (·.kernel) (hstep₀.symm.trans hstep), congrArg (·.mode) (hstep₀.symm.trans hstep)⟩
  obtain rfl := hM₀.unique hM
  rw [← hM.pcbs, hmode] at hpoints
  obtain ⟨p, hp⟩ : ∃ p, p ∉ N.free := by
    by_contra hall
    have hhalt := hI.ended fun p => by_contra fun hp => hall ⟨p, hp⟩
    rcases he.1 with ⟨c, hc⟩ | ⟨hw, -⟩
    · cases hc.symm.trans hhalt
    · cases hw.symm.trans hhalt
  have hlive : ∀ c, N.gCurrentProcess = some c → c ∉ N.free := by
    intro c hc
    rcases he.1 with ⟨c', hr⟩ | ⟨hw, -⟩
    · exact hS.live_current hr hc
    · cases (hI.points.waiting hw).symm.trans hc
  obtain ⟨hcounted, hended⟩ := hend.counted hI.counted hp hlive fun _ _ _ ht => ht
  refine ⟨hM.pcbs ▸ hpoints, hcounted, fun hall => ?_⟩
  rw [hended hall]
  rfl

/-- Everybody alive is counted in every run whose terminations leave somebody
ready or nothing to wait for. -/
theorem Reachable.tallied (h : Reachable L (fun m e => m.Lawful L e ∧ m.Survivable L e) m) :
    ∃ N, m.Sound N ∧ Tallied m.mode N := by
  refine h.invariant (I := Tallied) (fun hb => ⟨⟨hb.saved, nofun⟩, (booted_kept hb).held.count, ?_⟩) ?_
    fun hS hI he hok => hI.exception hS he hok
  · intro hall
    exact absurd (hall _) hb.not_free
  · intro N hN hI
    refine ⟨hI.points.schedule, hI.counted.schedule hN, fun hall => ?_⟩
    rw [Nucleus.free_schedule hN] at hall
    cases hI.ended hall

/-- `g_process_count` counts the processes alive, and the machine halts when the
last one ends and only then. -/
theorem halts_with_the_last (h : Reachable L (fun m e => m.Lawful L e ∧ m.Survivable L e) m) :
    m.kernel.gProcessCount = (Finset.univ.filter fun p => p ∉ m.kernel.free).card ∧
      (m.mode = .halted ↔ ∀ p, p ∈ m.kernel.free) := by
  obtain ⟨N, hS, hI⟩ := h.tallied
  have hplaced := hS.refines.placed
  rw [hS.refines.globals, hS.refines.free]
  refine ⟨hI.counted.card_alive hplaced, fun hm => ?_, hI.ended⟩
  apply (hI.counted.extinct hplaced).mpr
  cases h with
  | boot mem bus stck =>
    obtain ⟨p, -, -, hrun, -⟩ := boot_spec L mem bus stck
    cases hrun.symm.trans hm
  | step h he =>
    obtain ⟨M, hM, hhalt, -⟩ := stop_fits h he (L := L)
    obtain rfl := hM.unique hS.refines
    exact (hhalt hm).2

/-- The only process terminates itself. -/
theorem halts_with_the_last_alone :
    (sampleBoot.run sampleLayout [call 2 0 0 0]).kernel.gProcessCount = (Finset.univ.filter fun p =>
      p ∉ (sampleBoot.run sampleLayout [call 2 0 0 0]).kernel.free).card ∧
    ((sampleBoot.run sampleLayout [call 2 0 0 0]).mode = .halted ↔
      ∀ p, p ∈ (sampleBoot.run sampleLayout [call 2 0 0 0]).kernel.free) := by
  refine halts_with_the_last (.run (.boot _ _ _) ⟨⟨by decide +kernel, by decide +kernel, ?_⟩, trivial⟩)
  intro p _ S _ hS
  have hp : p ∈ S := (hS p).mpr (.inl rfl)
  have hlen : 1 ≤ S.length := List.length_pos_of_mem hp
  have hcount : sampleBoot.kernel.gProcessCount = 1 := by decide +kernel
  refine .inr (.inl ?_)
  show sampleBoot.kernel.gProcessCount ≤ _
  omega

end Machine

/-! ## Panicking -/

/-- Somebody is alive, nobody is ready, and no interrupt will change that. -/
def Kernel.Deadlocked (L : Layout) (s : Kernel) : Prop :=
  s.ready = [] ∧ (∃ p, p ∉ s.free) ∧ ¬∃ p, s.Awaits L p

namespace Machine
variable {L : Layout} {m : Machine} {e : Event}

/-- Where all who wait are counted, the scheduler never loops, panics in a
deadlock only, and does panic in a deadlock. -/
theorem panics_in_deadlock
    (h : Reachable L (fun m e => m.UserSemaphores L e ∧ m.Sparing L e ∧ m.Accountable L e) m)
    (he : m.Enabled e) (hok : m.UserSemaphores L e ∧ m.Sparing L e ∧ m.Accountable L e) :
    (m.step L e).mode ≠ .hung ∧
    ((m.step L e).mode = .panicked → (m.step L e).kernel.Deadlocked L ∨ Refuses e) ∧
    ((m.step L e).mode = .waiting → (m.step L e).kernel.Deadlocked L →
      ((m.step L e).step L .wake).mode = .panicked) := by
  obtain ⟨N, hS, hI⟩ := (h.step he hok).accounted
  obtain ⟨M, hM, -, hpanic, hhang, -⟩ := stop_fits h he (L := L)
  obtain rfl := hM.unique hS.refines
  have hplaced := hM.placed
  refine ⟨fun hm => ?_, fun hm => ?_, fun hm hdead => ?_⟩
  · have hN := hI.resolve_left (by rw [hm]; nofun)
    have hcount := hN.counted.card_alive hplaced
    have hsoft := hN.soft_eq
    obtain ⟨-, hneg | hneg⟩ := hhang hm <;> omega
  · have hN := hI.resolve_left (by rw [hm]; nofun)
    refine (hpanic hm).imp ?_ id
    rintro ⟨hready, hpos, hsoft⟩
    refine ⟨hM.ready.trans hready, ?_, ?_⟩
    · by_contra hall
      have hnone : ∀ p, p ∈ M.free := fun p => by_contra fun hp => hall ⟨p, hM.free ▸ hp⟩
      have := (hN.counted.extinct hplaced).mp hnone
      omega
    · rintro ⟨p, hp⟩
      have hp' : p ∈ Finset.univ.filter (M.Soft L) := by simpa using (hS.awaits_iff p).mp hp
      have := Finset.card_pos.mpr ⟨p, hp'⟩
      have := hN.soft_eq
      omega
  · have hN := hI.resolve_left (by rw [hm]; nofun)
    obtain ⟨hready, ⟨p, hp⟩, hnone⟩ := hdead
    rw [hM.ready] at hready
    rw [hM.free] at hp
    have hexit : M.idleExit = .panic := by
      refine ((hN.idleExit hplaced hp).resolve_left ?_).1
      rintro ⟨-, q, hq⟩
      exact hnone ⟨q, (hS.awaits_iff q).mpr hq⟩
    obtain ⟨s', hstep, -⟩ := step_wake (L := L) hM
    rw [hstep, Nucleus.schedule_nil hready, hexit]
    rfl

/-- The only process waits for a semaphore. -/
theorem panics_in_deadlock_alone :
    (sampleBoot.step sampleLayout (call 3 0x20060000 0 0 sampleBoot)).kernel.Deadlocked sampleLayout := by
  have hterm : ¬(callTrap 3 0x20060000 0 0 sampleBoot).Calls 2 ∧
      ¬(callTrap 3 0x20060000 0 0 sampleBoot).PassesUp := by decide
  have h0 : excCode ((callTrap 3 0x20060000 0 0 sampleBoot).old 1) ≠ 0 := by decide
  have hpanic := panics_in_deadlock (L := sampleLayout) (.boot _ _ _ : Reachable sampleLayout _ sampleBoot)
    (e := call 3 0x20060000 0 0 sampleBoot) (by decide +kernel)
    ⟨by decide +kernel, fun _ h => absurd h h0, by decide,
      fun p hp => absurd hp (not_terminates hterm.1 hterm.2), fun h => absurd h h0⟩
  exact (hpanic.2.1 (by decide +kernel)).resolve_right fun hr => absurd hr.1.2 (by decide)

end Machine

end Pandos
