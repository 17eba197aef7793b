import Pandos.Scenario

/-!
# The current process

When `g_current_process` is right, and what becomes of dead processes when it
is not.
-/

namespace Pandos
open Intrusive

/-! ## `g_current_process` dangles -/

/-- Whoever executes is the current process and alive, and in `WAIT` there is
no current process. -/
structure Machine.Points (m : Machine) : Prop where
  running : ∀ p, m.mode = .running p → m.kernel.gCurrentProcess = some p ∧ p ∉ m.kernel.free
  waiting : m.mode = .waiting → m.kernel.gCurrentProcess = none

namespace Nucleus

/-- To terminate `p` and everything below it leaves somebody ready, or no
process or no blocked process that the scheduler would `WAIT` for. -/
def Survives (L : Layout) (N : Nucleus) (p : Pcb) : Prop :=
  ∀ S : List Pcb, S.Nodup → (∀ q, q ∈ S ↔ q = p ∨ N.Below p q) →
    (∃ q ∈ N.ready, q ∉ S) ∨ N.gProcessCount ≤ S.length ∨
      N.gSoftBlockCount ≤ S.countP fun q => (N.ioDevice L q).isSome

variable {L : Layout} {N M : Nucleus} {p : Pcb}

theorem Quiet.ioDevice (h : N.Quiet M) (q : Pcb) : M.ioDevice L q = N.ioDevice L q := by
  simp only [Nucleus.ioDevice, h.semAdd, Globals.waitsOn, h.sysiostates]

theorem Survives.quiet (hs : N.Survives L p) (h : N.Quiet M) : M.Survives L p := by
  intro S hd hS
  simp only [Below, h.pChild, h.ready, h.count, h.soft, h.ioDevice] at hS ⊢
  exact hs S hd hS

/-- The scheduler does not `WAIT` afterwards. -/
theorem Survives.not_wait {S : List Pcb} (hs : N.Survives L p) (hr : Reaped L S N M)
    (hS : ∀ q, q ∈ S ↔ q = p ∨ N.Below p q) (hready : M.ready = []) : M.idleExit ≠ .wait := by
  intro hw
  obtain ⟨hcount, hsoft⟩ := idleExit_wait hw
  rw [hr.count] at hcount
  rw [hr.soft] at hsoft
  rcases hs S hr.nodup hS with ⟨q, hq, hn⟩ | hle | hle
  · have hm : q ∈ M.ready := by
      rw [hr.ready]
      exact List.mem_filter.mpr ⟨hq, by simpa using hn⟩
    rw [hready] at hm
    cases hm
  · omega
  · omega

end Nucleus

namespace Machine
variable {L : Layout} {m : Machine} {N : Nucleus} {t : Trap}

/-- Every termination leaves somebody ready or nothing to wait for. -/
def Survivable (L : Layout) (m : Machine) : Event → Prop
  | .exception t => ∀ p, m.Terminates L t p → m.kernel.nucleus.Survives L p
  | .wake => True

/-- The scope of runs in which every termination is survivable. -/
def survivableScope (L : Layout) : Scope :=
  ⟨fun _ => True, fun _ => True, True, fun _ => True, fun N p => N.Survives L p, True, True, True⟩

theorem survivableScope_writes (a : Word) : (survivableScope L).Writes L a := by
  intro w _
  cases w <;> trivial

theorem Survivable.covers (hS : m.Sound N) (he : m.Enabled (.exception t))
    (hok : m.Survivable L (.exception t)) : (survivableScope L).Covers L (m.trapped t) := by
  refine hS.covers he (fun _ => ⟨trivial, fun u _ => ?_⟩) (fun _ => trivial)
    (fun _ _ => ⟨trivial, survivableScope_writes _⟩)
    (fun _ => ⟨trivial, trivial⟩) (fun _ _ _ => ⟨trivial, trivial, trivial⟩)
    (fun _ _ _ _ => trivial) fun p hp M hM => ?_
  · exact ⟨fun _ _ => ⟨trivial, trivial⟩, fun _ _ => trivial, fun _ _ => ⟨trivial, trivial, trivial⟩,
      fun _ _ _ _ => trivial, fun _ _ _ _ _ => trivial⟩
  · have hsurv := hok p hp
    rw [hS.refines.nucleus_eq] at hsurv
    exact Nucleus.Survives.quiet (N := N.trapped t (decide (m.mode = .waiting))) hsurv hM

/-- Contexts saved are those of processes, and nobody is current in `WAIT`. -/
structure Pointing (mode : Mode) (N : Nucleus) : Prop where
  saved : N.Saved
  waiting : mode = .waiting → N.gCurrentProcess = none

theorem Pointing.schedule (h : Pointing .waiting N) :
    Pointing (resume .waiting N.schedule.2.pcbs N.schedule.1) N.schedule.2 := by
  refine ⟨Nucleus.saved_schedule.mpr h.saved, fun hw => ?_⟩
  rw [Nucleus.schedule_nil (Nucleus.schedule_waiting h.saved (N.pcbs_schedule ▸ hw)).1]
  exact h.waiting rfl

theorem Survivable.keeps (hS : m.Sound N) (hI : Pointing m.mode N) (he : m.Enabled (.exception t))
    (hok : m.Survivable L (.exception t)) : ∃ e s' M,
      m.step L (.exception t) = ⟨s', resume m.mode s'.pcbs e⟩ ∧ s'.Refines M ∧
      Pointing (resume m.mode M.pcbs e) M := by
  obtain ⟨e, s', M, hstep, hM, hend⟩ := step_exception hS.refines (hok.covers hS he)
  refine ⟨e, s', M, hstep, hM, ?_⟩
  have hsaved : M.Saved := by
    refine hend.saved hI.saved fun _ c hc => ?_
    have hw : m.mode ≠ .waiting := fun hw => by
      cases (hI.waiting hw).symm.trans hc
    simp [Nucleus.trapped, hw]
  refine ⟨hsaved, fun hw => ?_⟩
  obtain ⟨N', hmv, hl⟩ := hend
  have scheduled : ∀ P : Nucleus, P.schedule.2.Saved →
      resume m.mode P.schedule.2.pcbs P.schedule.1 = .waiting → P.ready = [] ∧ P.idleExit = .wait :=
    fun P hs hw => Nucleus.schedule_waiting (Nucleus.saved_schedule.mp hs) (P.pcbs_schedule ▸ hw)
  cases hl with
  | stay hw' _ hd =>
    rw [hmv.current]
    apply hI.waiting
    cases e <;> simp_all [resume]
  | block =>
    rw [Nucleus.schedule_nil (scheduled _ hsaved hw).1]
    rfl
  | preempt =>
    rw [Nucleus.schedule_nil (scheduled _ hsaved hw).1]
    rfl
  | kill _ ht hr hS' _ =>
    obtain ⟨hready, hexit⟩ := scheduled _ hsaved hw
    exact absurd hexit (ht.not_wait hr hS' hready)

/-- `g_current_process` is right as long as terminations leave somebody ready or
nothing to wait for. -/
theorem current_never_dangles
    (h : Reachable L (fun m e => m.Lawful L e ∧ m.Survivable L e) m) : m.Points := by
  obtain ⟨N, hS, hI⟩ := h.invariant (I := Pointing) (fun hb => ⟨hb.saved, nofun⟩)
    (fun _ hI => hI.schedule) fun hS hI he hok => hok.2.keeps hS hI he
  have hcur : m.kernel.gCurrentProcess = N.gCurrentProcess := by rw [hS.refines.globals]
  refine ⟨fun p hp => ?_, fun hw => hcur.trans (hI.waiting hw)⟩
  obtain ⟨hc, hf⟩ := hS.running p hp
  exact ⟨hcur.trans hc, hS.refines.free ▸ hf⟩

/-- A process without children that terminates itself is survived by whoever is
ready. -/
theorem survivable_alone {q : Pcb} (hcur : m.kernel.gCurrentProcess = some c) (h0 : t.old 8 = 0)
    (hleaf : m.kernel.pChild c = []) (hq : q ∈ m.kernel.ready) (hne : q ≠ c) :
    m.Survivable L (.exception t) := by
  intro p hp S _ hS
  obtain rfl : p = c := by
    refine (hp.target hcur).resolve_right fun h => ?_
    exact L.pcb_ne p (h.2.symm.trans h0)
  refine .inl ⟨q, hq, fun hm => ?_⟩
  rcases (hS q).mp hm with h | hb
  · exact hne h
  · obtain ⟨b, hb, -⟩ := Relation.TransGen.head'_iff.mp hb
    have hb : b ∈ m.kernel.pChild p := hb
    rw [hleaf] at hb
    cases hb

/-- A process waits for the clock, and one of its two children terminates. -/
theorem current_never_dangles_clock : (sampleBoot.run sampleLayout
    [call 1 0x20060000 0 0, call 1 0x20060000 0 0, call 7 0 0 0, call 7 0 0 0, call 2 0 0 0]).Points := by
  have survivable : ∀ {m : Machine} {t : Trap}, ¬t.Calls 2 ∧ ¬t.PassesUp →
      m.Survivable sampleLayout (.exception t) := fun h p hp => absurd hp (not_terminates h.1 h.2)
  refine current_never_dangles (.run (.boot _ _ _) ?_)
  refine ⟨⟨by decide +kernel, by decide +kernel, survivable (by decide +kernel)⟩,
    ⟨by decide +kernel, by decide +kernel, survivable (by decide +kernel)⟩,
    ⟨by decide +kernel, by decide +kernel, survivable (by decide +kernel)⟩,
    ⟨by decide +kernel, by decide +kernel, survivable (by decide +kernel)⟩,
    ⟨by decide +kernel, by decide +kernel, ?_⟩, trivial⟩
  exact survivable_alone (c := 18) (q := 17) (by decide +kernel) rfl (by decide +kernel) (by decide +kernel)
    (by decide)

/-- A process that terminates while the only other one waits for the clock
leaves `g_current_process` on its free pcb. -/
theorem current_dangles : ¬∀ (L : Layout) (m : Machine), Reachable L (Lawful L) m → m.Points := by
  intro h
  have hm := h sampleLayout (sampleBoot.run sampleLayout
    [call 1 0x20060000 0 0, call 7 0 0 0, call 7 0 0 0, call 2 0 0 0])
    (.run (.boot _ _ _) (by decide +kernel))
  exact absurd (hm.waiting (by decide +kernel)) (by decide +kernel)

end Machine

/-! ## The caller of `TERMPROCESS` -/

namespace Machine
variable {L : Layout} {ok : Machine → Event → Prop} {m : Machine} {N : Nucleus} {t : Trap}
  {c x : Pcb}

/-- What `TERMPROCESS` of another process `x` should do: to free `x` and
everything below it, and to leave the caller `c` executing, or ready in the
state of a system call that returned. -/
structure TerminatesOnly (m m' : Machine) (t : Trap) (c x : Pcb) : Prop where
  freed : ∀ q, q ∈ m'.kernel.free ↔ q ∈ m.kernel.free ∨ q = x ∨ m.kernel.nucleus.Below x q
  alive : c ∉ m'.kernel.free
  caller : m'.mode = .running c ∨ c ∈ m'.kernel.ready ∧ (m'.kernel.pcbs c).pS = t.returned

/-- The right processes are freed, but the caller neither goes on nor is ready. -/
theorem terminate_other (hS : m.Sound N) (hc : m.mode = .running c) (h2 : t.Calls 2)
    (ha : t.old 8 = L.pcb x) (hx : x ≠ c) (hb : ¬N.Below x c) :
    (∀ q, q ∈ (m.step L (.exception t)).kernel.free ↔ q ∈ N.free ∨ q = x ∨ N.Below x q) ∧
    c ∉ (m.step L (.exception t)).kernel.free ∧ c ∉ (m.step L (.exception t)).kernel.ready ∧
    (m.step L (.exception t)).mode ≠ .running c := by
  obtain ⟨hcur, hlive⟩ := hS.running c hc
  let N₁ := (N.trapped t (decide (m.mode = .waiting))).skip
  have hrun : Runs (syscall L (t.old 7) (t.old 8) (t.old 9) (t.old 10)) N₁ (fun _ _ => False)
      fun e M => ∃ S P, Nucleus.Reaped L S N₁ P ∧ (∀ q, q ∈ S ↔ q = x ∨ N.Below x q) ∧ P.Placed ∧
        e = P.schedule.1 ∧ M = P.schedule.2 := by
    rw [syscall_terminate h2.2, ha, L.toPcb_pcb]
    refine Runs.bind (Runs.pure (Runs.bind ((Runs.sysTerminateProcess rfl ?_).mono
      (fun _ _ => False.elim) fun _ _ => id)))
    exact fun S P hr hS hP _ _ => ⟨S, P, hr, hS, hP, rfl, rfl⟩
  obtain ⟨e, s', M, hstep, hM, S, P, hr, hSx, hP, rfl, rfl⟩ :=
    step_syscall hS.refines h2.1 (hrun.mono (fun _ _ => False.elim) fun _ _ => id)
  have hcS : c ∉ S := fun h => ((hSx c).mp h).elim (fun h => hx h.symm) hb
  have hfree : ∀ q, q ∈ P.free ↔ q ∈ N.free ∨ q ∈ S := by
    intro q
    rw [hr.free]
    by_cases hq : q ∈ S <;> simp [hq, N₁, Nucleus.skip, Nucleus.trapped]
  have hready : c ∉ P.ready := by
    rw [hr.ready]
    exact fun h => (hS.refines.current c hcur).1 (List.mem_filter.mp h).1
  rw [hstep]
  refine ⟨fun q => ?_, ?_, ?_, ?_⟩
  · rw [hM.free, Nucleus.free_schedule hP, hfree, hSx]
  · rw [hM.free, Nucleus.free_schedule hP, hfree]
    simp [hlive, hcS]
  · rw [hM.ready]
    exact fun h => hready (Nucleus.mem_of_mem_schedule h)
  · intro hm
    rcases resume_running hm with he | ⟨he, -⟩
    · obtain ⟨⟨l, hl⟩, -⟩ := Nucleus.schedule_dispatch he
      exact hready (by simp [hl])
    · exact P.schedule_not_returns he

/-- `TERMPROCESS` of a process that is neither the caller nor an ancestor of it
always loses the caller. -/
theorem caller_lost (h : Reachable L ok m) (hc : m.mode = .running c) (h2 : t.Calls 2)
    (ha : t.old 8 = L.pcb x) (hx : x ≠ c) (hb : ¬m.kernel.nucleus.Below x c) :
    ¬m.TerminatesOnly (m.step L (.exception t)) t c x := by
  obtain ⟨N, hS⟩ := h.sound
  rw [hS.refines.nucleus_eq] at hb
  obtain ⟨-, -, hready, hmode⟩ := terminate_other hS hc h2 ha hx hb
  exact fun h => h.caller.elim hmode fun h => hready h.1

/-- A process with one child. -/
def parent : Machine := sampleBoot.run sampleLayout [call 1 0x20060000 0 0]

/-- `TERMPROCESS` of the child. -/
def killChild : Trap := callTrap 2 (sampleLayout.pcb 18) 0 0 parent

theorem parent_reachable : Reachable sampleLayout (Lawful sampleLayout) parent :=
  .run (.boot _ _ _) (by decide +kernel)

theorem caller_lost_parent :
    ¬parent.TerminatesOnly (parent.step sampleLayout (.exception killChild)) killChild 19 18 :=
  caller_lost parent_reachable (by decide +kernel) (by decide +kernel) rfl (by decide)
    (Nucleus.not_below_of_leaf (by decide +kernel))

/-- The parent that terminates its child is neither executing nor ready. -/
theorem caller_not_spared : ¬∀ (L : Layout) (m : Machine) (t : Trap) (c x : Pcb),
    Reachable L (Lawful L) m → m.Enabled (.exception t) → m.mode = .running c → t.Calls 2 →
    t.old 8 = L.pcb x → x ∉ m.kernel.free → x ≠ c → ¬m.kernel.nucleus.Below x c →
    m.TerminatesOnly (m.step L (.exception t)) t c x := by
  intro h
  have hm := h sampleLayout parent killChild 19 18 parent_reachable (by decide +kernel)
    (by decide +kernel) (by decide +kernel) rfl (by decide +kernel) (by decide)
    (Nucleus.not_below_of_leaf (by decide +kernel))
  exact hm.caller.elim (by decide +kernel) fun h => absurd h.1 (by decide +kernel)

end Machine

/-! ## Dead processes -/

/-- The scope of an exception that blocks and preempts only if `block` holds. -/
def sparingScope (N : Nucleus) (t : Trap) (block : Prop) : Scope where
  sem _ := True
  device _ := True
  clock := True
  create z := t.Calls 1 ∧ N.free.head? = some z
  target _ _ := True
  block := block
  preempt := block
  interrupt := True

/-- A free process stays free through an exception that does not hand it out. -/
theorem Ending.stays_free {L : Layout} {N M N₀ : Nucleus} {t : Trap} {block : Prop} {e : Exit}
    {z : Pcb} (h : Ending L (sparingScope N₀ t block) N e M) (hz : z ∈ N.free)
    (hb : block → ∀ c, N.gCurrentProcess = some c → c ∉ N.free)
    (hc : ¬(t.Calls 1 ∧ N₀.free.head? = some z)) : z ∈ M.free := by
  obtain ⟨N', hmv, hl⟩ := h
  have hz' : z ∈ N'.free := by
    clear hl
    induction hmv with
    | refl => exact hz
    | tail _ h ih => exact (h.stays_free ih).resolve_right fun h => hc h.1
  have current : block → ∀ c, N'.gCurrentProcess = some c → z ≠ c := by
    rintro hbl c hc rfl
    exact hb hbl z (hmv.current ▸ hc) (hmv.free hz')
  have scheduled : ∀ P : Nucleus, P.Placed → z ∈ P.free → z ∈ P.schedule.2.free := fun P hP hz =>
    Nucleus.free_schedule hP ▸ hz
  cases hl with
  | stay => exact hz'
  | block _ _ hbl hcur hp =>
    exact scheduled _ hp ((N'.mem_suspend _ _ _).mpr (.inl ⟨hz', current hbl _ hcur⟩))
  | preempt _ hbl hcur hp =>
    exact scheduled _ hp ((N'.mem_preempt _ _).mpr (.inl ⟨hz', current hbl _ hcur⟩))
  | @kill _ S _ _ _ hr _ hp =>
    apply scheduled _ hp
    by_cases hS : z ∈ S
    · exact hr.mem_free hS
    · rw [hr.free]
      exact List.mem_append_right _ (List.mem_filter.mpr ⟨hz', by simpa using hS⟩)

namespace Machine
variable {L : Layout} {m m' : Machine} {N : Nucleus} {t : Trap} {z : Pcb}

/-- While `g_current_process` points to a free pcb, no interrupt blocks or
preempts it. -/
def Sparing (L : Layout) (m : Machine) : Event → Prop
  | .exception t => (∃ c, m.kernel.gCurrentProcess = some c ∧ c ∈ m.kernel.free) →
    excCode (t.old 1) = 0 → ∀ u, Pass L (m.trapped t).charged u →
      (∀ bit, firstLine u.gOldState.cause ≠ some (bit, .localTimer)) ∧
      ∀ d, u.Serves d → (u.gSysiostates d).Answers → (u.gSysiostates d).semSync = 0 ∧
        (u.waiters (L.addr (.semMut d)) = [] ∨ u.waiters (L.addr (.semSync d)) = [])
  | .wake => True

/-- `allocPcb` hands `z` out. -/
def Allocates (m : Machine) (z : Pcb) : Event → Prop
  | .exception t => t.Calls 1 ∧ m.kernel.free.head? = some z
  | .wake => False

instance (m : Machine) (z : Pcb) : (e : Event) → Decidable (m.Allocates z e)
  | .exception _ => inferInstanceAs (Decidable (_ ∧ _))
  | .wake => inferInstanceAs (Decidable False)

theorem Sparing.covers (hS : m.Sound N) (he : m.Enabled (.exception t))
    (hok : m.Sparing L (.exception t)) :
    (sparingScope N t (∀ c, N.gCurrentProcess = some c → c ∉ N.free)).Covers L (m.trapped t) := by
  have hcur : m.kernel.gCurrentProcess = N.gCurrentProcess := by rw [hS.refines.globals]
  have spared : (∀ c, N.gCurrentProcess = some c → c ∉ N.free) ∨
      ∃ c, m.kernel.gCurrentProcess = some c ∧ c ∈ m.kernel.free := by
    by_cases hd : ∃ c, N.gCurrentProcess = some c ∧ c ∈ N.free
    · exact .inr (by rwa [hcur, hS.refines.free])
    · exact .inl fun c hc hf => hd ⟨c, hc, hf⟩
  refine hS.covers he (fun h0 => ⟨trivial, fun u hu => ?_⟩) (fun h8 c hc => ?_)
    (fun _ _ => ⟨trivial, fun w _ => by cases w <;> trivial⟩)
    (fun _ => ⟨trivial, trivial⟩) (fun _ _ _ => ⟨trivial, trivial, trivial⟩)
    (fun h p l hf => ⟨h, by rw [hf]; rfl⟩) fun _ _ _ _ => trivial
  · refine ⟨fun _ _ => ⟨trivial, trivial⟩, fun bit hf => ?_, fun _ _ => ⟨trivial, trivial, trivial⟩,
      fun d hd ha hs => ?_, fun d hd ha hm hs => ?_⟩
    · exact spared.resolve_right fun h => (hok h h0 u hu).1 bit hf
    · exact spared.resolve_right fun h => hs ((hok h h0 u hu).2 d hd ha).1
    · exact spared.resolve_right fun h => (((hok h h0 u hu).2 d hd ha).2.elim hm hs)
  · obtain ⟨p, hp⟩ := he.1.resolve_right fun h => by
      have := h.2
      omega
    exact hS.live_current hp hc

/-- One event keeps a process free unless it hands it out. -/
theorem step_stays_free {e : Event} (hS : m.Sound N) (he : m.Enabled e) (hok : m.Sparing L e)
    (hz : z ∈ m.kernel.free) (ha : ¬m.Allocates z e) : z ∈ (m.step L e).kernel.free := by
  rw [hS.refines.free] at hz
  cases e with
  | wake =>
    obtain ⟨s', hstep, hs', hp⟩ := step_wake (L := L) hS.refines
    rwa [hstep, hs'.free, Nucleus.free_schedule hp]
  | exception t =>
    obtain ⟨e, s', M, hstep, hM, hend⟩ := step_exception hS.refines (hok.covers hS he)
    rw [hstep, hM.free]
    refine hend.stays_free hz (fun h => h) ?_
    rwa [Allocates, hS.refines.free] at ha

/-- The runs from `m` that do not hand `z` out. -/
inductive Meanwhile (L : Layout) (ok : Machine → Event → Prop) (z : Pcb) (m : Machine) :
    Machine → Prop
  | refl : Meanwhile L ok z m m
  | step {m' : Machine} {e : Event} : Meanwhile L ok z m m' → m'.Enabled e → ok m' e →
      ¬m'.Allocates z e → Meanwhile L ok z m (m'.step L e)

theorem Meanwhile.run {ok : Machine → Event → Prop} (es : Script) (h : Meanwhile L ok z m m')
    (hf : m'.Follows L (fun m e => ok m e ∧ ¬m.Allocates z e) es) :
    Meanwhile L ok z m (m'.run L es) := by
  induction es generalizing m' with
  | nil => exact h
  | cons e es ih => exact ih (h.step hf.1.1 hf.1.2.1 hf.1.2.2) hf.2

/-- `z` is free, in no queue and does not execute. -/
structure Dead (m : Machine) (z : Pcb) : Prop where
  free : z ∈ m.kernel.free
  ready : z ∉ m.kernel.ready
  blocked : ∀ i, z ∉ m.kernel.procQ (.sProcq i)
  executing : m.mode ≠ .running z

theorem Sound.dead (hS : m.Sound N) (hz : z ∈ m.kernel.free) : m.Dead z := by
  have hq := hS.refines.queued
  refine ⟨hz, fun hr => hq.not_free_of_ready hr hz, ?_, fun hm => ?_⟩
  · exact hq.semAdd_eq_zero.mp (hq.semAdd_of_free hz)
  · rw [hS.refines.free] at hz
    exact (hS.running z hm).2 hz

/-- Dead processes stay dead until their pcb is handed out, as long as no
interrupt blocks or preempts a dead current process. -/
theorem dead_stay_dead (h : Reachable L (fun m e => m.Lawful L e ∧ m.Sparing L e) m)
    (hz : z ∈ m.kernel.free)
    (hr : Meanwhile L (fun m e => m.Lawful L e ∧ m.Sparing L e) z m m') : m'.Dead z := by
  have hrun : Reachable L (fun m e => m.Lawful L e ∧ m.Sparing L e) m' ∧ z ∈ m'.kernel.free := by
    induction hr with
    | refl => exact ⟨h, hz⟩
    | step _ he hok ha ih =>
      obtain ⟨N, hS⟩ := ih.1.sound
      exact ⟨ih.1.step he hok, step_stays_free hS he hok.2 ih.2 ha⟩
  obtain ⟨N, hS⟩ := hrun.1.sound
  exact hS.dead hrun.2

/-- A child that terminated itself stays free while its brother blocks. -/
theorem dead_stay_dead_child : ((sampleBoot.run sampleLayout
    [call 1 0x20060000 0 0, call 1 0x20060000 0 0, call 7 0 0 0, call 7 0 0 0, call 2 0 0 0]).run
      sampleLayout [call 3 0x20070000 0 0, interrupt 0x400 [] [], wake]).Dead 18 := by
  have sparing : ∀ {m : Machine} {t : Trap},
      ¬(∃ c, m.kernel.gCurrentProcess = some c ∧ c ∈ m.kernel.free) → m.Sparing sampleLayout
        (.exception t) := fun hn h => absurd h hn
  refine dead_stay_dead (.run (.boot _ _ _) ?_) (by decide +kernel) (.run _ .refl ?_)
  · exact ⟨⟨by decide +kernel, by decide +kernel, sparing (by decide +kernel)⟩,
      ⟨by decide +kernel, by decide +kernel, sparing (by decide +kernel)⟩,
      ⟨by decide +kernel, by decide +kernel, sparing (by decide +kernel)⟩,
      ⟨by decide +kernel, by decide +kernel, sparing (by decide +kernel)⟩,
      ⟨by decide +kernel, by decide +kernel, sparing (by decide +kernel)⟩, trivial⟩
  · exact ⟨⟨by decide +kernel, ⟨by decide +kernel, sparing (by decide +kernel)⟩, by decide +kernel⟩,
      ⟨by decide +kernel, ⟨by decide +kernel, sparing (by decide +kernel)⟩, by decide +kernel⟩,
      ⟨by decide +kernel, ⟨by decide +kernel, trivial⟩, by decide +kernel⟩, trivial⟩

/-- Two processes contend for a disk, a third terminates, and the scheduler
waits with `g_current_process` on a free pcb. -/
def deadCurrent : Script :=
  [call 1 0x20060000 0 0, call 1 0x20060000 0 0, call 5 0x10000054 0x20070000 0,
    call 5 0x10000054 0x20070000 0, call 2 0 0 0]

/-- The interrupt of the disk blocks the dead process. -/
theorem dead_process_blocked : ¬∀ (L : Layout) (m m' : Machine) (z : Pcb),
    Reachable L (Lawful L) m → z ∈ m.kernel.free → Meanwhile L (Lawful L) z m m' → m'.Dead z := by
  intro h
  have hr : Reachable sampleLayout (Lawful sampleLayout) (sampleBoot.run sampleLayout deadCurrent) :=
    .run (.boot _ _ _) (by decide +kernel)
  have hd := h sampleLayout _ _ 17 hr (by decide +kernel)
    (.run [fun m => .exception (diskTrap m)] .refl (by decide +kernel))
  exact absurd hd.free (by decide +kernel)

end Machine

end Pandos
