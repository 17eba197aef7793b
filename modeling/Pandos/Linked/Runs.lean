import Pandos.Linked.Exceptions
import Pandos.Phase1.LinkCalls
import Pandos.Scenario

/-!
# Runs on pointers

The kernel on pointers goes through a run as the kernel on lists does, event by
event: the two are in the same mode, and the pointers of the one thread the
lists of the other. No access of phase 1 is through `NULL`.
-/

namespace Pandos
open Intrusive Outcome

/-! ## Events -/

/-- Exceptions that differ in what the kernel does not look at. -/
structure Trap.Alike (V : Blur) (D : Set Word) (t t' : Trap) : Prop where
  old : ∀ i, V.rel (t.old i) (t'.old i)
  args : ∀ i : Fin 35, i.val ∈ [1, 7, 8, 9, 10] → t.old i = t'.old i
  mem : ∀ a, V.rel (t.mem a) (t'.mem a)
  shown : ∀ a ∈ D, t.mem a = t'.mem a
  bus : t.bus = t'.bus
  hw : t.hw = t'.hw

theorem Trap.Alike.refl {V : Blur} {D : Set Word} (t : Trap) : t.Alike V D t :=
  ⟨fun _ => V.refl _, fun _ _ => rfl, fun _ => V.refl _, fun _ _ => rfl, rfl, rfl⟩

/-- The processes that wait for a device in use. -/
def Machine.asking (L : Layout) (m : Machine) : Set Pcb :=
  {p | ∃ d, p ∈ m.kernel.waiters (L.addr (.semMut d))}

/-- The words of processes that the kernel may look at in handling `t`: the
semaphore it is called for, and the values of the requests to begin. -/
def Machine.looksAt (L : Layout) (m : Machine) (t : Trap) : Set Word :=
  {a | (t.Calls 3 ∨ t.Calls 4) ∧ a = t.old 8 ∨ t.Calls 5 ∧ a ∈ Linked.request (t.old 8) (t.old 9) ∨
    ∃ p ∈ m.asking L, a ∈ Linked.request (m.kernel.pcbs p).cmdAddr (m.kernel.pcbs p).cmdValues}

/-- Events that differ in what the kernel does not look at. -/
inductive Event.Alike (L : Layout) (V : Blur) (m : Machine) : Event → Event → Prop
  | exception {t t' : Trap} : t.Alike V (m.looksAt L t') t' →
      Alike L V m (.exception t) (.exception t')
  | wake : Alike L V m .wake .wake

theorem Event.Alike.refl {L : Layout} {V : Blur} {m : Machine} (e : Event) : e.Alike L V m e := by
  cases e with
  | exception t => exact .exception (.refl t)
  | wake => exact .wake

namespace Linked

/-! ## `main()` -/

variable {V : Blur} {D : Sight} {A : Set Pcb} {s : Kernel} {s' : Pandos.Kernel} {L : Layout}

/-- The same change of two records that are the same. -/
theorem holds_modPcb {t : Links} {T : Tables} {p : Pcb} {f : PcbT → PcbT} (h : t.Holds .exact A T)
    (hf : ∀ r, (f r).pParent = r.pParent) : (t.modPcb p f).Holds .exact A (T.modPcb p f) :=
  h.modPcb ((h.pcbs p).eq ▸ .refl _) (hf _)

theorem launchInit_both (h : s.toLinks.Holds .exact A s'.toTables) (hg : s.toGlobals.Alike V s'.toGlobals)
    (hc : s'.gCurrentProcess = none) {p : Pcb} {l : List Pcb} (hf : s'.free = p :: l) :
    Both (launchInit L) s (Pandos.launchInit L) s' (fun _ _ t t' => ∃ A, Paired V A t t')
      (fun _ _ _ _ => False) := by
  unfold launchInit Pandos.launchInit
  obtain ⟨u, hu, hH⟩ := h.allocPcb hf
  have ha := Tables.allocPcb_cons hf
  refine both_globals_bind.mpr (both_fromLinks_bind (t := u) (by rw [hu, ha]) ?_)
  simp only [ha]
  refine both_pure_bind.mpr ?_
  refine both_modPcb_bind.mpr (both_modPcb_bind.mpr (both_modPcb_bind.mpr (both_modPcb_bind.mpr ?_)))
  have hH := holds_modPcb (p := p) (f := fun r => { r with pS := r.pS.setStatus (r.pS.status ||| initStatus) })
    hH fun _ => rfl
  have hH := holds_modPcb (p := p) (f := fun r => { r with pS := r.pS.setPcEpc L.test }) hH fun _ => rfl
  have hH := holds_modPcb (p := p) (f := fun r => { r with pS := r.pS.setRegT9 r.pS.pcEpc }) hH fun _ => rfl
  have hH := holds_modPcb (p := p) (f := fun r => { r with pS := r.pS.setRegSp L.ramTop }) hH fun _ => rfl
  obtain ⟨w, hw, hH⟩ := hH.insertProcQ (Set.mem_insert p A) Links.gReadyQueue_mem_cells (by simp)
  refine both_links hw ⟨_, hH.blur, ?_, fun c h => ?_⟩
  · exact { hg with gProcessCount := congrArg (· + 1) hg.gProcessCount }
  · cases hc.symm.trans h

theorem main_both {mem mem' bus : Word → Word} {stck stck' : Nat → Word}
    {Q : Unit → Unit → Kernel → Pandos.Kernel → Prop} (hm : ∀ a, V.rel (mem a) (mem' a))
    (hs : ∀ n, V.rel (stck n) (stck' n)) :
    Both (main L) (.static mem bus stck) (Pandos.main L) (.zero mem' bus stck') Q (Out V ∅) := by
  obtain ⟨t, ht, hH⟩ := Links.boot_holds
  unfold Links.boot at ht
  obtain ⟨u, hu, ht⟩ := Option.bind_eq_some_iff.mp ht
  have hg : (initGlobalVariable (.static mem bus stck)).toGlobals.Alike V
      (Pandos.initGlobalVariable (.zero mem' bus stck')).toGlobals :=
    { Globals.Alike.refl (Pandos.initGlobalVariable (.zero mem' bus stck')).toGlobals with
      mem := hm
      stck := hs }
  have hfree : Ledger.boot.tables.free = (List.finRange maxProc).reverse :=
    congrArg Tables.free (initial_tables mem' bus stck')
  obtain ⟨p, l, hf⟩ : ∃ p l, Ledger.boot.tables.free = p :: l :=
    List.exists_cons_of_ne_nil (by rw [hfree]; decide)
  unfold main Pandos.main
  refine both_modify_bind.mpr (both_links_bind hu (both_links_bind ht ?_))
  let u : Kernel := { initGlobalVariable (.static mem bus stck) with toLinks := t }
  let u' : Pandos.Kernel := .initial mem' bus stck'
  have hinit : Both (launchInit L) u (Pandos.launchInit L) u' (fun _ _ v v' => ∃ A, Paired V A v v')
      (fun _ _ _ _ => False) := launchInit_both hH hg rfl hf
  exact (hinit.mono (fun _ _ _ _ h => h) fun _ _ _ _ h => h.elim).bind fun _ _ _ _ ⟨A, h⟩ =>
    (scheduler_both h).mono (fun _ _ _ _ h => h) fun _ _ _ _ h => h.mono (Set.empty_subset A)

/-! ## The machines -/

/-- The machine on pointers is where the machine on lists is. -/
structure Machine.Mirrors (V : Blur) (M : Machine) (m : Pandos.Machine) : Prop where
  mode : M.mode = m.mode
  kernel : ∃ A, Paired V A M.kernel m.kernel

namespace Machine
variable {M : Machine} {m : Pandos.Machine} {N : Nucleus}

theorem mirrors_enter {k : Mode} {x : K Unit} {y : Pandos.K Unit}
    (h : Both x s y s' (fun _ _ _ _ => False) (Out V A)) :
    (enter k x s).Mirrors V (Pandos.Machine.enter k y s') := by
  unfold Both at h
  unfold enter Pandos.Machine.enter
  cases hx : x s <;> cases hy : y s' <;> rw [hx, hy] at h
  · exact h.elim
  · exact h.elim
  · exact h.elim
  · next e t e' t' =>
    obtain ⟨he, B, -, hB⟩ := h
    refine ⟨?_, B, hB⟩
    cases e with
    | ldcxt =>
      cases e' with
      | ldcxt => rfl
      | _ => cases he
    | dispatch p =>
      cases e' with
      | dispatch q =>
        cases he
        simp only [Pandos.Machine.resume, (hB.pcbs p).pS.inWait]
      | _ => cases he
    | _ =>
      cases he
      rfl

theorem mirrors_boot {mem mem' bus : Word → Word} {stck stck' : Nat → Word}
    (hm : ∀ a, V.rel (mem a) (mem' a)) (hs : ∀ n, V.rel (stck n) (stck' n)) :
    (boot L mem bus stck).Mirrors V (.boot L mem' bus stck') :=
  mirrors_enter (main_both hm hs)

/-- The exception enters both kernels. -/
theorem Mirrors.trapped (h : Paired V A M.kernel m.kernel) (hmode : M.mode = m.mode) (hN : m.Sound N)
    {t t' : Trap} (ht : t.Alike V (m.looksAt L t') t') :
    Twin L V ⟨m.looksAt L t', m.asking L⟩ A (M.trapped t) (m.trapped t') := by
  have hwait : decide (M.mode = .waiting) = decide (m.mode = .waiting) := by rw [hmode]
  have hg : (M.trapped t).toGlobals.Alike V (m.trapped t').toGlobals :=
    { h.globals with
      gOldState := ⟨ht.old, hwait⟩
      mem := ht.mem
      bus := ht.bus
      hw := ht.hw }
  exact ⟨⟨h.links, hg, h.current⟩, ⟨hg, ht.args 1 (by simp), ht.shown⟩,
    ⟨fun d i hi p hp => ⟨d, hN.refines.queued.mem_waiters.mpr
        ⟨L.addr_ne_zero _, (hN.refines.queued.keyed i p hp).trans hi⟩⟩,
      fun p hp a ha => .inr (.inr ⟨p, hp, ha⟩)⟩⟩

/-- What a lawful system call asks for. -/
theorem asks_of_lawful {t : Trap} (h : Paired V A M.kernel m.kernel) (h8 : excCode (t.old 1) = 8)
    (hlaw : m.Lawful L (.exception t)) : Asks L ⟨m.looksAt L t, m.asking L⟩ A (t.old 7) (t.old 8) (t.old 9) where
  target := by
    intro h2 p hp
    have hpcb := L.toPcb_some hp
    rcases hlaw.2 ⟨h8, h2⟩ with h0 | ⟨q, hq, hlive⟩
    · exact absurd (hpcb.symm.trans h0) (L.pcb_ne p)
    · obtain rfl := L.pcb_inj (hq.symm.trans hpcb)
      exact h.links.used q hlive
  semaphore := fun hn => .inl (.inl ⟨hn.imp (⟨h8, ·⟩) (⟨h8, ·⟩), rfl⟩)
  buffer := fun h5 a ha => .inr (.inl ⟨⟨h8, h5⟩, ha⟩)

/-- A system call is made by a process that runs. -/
theorem live_of_syscall {t : Trap} (hN : m.Sound N) (hen : m.Enabled (.exception t))
    (h8 : excCode (t.old 1) = 8) {c : Pcb} (hc : m.kernel.gCurrentProcess = some c) : c ∉ m.kernel.free := by
  rcases hen.1 with ⟨p, hp⟩ | ⟨-, h0⟩
  · obtain rfl : p = c := Option.some.inj ((hN.current hp).symm.trans hc)
    exact hN.alive hp
  · cases h0.symm.trans h8

/-- One event keeps the machines together. -/
theorem Mirrors.step (h : M.Mirrors V m) (hN : m.Sound N) {e e' : Event} (he : e.Alike L V m e')
    (hen : m.Enabled e') (hlaw : m.Lawful L e') : (M.step L e).Mirrors V (m.step L e') := by
  obtain ⟨hmode, A, hP⟩ := h
  cases he with
  | wake =>
    show (enter M.mode scheduler M.kernel).Mirrors V (.enter m.mode Pandos.scheduler m.kernel)
    rw [hmode]
    exact mirrors_enter (scheduler_both hP)
  | @exception t t' ht =>
    have hT := Mirrors.trapped hP hmode hN ht
    show (enter M.mode (exceptionHandler L) (M.trapped t)).Mirrors V
      (.enter m.mode (Pandos.exceptionHandler L) (m.trapped t'))
    rw [hmode]
    exact mirrors_enter (exceptionHandler_both hT (fun i hi => ht.args i (.tail _ hi))
      (fun h8 => asks_of_lawful hP h8 hlaw) fun h8 _ hc => live_of_syscall hN hen h8 hc)

/-- The machines on pointers and on lists after the same events. -/
inductive Tandem (L : Layout) : Machine → Pandos.Machine → Prop
  | boot (mem bus : Word → Word) (stck : Nat → Word) :
      Tandem L (.boot L mem bus stck) (.boot L mem bus stck)
  | step {M : Machine} {m : Pandos.Machine} {e : Event} : Tandem L M m → m.Enabled e → m.Lawful L e →
      Tandem L (M.step L e) (m.step L e)

theorem Tandem.reachable (h : Tandem L M m) : Pandos.Machine.Reachable L (Pandos.Machine.Lawful L) m := by
  induction h with
  | boot mem bus stck => exact .boot mem bus stck
  | step _ hen hlaw ih => exact ih.step hen hlaw

theorem Tandem.run {es : Script} (h : Tandem L M m) (hf : m.Follows L (Pandos.Machine.Lawful L) es) :
    ∃ M, Tandem L M (m.run L es) := by
  induction es generalizing M m with
  | nil => exact ⟨M, h⟩
  | cons e es ih => exact ih (h.step hf.1.1 hf.1.2) hf.2

theorem Tandem.mirrors (h : Tandem L M m) : M.Mirrors .exact m := by
  induction h with
  | boot mem bus stck => exact mirrors_boot (fun _ => rfl) fun _ => rfl
  | step h hen hlaw ih =>
    obtain ⟨N, hN⟩ := h.reachable.sound
    exact ih.step hN (.refl _) hen hlaw

end Machine

/-- In every run the kernel on pointers is in the mode of the kernel on lists
and has its globals, and its pointers thread the lists. -/
theorem kernel_pointers_refine_lists {M : Machine} {m : Pandos.Machine} (h : Machine.Tandem L M m) :
    M.mode = m.mode ∧ M.kernel.toGlobals = m.kernel.toGlobals ∧
      ∃ A, M.kernel.toLinks.Holds .exact A m.kernel.toTables := by
  obtain ⟨hmode, A, hP⟩ := h.mirrors
  exact ⟨hmode, hP.globals.eq, A, hP.links⟩

/-- A process makes two children and waits for a disk. One of them waits for a
semaphore, the other hands it over and is terminated, and the disk finishes. -/
def household : Script :=
  [call 1 0x20060000 0 0, call 1 0x20060000 0 0, call 5 0x10000054 0x20070000 0, call 4 0x20060000 0 0,
    call 4 0x20060000 0 0, call 3 0x20060000 0 0, call 2 0 0 0, fun m => .exception (diskTrap m)]

theorem kernel_pointers_refine_lists_household : ∃ M : Machine,
    M.mode = (sampleBoot.run sampleLayout household).mode ∧
      M.kernel.toGlobals = (sampleBoot.run sampleLayout household).kernel.toGlobals ∧
      ∃ A, M.kernel.toLinks.Holds .exact A (sampleBoot.run sampleLayout household).kernel.toTables := by
  have hboot : Machine.Tandem sampleLayout _ sampleBoot := .boot _ _ _
  have hlaw : sampleBoot.Follows sampleLayout (Pandos.Machine.Lawful sampleLayout) household := by decide +kernel
  obtain ⟨M, hM⟩ := hboot.run hlaw
  exact ⟨M, kernel_pointers_refine_lists hM⟩

end Linked

end Pandos
