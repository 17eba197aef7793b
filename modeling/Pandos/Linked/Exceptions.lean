import Pandos.Linked.Lockstep
import Pandos.Phase2.CallEffects

/-!
# System calls and exceptions in lockstep

The pcbs that `CREATEPROCESS` allocates join those allocated before. What the
call hands back, like the data of `LDCXT`, is blurred.
-/

namespace Pandos
open Intrusive Outcome

/-- The numbers that `syscallHandler` knows. -/
theorem code_cases (n : Nat) : n = 1 ∨ n = 2 ∨ n = 3 ∨ n = 4 ∨ n = 5 ∨ n = 6 ∨ n = 7 ∨ n = 8 ∨ n = 9 ∨
    n = 10 ∨ ¬(1 ≤ n ∧ n ≤ 10) := by
  omega

namespace Linked

theorem syscall_other {L : Layout} {code a1 a2 a3 : Word} (hn : ¬(1 ≤ code.toNat ∧ code.toNat ≤ 10)) :
    syscall L code a1 a2 a3 = (do passUpOrDie L generalExcept; return 0) := by
  unfold syscall
  split <;> first | omega | rfl

theorem exceptionHandler_other {L : Layout} {s : Kernel} (h3 : 3 < excCode s.gOldState.cause)
    (h8 : excCode s.gOldState.cause ≠ 8) : exceptionHandler L s = passUpOrDie L generalExcept s := by
  unfold exceptionHandler
  refine (bind_of_ok rfl).trans (congrFun ?_ s)
  split <;> first | omega | rfl

variable {V : Blur} {D : Sight} {A : Set Pcb} {s : Kernel} {s' : Pandos.Kernel} {L : Layout}
  {α β : Type}

/-! ## System calls -/

/-- A call that has returned, when more pcbs may have been allocated. -/
def Back (V : Blur) (A : Set Pcb) (v w : Word) (s : Kernel) (s' : Pandos.Kernel) : Prop :=
  V.rel v w ∧ ∃ B, A ⊆ B ∧ Paired V B s s'

theorem Paired.back (h : Paired V A s s') (v : Word) : Back V A v v s s' :=
  ⟨V.refl v, A, subset_rfl, h⟩

theorem addNamespace_ended (ns : Nsd) (fuel : Nat) {t : Links} {T : Tables} {p : Pcb} (h : t.Holds V A T)
    (hp : p ∈ A) : Ended (fun t T' => t.Holds V A T' ∧ T'.procQ = T.procQ ∧ T'.pChild = T.pChild)
      (addNamespace fuel t p ns) (Tables.addNamespace fuel T p ns) := by
  induction fuel generalizing t T p with
  | zero => exact .hang
  | succ fuel ih =>
    have hset := h.modPcb (p := p)
      (f := fun r => { r with namespaces := Function.update r.namespaces ns.1 (some ns) })
      (g := fun r => { r with namespaces := Function.update r.namespaces ns.1 (some ns) })
      { h.pcbs p with namespaces := by rw [(h.pcbs p).namespaces] } rfl
    rw [addNamespace, Tables.addNamespace, hset.children hp]
    refine Ended.foldlM (fun c hc u T' hu => ?_) ⟨hset, rfl, rfl⟩
    refine (ih hu.1 (h.child_used hc)).mono fun v T'' hv => ?_
    exact ⟨hv.1, hv.2.1.trans hu.2.1, hv.2.2.trans hu.2.2⟩

/-- A change of a record, and no more. -/
theorem both_modPcb_paired {Q : α → β → Kernel → Pandos.Kernel → Prop}
    {E : Exit → Exit → Kernel → Pandos.Kernel → Prop} {u : Unit → K α} {v : Unit → Pandos.K β} {p : Pcb}
    {f g : PcbT → PcbT} (h : Paired V A s s') (hf : (f (s.pcbs p)).Alike V (g (s'.pcbs p)))
    (hp : (f (s.pcbs p)).pParent = (s.pcbs p).pParent)
    (hk : ∀ t t', Paired V A t t' → t'.gCurrentProcess = s'.gCurrentProcess → t'.procQ = s'.procQ →
      Both (u ()) t (v ()) t' Q E) :
    Both (K.modPcb p f >>= u) s (Pandos.K.tables (·.modPcb p g) >>= v) s' Q E :=
  both_modPcb_bind.mpr (hk _ _ (h.modPcb hf hp) rfl rfl)

/-- The last part of `sysCreateProcess`: the new process is ready and the last
child of the current one. -/
theorem adopt_both (h : Paired V A s s') {p : Pcb} (hp : p ∈ A) (hfree : p ∉ s'.free)
    (hlive : ∀ c, s'.gCurrentProcess = some c → c ∉ s'.free) : Both (do
      K.links (·.insertProcQ .gReadyQueue p)
      let parent ← K.current
      K.links (·.insertChild parent p)
      return L.pcb p) s (do
      Pandos.K.tables (·.insertProcQ .gReadyQueue p)
      let parent ← Pandos.K.current
      Pandos.K.tables (·.insertChild parent p)
      return L.pcb p) s' (Back V A) (Out V A) := by
  obtain ⟨t, ht, hH⟩ := h.links.insertProcQ hp Links.gReadyQueue_mem_cells (by simp)
  have less : ∀ {q}, q ∉ s'.free → q ∉ (s'.insertProcQ .gReadyQueue p).free := fun hq hm => by
    rw [Tables.free, Tables.insertProcQ_procQ, if_neg (by simp)] at hm
    exact hq (Lists.mem_unlink.mp hm).1
  have hP := h.withLinks hH
  refine both_links_bind ht (both_current_bind h.globals.gCurrentProcess (hP.out _) fun c hc => ?_)
  obtain ⟨u, hu, hH'⟩ := hH.insertChild (less (hlive c hc)) (less hfree)
  exact both_links_bind hu ((hP.withLinks hH').back _)

theorem Back.mono {v w : Word} {B : Set Pcb} (hA : A ⊆ B) (h : Back V B v w s s') :
    Back V A v w s s' :=
  h.imp id fun ⟨C, hC, hp⟩ => ⟨C, hA.trans hC, hp⟩

theorem sysCreateProcess_both (h : Paired V A s s') (statep supportp : Word) (ns : Option Nsd)
    (hlive : ∀ c, s'.gCurrentProcess = some c → c ∉ s'.free) :
    Both (sysCreateProcess L statep supportp ns) s (Pandos.sysCreateProcess L statep supportp ns) s'
      (Back V A) (Out V A) := by
  unfold sysCreateProcess Pandos.sysCreateProcess
  cases hf : s'.free with
  | nil =>
    have hn := Tables.allocPcb_nil hf
    refine both_fromLinks_bind (t := s.toLinks) (by rw [h.links.allocPcb_empty hf, hn]) ?_
    rw [hn]
    exact h.back _
  | cons p l =>
    obtain ⟨u, hu, hH⟩ := h.links.allocPcb hf
    have ha := Tables.allocPcb_cons hf
    refine both_fromLinks_bind (t := u) (by rw [hu, ha]) ?_
    simp only [ha]
    have hA : A ⊆ insert p A := Set.subset_insert p A
    have hpA : p ∈ insert p A := Set.mem_insert p A
    have h₀ : Paired V (insert p A) { s with toLinks := u }
        { s' with toTables := (s'.listDel p).resetPcb p } :=
      ⟨hH, h.globals, fun c hc => hA (h.current c hc)⟩
    have last : ∀ {t t'}, Paired V (insert p A) t t' → t'.gCurrentProcess = s'.gCurrentProcess →
        t'.free = s'.procQ.unlink p .pcbFreeH → _ := fun {t t'} ht hc hq =>
      (adopt_both (L := L) ht hpA (by rw [hq]; exact fun hm => (Lists.mem_unlink.mp hm).2 rfl)
        fun c hcur => by
          rw [hq]
          exact fun hm => hlive c (hc ▸ hcur) (Lists.mem_unlink.mp hm).1).mono
        (fun _ _ _ _ => Back.mono hA) fun _ _ _ _ => Out.mono hA
    have h₁ := h₀.withGlobals (g := { s.toGlobals with gProcessCount := s.gProcessCount + 1 })
      (k := { s'.toGlobals with gProcessCount := s'.gProcessCount + 1 })
      { h.globals with gProcessCount := congrArg (· + 1) h.globals.gProcessCount } h₀.current
    refine both_globals_bind.mpr (both_get_bind.mpr ?_)
    refine both_modPcb_paired h₁ { h₁.pcbs p with pS := h.globals.readState } rfl fun t t' ht hc hq => ?_
    refine both_modPcb_paired ht { ht.pcbs p with pSupportStruct := rfl } rfl fun w w' hw hc' hq' => ?_
    have hcur := hc'.trans hc
    have hfree := congrFun (hq'.trans hq) ProcQ.pcbFreeH
    cases ns with
    | none =>
      refine both_current_bind hw.globals.gCurrentProcess ((hw.out _).mono hA) fun c _ => ?_
      refine both_get_bind.mpr (both_modPcb_paired hw ?_ rfl fun v v' hv hc₂ hq₂ => ?_)
      · exact { hw.pcbs p with namespaces := (hw.pcbs c).namespaces }
      · exact last hv (hc₂.trans hcur) ((congrFun hq₂ _).trans hfree)
    | some ns =>
      refine both_get_bind.mpr ?_
      obtain ⟨t, T, ht, hT, hH, hq₂, -⟩ | ⟨ht, hT⟩ :=
        (addNamespace_ended ns maxProc hw.links hpA).cases
      · simp only [ht, hT]
        exact both_links_bind (f := fun _ => some t) rfl
          (last (hw.withLinks hH) hcur ((congrFun hq₂ _).trans hfree))
      · simp only [ht, hT]
        exact (hw.out _).mono hA

/-- A call that allocates nothing. -/
theorem Twins.back {x : K Unit} {y : Pandos.K Unit} (h : Twins L V D A x s y s') (v : Word) :
    Both (do x; return v) s (do y; return v) s' (Back V A) (Out V A) :=
  Both.bind h fun _ _ _ _ ⟨_, ht⟩ => ht.toPaired.back v

/-- The caller asks for input or output. -/
theorem Buffered.request {T : Tables} (h : Buffered L D T) {p : Pcb} {a v : Word}
    (hv : Linked.request a v ⊆ D.words) :
    Buffered L { D with asking := insert p D.asking } (T.modPcb p ({ · with cmdAddr := a, cmdValues := v })) where
  asking d i hi q hq := .inr (h.asking d i hi q hq)
  shown q hq := by
    by_cases hqp : q = p
    · subst hqp
      simpa [Tables.modPcb] using hv
    · simpa [Tables.modPcb, hqp] using h.shown q (hq.resolve_left hqp)

theorem sysDoIo_both (h : Twin L V D A s s') {a v : Word} (hv : request a v ⊆ D.words) :
    Both (sysDoIo L a v) s (Pandos.sysDoIo L a v) s' (Back V A) (Out V A) := by
  have rest : ∀ {t t'}, Twin L V D A t t' → Both (do
      let caller ← K.current
      K.modPcb caller ({ · with cmdAddr := a, cmdValues := v })
      let dev ← K.device (resolveDeviceAddress a)
      sysPasseren L (L.addr (.semMut dev))
      beginIo L dev (← K.current)
      return (0 : Word)) t (do
      let caller ← Pandos.K.current
      Pandos.K.tables (·.modPcb caller ({ · with cmdAddr := a, cmdValues := v }))
      let dev ← Pandos.K.device (resolveDeviceAddress a)
      Pandos.sysPasseren L (L.addr (.semMut dev))
      Pandos.beginIo L dev (← Pandos.K.current)
      return (0 : Word)) t' (Back V A) (Out V A) := by
    intro t t' h
    refine both_current_bind h.globals.gCurrentProcess (h.out _) fun c hc => both_modPcb_bind.mpr ?_
    have hset : Twin L V { D with asking := insert c D.asking } A
        { t with toLinks := t.toLinks.modPcb c ({ · with cmdAddr := a, cmdValues := v }) }
        { t' with toTables := t'.toTables.modPcb c ({ · with cmdAddr := a, cmdValues := v }) } :=
      ⟨h.toPaired.modPcb { h.pcbs c with cmdAddr := rfl, cmdValues := rfl } rfl, h.agree,
        h.buffered.request hv⟩
    refine (device_both hset.toPaired _).bind fun d d' u u' ⟨hd, hu, hu'⟩ => ?_
    subst hd hu hu'
    refine (semOp_returns hset (.inr (kernelWord_ne L _))).bind fun _ _ u u' ⟨h, hcur⟩ => ?_
    refine both_current_bind h.globals.gCurrentProcess (h.out _) fun e he => ?_
    obtain rfl : c = e := Option.some.inj (hc.symm.trans (hcur.symm.trans he))
    exact (beginIo_both h d (Set.mem_insert c _)).back 0
  unfold sysDoIo Pandos.sysDoIo
  exact both_ite Iff.rfl (fun _ => both_leave (h.out _)) fun _ => rest h

theorem sysGetTime_both (h : Twin L V D A s s') :
    Both sysGetTime s Pandos.sysGetTime s' (Back V A) (Out V A) := by
  unfold sysGetTime Pandos.sysGetTime
  refine both_current_bind h.globals.gCurrentProcess (h.out _) fun c _ => ?_
  refine (getPassedTime_both h).bind fun v w t t' ⟨hv, ht⟩ => both_get_bind.mpr ?_
  exact ⟨V.add (ht.pcbs c).pTime hv, A, subset_rfl, ht.toPaired⟩

theorem Twin.setSoft (h : Twin L V D A s s') {n n' : Int} (hn : n = n') :
    Twin L V D A { s with gSoftBlockCount := n } { s' with gSoftBlockCount := n' } :=
  h.withGlobals { h.agree with gSoftBlockCount := hn } rfl

theorem sysClockWait_both (h : Twin L V D A s s') :
    Twins L V D A (sysClockWait L) s (Pandos.sysClockWait L) s' := by
  unfold sysClockWait Pandos.sysClockWait
  have hmore := h.setSoft (congrArg (· + 1) h.agree.gSoftBlockCount)
  exact both_globals_bind.mpr (semOp_both hmore (.inr (kernelWord_ne L _)))

theorem sysGetSupportPtr_both (h : Twin L V D A s s') :
    Both sysGetSupportPtr s Pandos.sysGetSupportPtr s' (Back V A) (Out V A) := by
  unfold sysGetSupportPtr Pandos.sysGetSupportPtr
  refine both_current_bind h.globals.gCurrentProcess (h.out _) fun c _ => both_get_bind.mpr ?_
  rw [(h.pcbs c).pSupportStruct]
  exact h.toPaired.back _

theorem Paired.getNamespace (h : Paired V A s s') (p : Option Pcb) (n : Int) :
    s.getNamespace p n = s'.getNamespace p n := by
  unfold Kernel.getNamespace Tables.getNamespace
  cases p with
  | none => rfl
  | some p => simp only [(h.pcbs p).namespaces]

theorem sysGetProcessID_both (h : Twin L V D A s s') (isParent : Word) :
    Both (sysGetProcessID L isParent) s (Pandos.sysGetProcessID L isParent) s' (Back V A) (Out V A) := by
  unfold sysGetProcessID Pandos.sysGetProcessID
  refine both_current_bind h.globals.gCurrentProcess (h.out _) fun c _ => both_get_bind.mpr ?_
  rw [(h.pcbs c).pParent]
  simp only [h.getNamespace]
  refine both_ite Iff.rfl (fun _ => h.toPaired.back _) fun _ => ?_
  exact both_ite Iff.rfl (fun _ => h.toPaired.back _) fun _ => h.toPaired.back _

/-- A loop that the two go through together. -/
theorem Twins.foldlM {γ : Type} {f : α → γ → K α} {g : α → γ → Pandos.K α} {l : List γ} {a : α}
    (step : ∀ c ∈ l, ∀ a t t', Twin L V D A t t' → Twins L V D A (f a c) t (g a c) t') (h : Twin L V D A s s') :
    Twins L V D A (l.foldlM f a) s (l.foldlM g a) s' :=
  both_foldlM (fun c hc a _ t t' ⟨hab, ht⟩ => hab ▸ step c hc a t t' ht) ⟨rfl, h⟩

theorem getChildsByNamespace_both (children : Word) (size : Int) (ns : Option Nsd) (fuel : Nat) {used : Int}
    {s : Kernel} {s' : Pandos.Kernel} {p : Pcb} (h : Twin L V D A s s') (hp : p ∈ A) :
    Twins L V D A (getChildsByNamespace L children size ns fuel used p) s
      (Pandos.getChildsByNamespace L children size ns fuel used p) s' := by
  induction fuel generalizing used s s' p with
  | zero => exact both_leave (h.out _)
  | succ fuel ih =>
    unfold getChildsByNamespace Pandos.getChildsByNamespace
    refine both_get_bind.mpr ?_
    rw [h.getNamespace, h.globals.gCurrentProcess, h.links.children hp]
    refine both_ite Iff.rfl (fun _ => ⟨rfl, h⟩) fun _ => ?_
    have count : ∀ {a b : Int × Int} {t t'}, a = b ∧ Twin L V D A t t' →
        (a.1 + 1, a.2) = (b.1 + 1, b.2) ∧ Twin L V D A t t' := fun hab => ⟨by rw [hab.1], hab.2⟩
    refine both_ite Iff.rfl
      (fun _ => both_globals_bind.mpr (both_pure_bind.mpr (Both.bind
        (Twins.foldlM (fun c hc a t t' ht => ?_) (h.withGlobals h.agree.writeMem rfl)) fun _ _ _ _ => count)))
      fun _ => both_pure_bind.mpr (Both.bind
        (Twins.foldlM (fun c hc a t t' ht => ?_) h) fun _ _ _ _ => count)
    all_goals
      exact (ih ht (h.links.child_used hc)).bind fun _ _ _ _ ⟨hab, ht⟩ => ⟨by rw [hab], ht⟩

theorem sysGetChildren_both (h : Twin L V D A s s') (children : Word) (size : Int) :
    Twins L V D A (sysGetChildren L children size) s (Pandos.sysGetChildren L children size) s' := by
  unfold sysGetChildren Pandos.sysGetChildren
  refine both_current_bind h.globals.gCurrentProcess (h.out _) fun c hc => both_get_bind.mpr ?_
  rw [h.getNamespace]
  exact (getChildsByNamespace_both children size _ _ h (h.current c hc)).bind fun _ _ _ _ ⟨ha, ht⟩ =>
    ⟨by rw [ha], ht⟩

theorem passUpOrDie_both {Q : Unit → Unit → Kernel → Pandos.Kernel → Prop} (h : Paired V A s s') (n : Nat) :
    Both (passUpOrDie L n) s (Pandos.passUpOrDie L n) s' Q (Out V A) := by
  unfold passUpOrDie Pandos.passUpOrDie
  refine both_get_bind.mpr ?_
  rw [h.globals.gCurrentProcess]
  cases hc : s'.gCurrentProcess with
  | none => exact sysTerminateProcess_both h fun p hp => h.current p hp
  | some c =>
    dsimp only
    rw [(h.pcbs c).pSupportStruct]
    refine both_ite Iff.rfl (fun _ => ?_) fun _ => ?_
    · exact sysTerminateProcess_both h fun p hp => h.current p (by simpa [hc] using hp)
    · have hw := h.globals.writeState (a := supExceptState (s'.pcbs c).pSupportStruct n) h.globals.gOldState
      have hP := h.withGlobals hw fun p hp => h.current p (by rwa [Globals.writeState_eq] at hp)
      refine both_globals_bind.mpr (both_get_bind.mpr (both_leave ⟨?_, A, subset_rfl, hP⟩))
      exact ⟨hw.mem _, hw.mem _, hw.mem _⟩

theorem toPointer_both {γ : Type} {p : Option γ} {x : γ → K α} {y : γ → Pandos.K β}
    {Q : α → β → Kernel → Pandos.Kernel → Prop} (h : Paired V A s s')
    (hp : ∀ q, p = some q → Both (x q) s (y q) s' Q (Out V A)) :
    Both (toPointer p >>= x) s (Pandos.toPointer p >>= y) s' Q (Out V A) := by
  cases p with
  | none => exact both_leave (h.out _)
  | some q => exact hp q rfl

/-- The call looks only at words of `D` and names no pcb outside `A`. -/
structure Asks (L : Layout) (D : Sight) (A : Set Pcb) (code a1 a2 : Word) : Prop where
  target : code.toNat = 2 → ∀ p, L.toPcb a1 = some (some p) → p ∈ A
  semaphore : code.toNat = 3 ∨ code.toNat = 4 → a1 ∈ D.words ∨ L.kernelWord a1 ≠ none
  buffer : code.toNat = 5 → request a1 a2 ⊆ D.words

theorem syscall_both (h : Twin L V D A s s') {code a1 a2 a3 : Word} (ha : Asks L D A code a1 a2)
    (hlive : ∀ c, s'.gCurrentProcess = some c → c ∉ s'.free) :
    Both (syscall L code a1 a2 a3) s (Pandos.syscall L code a1 a2 a3) s' (Back V A) (Out V A) := by
  obtain hn | hn | hn | hn | hn | hn | hn | hn | hn | hn | hn := code_cases code.toNat
  · simp only [syscall, Pandos.syscall, hn]
    exact toPointer_both h.toPaired fun ns _ => sysCreateProcess_both h.toPaired a1 a2 ns hlive
  · simp only [syscall, Pandos.syscall, hn]
    refine toPointer_both h.toPaired fun pid hpid => Both.bind (sysTerminateProcess_both h.toPaired ?_)
      fun _ _ _ _ (hf : False) => hf.elim
    intro p hp
    cases pid with
    | none => exact h.current p hp
    | some q =>
      obtain rfl : q = p := by simpa using hp
      exact ha.target hn q hpid
  · simp only [syscall, Pandos.syscall, hn]
    exact (semOp_both h (ha.semaphore (.inl hn))).back 0
  · simp only [syscall, Pandos.syscall, hn]
    exact (semOp_both h (ha.semaphore (.inr hn))).back 0
  · simp only [syscall, Pandos.syscall, hn]
    exact sysDoIo_both h (ha.buffer hn)
  · simp only [syscall, Pandos.syscall, hn]
    exact sysGetTime_both h
  · simp only [syscall, Pandos.syscall, hn]
    exact (sysClockWait_both h).back 0
  · simp only [syscall, Pandos.syscall, hn]
    exact sysGetSupportPtr_both h
  · simp only [syscall, Pandos.syscall, hn]
    exact sysGetProcessID_both h a1
  · simp only [syscall, Pandos.syscall, hn]
    exact (sysGetChildren_both h a1 a2.toInt).bind fun _ _ _ _ ⟨hv, ht⟩ => hv ▸ ht.toPaired.back _
  · rw [syscall_other hn, Pandos.syscall_other hn]
    exact (passUpOrDie_both h.toPaired generalExcept).bind fun _ _ _ _ (hf : False) => hf.elim

theorem syscallHandler_both {Q : Unit → Unit → Kernel → Pandos.Kernel → Prop} (h : Twin L V D A s s')
    (harg : ∀ i : Fin 35, i.val ∈ [7, 8, 9, 10] → s.gOldState.words i = s'.gOldState.words i)
    (ha : Asks L D A s'.gOldState.regA0 s'.gOldState.regA1 s'.gOldState.regA2)
    (hlive : ∀ c, s'.gCurrentProcess = some c → c ∉ s'.free) :
    Both (syscallHandler L) s (Pandos.syscallHandler L) s' Q (Out V A) := by
  unfold syscallHandler Pandos.syscallHandler
  refine both_get_bind.mpr ?_
  have h0 : s.gOldState.regA0 = s'.gOldState.regA0 := harg 7 (by simp)
  have h1 : s.gOldState.regA1 = s'.gOldState.regA1 := harg 8 (by simp)
  have h2 : s.gOldState.regA2 = s'.gOldState.regA2 := harg 9 (by simp)
  have h3 : s.gOldState.regA3 = s'.gOldState.regA3 := harg 10 (by simp)
  simp only [h0, h1, h2, h3]
  refine (syscall_both h ha hlive).bind fun v w t t' ⟨hv, B, hB, ht⟩ => both_globals_bind.mpr ?_
  have hP : Paired V B { t with gOldState := t.gOldState.setRegV0 v }
      { t' with gOldState := t'.gOldState.setRegV0 w } :=
    ht.withGlobals { ht.globals with gOldState := ht.globals.gOldState.set hv } ht.current
  exact both_leave ((hP.out _).mono hB)

/-! ## Interrupts -/

theorem wakeClock_both (fuel : Nat) {s : Kernel} {s' : Pandos.Kernel} (h : Twin L V D A s s') :
    Twins L V D A (wakeClock L fuel) s (Pandos.wakeClock L fuel) s' := by
  induction fuel generalizing s s' with
  | zero => exact both_leave (h.out _)
  | succ fuel ih =>
    unfold wakeClock Pandos.wakeClock
    obtain ⟨u, hu, hT, hused⟩ := h.removeBlocked (L.addr .clock)
    refine both_fromLinks_bind hu ?_
    cases hr : (s'.removeBlocked (L.addr .clock)).1 with
    | none => exact ⟨rfl, hT⟩
    | some p =>
      have hless := hT.setSoft (congrArg (· - 1) hT.agree.gSoftBlockCount)
      obtain ⟨w, hw, hW⟩ := hless.insertReady (hused p hr)
      exact both_globals_bind.mpr (both_links_bind hw (ih hW))

theorem handleSysTimer_both (h : Twin L V D A s s') :
    Twins L V D A (handleSysTimer L) s (Pandos.handleSysTimer L) s' := by
  unfold handleSysTimer Pandos.handleSysTimer
  exact (wakeClock_both _ h).bind fun _ _ _ _ ⟨_, h⟩ =>
    ⟨rfl, h.withGlobals { h.agree with gPseudoClock := rfl } rfl⟩

theorem handleLocalTimer_both {Q : Unit → Unit → Kernel → Pandos.Kernel → Prop} (h : Twin L V D A s s') :
    Both handleLocalTimer s Pandos.handleLocalTimer s' Q (Out V A) := by
  unfold handleLocalTimer Pandos.handleLocalTimer
  refine both_current_bind h.globals.gCurrentProcess (h.out _) fun c hc => ?_
  refine both_get_bind.mpr (both_modPcb_bind.mpr ?_)
  obtain ⟨u, hu, hT⟩ := (h.save c).insertReady (h.current c hc)
  refine both_links_bind hu (both_globals_bind.mpr ?_)
  exact scheduler_both (hT.toPaired.withGlobals { hT.globals with gCurrentProcess := rfl } (by simp))

theorem handleLine_both (h : Twin L V D A s s') (line : Line) :
    Twins L V D A (handleLine L line) s (Pandos.handleLine L line) s' := by
  cases line with
  | localTimer => exact handleLocalTimer_both h
  | sysTimer => exact handleSysTimer_both h
  | device n => exact handleDeviceInt_both h n

theorem serveLine_both (h : Twin L V D A s s') : Twins L V D A (serveLine L) s (Pandos.serveLine L) s' := by
  unfold serveLine Pandos.serveLine
  refine both_get_bind.mpr ?_
  rw [h.agree.cause]
  dsimp only
  cases firstLine s'.gOldState.cause with
  | none => exact ⟨rfl, h⟩
  | some l =>
    have hT : Twin L V D A { s with gOldState := s.gOldState.setCause (s'.gOldState.cause &&& ~~~l.1) }
        { s' with gOldState := s'.gOldState.setCause (s'.gOldState.cause &&& ~~~l.1) } :=
      h.withGlobals { h.agree with gOldState := h.agree.gOldState.set (V.refl _), cause := rfl } rfl
    exact both_globals_bind.mpr (handleLine_both hT l.2)

theorem interruptHandler_both {Q : Unit → Unit → Kernel → Pandos.Kernel → Prop} (fuel : Nat)
    {s : Kernel} {s' : Pandos.Kernel} (h : Twin L V D A s s') :
    Both (interruptHandler L fuel) s (Pandos.interruptHandler L fuel) s' Q (Out V A) := by
  induction fuel generalizing s s' Q with
  | zero => exact both_leave (h.out _)
  | succ fuel ih =>
    unfold interruptHandler Pandos.interruptHandler
    refine (serveLine_both h).bind fun _ _ t t' ⟨_, ht⟩ => both_get_bind.mpr ?_
    rw [ht.agree.cause]
    refine both_ite Iff.rfl (fun _ => ?_) fun _ => ?_
    · exact (ih (Q := fun _ _ _ _ => False) ht).bind fun _ _ _ _ hf => hf.elim
    · exact (restart_both ht).bind fun _ _ _ _ ⟨_, ht⟩ => both_leave (ht.out _)

theorem exceptionHandler_both {Q : Unit → Unit → Kernel → Pandos.Kernel → Prop} (h : Twin L V D A s s')
    (harg : ∀ i : Fin 35, i.val ∈ [7, 8, 9, 10] → s.gOldState.words i = s'.gOldState.words i)
    (ha : excCode s'.gOldState.cause = 8 →
      Asks L D A s'.gOldState.regA0 s'.gOldState.regA1 s'.gOldState.regA2)
    (hlive : excCode s'.gOldState.cause = 8 → ∀ c, s'.gCurrentProcess = some c → c ∉ s'.free) :
    Both (exceptionHandler L) s (Pandos.exceptionHandler L) s' Q (Out V A) := by
  have hcode : excCode s.gOldState.cause = excCode s'.gOldState.cause := by rw [h.agree.cause]
  obtain hn | hn | hn | hn | hn | ⟨h3, hn⟩ : excCode s'.gOldState.cause = 0 ∨ excCode s'.gOldState.cause = 1 ∨
      excCode s'.gOldState.cause = 2 ∨ excCode s'.gOldState.cause = 3 ∨ excCode s'.gOldState.cause = 8 ∨
      3 < excCode s'.gOldState.cause ∧ excCode s'.gOldState.cause ≠ 8 := by omega
  · refine both_get_bind.mpr ?_
    simp only [hcode, hn]
    exact (updateProcessTime_both h).bind fun _ _ _ _ ht => interruptHandler_both 7 ht.2
  · refine both_get_bind.mpr ?_
    simp only [hcode, hn]
    exact passUpOrDie_both h.toPaired _
  · refine both_get_bind.mpr ?_
    simp only [hcode, hn]
    exact passUpOrDie_both h.toPaired _
  · refine both_get_bind.mpr ?_
    simp only [hcode, hn]
    exact passUpOrDie_both h.toPaired _
  · refine both_get_bind.mpr ?_
    simp only [hcode, hn]
    have hskip : ∀ {s : StateT} {i : Fin 35}, i.val ∈ [1, 7, 8, 9, 10] →
        (s.setPcEpc (s.pcEpc + 4)).words i = s.words i := by
      intro s i hi
      have hne : i ≠ 3 := by
        rintro rfl
        simp at hi
      simp [StateT.setPcEpc, StateT.set, hne]
    have hT : Twin L V D A { s with gOldState := s.gOldState.setPcEpc (s.gOldState.pcEpc + 4) }
        { s' with gOldState := s'.gOldState.setPcEpc (s'.gOldState.pcEpc + 4) } :=
      h.withGlobals { h.agree with
        gOldState := h.agree.gOldState.set (V.add (h.agree.gOldState.words 3) (V.refl 4))
        cause := (hskip (i := 1) (by simp)).trans (h.agree.cause.trans (hskip (i := 1) (by simp)).symm) } rfl
    refine both_globals_bind.mpr (syscallHandler_both hT (fun i hi => ?_) ?_ (hlive hn))
    · have hi' : i.val ∈ [1, 7, 8, 9, 10] := List.mem_cons_of_mem _ hi
      exact (hskip hi').trans ((harg i hi).trans (hskip hi').symm)
    · exact ha hn
  · have hpass := passUpOrDie_both (L := L) (Q := Q) h.toPaired generalExcept
    unfold Both at hpass ⊢
    rwa [exceptionHandler_other (hcode ▸ h3) (hcode ▸ hn), Pandos.exceptionHandler_trap (by omega) hn, if_pos h3]

end Linked

end Pandos
