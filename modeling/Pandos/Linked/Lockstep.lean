import Pandos.Lib.Lockstep
import Pandos.Linked.Twin
import Pandos.Phase2.DeviceEffects

/-!
# The two kernels in lockstep

Started from twin states, every function of phase 2 does on the pointers what it
does on the lists.
-/

namespace Pandos.Linked
open Intrusive Outcome

variable {V : Blur} {D : Sight} {A : Set Pcb} {s : Kernel} {s' : Pandos.Kernel} {L : Layout}
  {α β : Type}

/-! ## Kernel code -/

section rules
variable {Q : α → β → Kernel → Pandos.Kernel → Prop} {E : Exit → Exit → Kernel → Pandos.Kernel → Prop}
  {γ : Type} {x : γ → K α} {y : γ → Pandos.K β} {u : Unit → K α} {v : Unit → Pandos.K β}
  {f : Globals → Globals}

theorem both_leave {e e' : Exit} (h : E e e' s s') :
    Both (K.leave e : K α) s (Pandos.K.leave e' : Pandos.K β) s' Q E := h

theorem both_globals {g : Globals → Globals} {Q : Unit → Unit → Kernel → Pandos.Kernel → Prop} :
    Both (K.globals f) s (Pandos.K.globals g) s' Q E ↔
      Q () () { s with toGlobals := f s.toGlobals } { s' with toGlobals := g s'.toGlobals } := Iff.rfl

theorem both_globals_bind {g : Globals → Globals} :
    Both (K.globals f >>= u) s (Pandos.K.globals g >>= v) s' Q E ↔
      Both (u ()) { s with toGlobals := f s.toGlobals } (v ()) { s' with toGlobals := g s'.toGlobals } Q E :=
  Iff.rfl

theorem both_modPcb_bind {p : Pcb} {f g : PcbT → PcbT} :
    Both (K.modPcb p f >>= u) s (Pandos.K.tables (·.modPcb p g) >>= v) s' Q E ↔
      Both (u ()) { s with toLinks := s.toLinks.modPcb p f }
        (v ()) { s' with toTables := s'.toTables.modPcb p g } Q E := Iff.rfl

theorem both_stck_bind {x : Word → K α} {y : Word → Pandos.K β} :
    Both (K.stck >>= x) s (Pandos.K.stck >>= y) s' Q E ↔
      Both (x (s.stck s.stckReads)) { s with stckReads := s.stckReads + 1 }
        (y (s'.stck s'.stckReads)) { s' with stckReads := s'.stckReads + 1 } Q E := Iff.rfl

theorem both_links {f : Links → Option Links} {g : Tables → Tables} {t : Links}
    {Q : Unit → Unit → Kernel → Pandos.Kernel → Prop} (ht : f s.toLinks = some t)
    (h : Q () () { s with toLinks := t } { s' with toTables := g s'.toTables }) :
    Both (K.links f) s (Pandos.K.tables g) s' Q E := by
  have hx : K.links f s = .ok () { s with toLinks := t } := by
    refine (bind_of_ok rfl).trans ?_
    rw [ht]
    rfl
  unfold Both
  rw [hx]
  exact h

theorem both_links_bind {f : Links → Option Links} {g : Tables → Tables} {t : Links}
    (ht : f s.toLinks = some t)
    (h : Both (u ()) { s with toLinks := t } (v ()) { s' with toTables := g s'.toTables } Q E) :
    Both (K.links f >>= u) s (Pandos.K.tables g >>= v) s' Q E :=
  (both_links (Q := fun _ _ t t' => Both (u ()) t (v ()) t' Q E) ht h).bind fun _ _ _ _ h => h

theorem both_fromLinks_bind {f : Links → Option (γ × Links)} {g : Tables → γ × Tables} {t : Links}
    (ht : f s.toLinks = some ((g s'.toTables).1, t))
    (h : Both (x (g s'.toTables).1) { s with toLinks := t } (y (g s'.toTables).1)
      { s' with toTables := (g s'.toTables).2 } Q E) :
    Both (K.fromLinks f >>= x) s (Pandos.K.fromTables g >>= y) s' Q E := by
  have hx : K.fromLinks f s = .ok (g s'.toTables).1 { s with toLinks := t } := by
    refine (bind_of_ok rfl).trans ?_
    rw [ht]
    rfl
  unfold Both at h ⊢
  rw [bind_of_ok hx, bind_of_ok (Pandos.K.fromTables_run g s')]
  exact h

theorem both_deref_bind {p p' : Option Pcb} {x : Pcb → K α} {y : Pcb → Pandos.K β} (hp : p = p')
    (hn : E .fault .fault s s') (hs : ∀ c, p' = some c → Both (x c) s (y c) s' Q E) :
    Both (K.deref p >>= x) s (Pandos.K.deref p' >>= y) s' Q E := by
  subst hp
  cases p with
  | none => exact hn
  | some c => exact hs c rfl

theorem both_current_bind {x : Pcb → K α} {y : Pcb → Pandos.K β}
    (hp : s.gCurrentProcess = s'.gCurrentProcess) (hn : E .fault .fault s s')
    (hs : ∀ c, s'.gCurrentProcess = some c → Both (x c) s (y c) s' Q E) :
    Both (K.current >>= x) s (Pandos.K.current >>= y) s' Q E :=
  both_deref_bind hp hn hs

end rules

/-- The same result, in twin states. -/
abbrev Twins (L : Layout) (V : Blur) (D : Sight) (A : Set Pcb) (x : K α) (s : Kernel) (y : Pandos.K α)
    (s' : Pandos.Kernel) : Prop :=
  Both x s y s' (fun a b t t' => a = b ∧ Twin L V D A t t') (Out V A)

/-! ## The scheduler and the clock -/

theorem scheduler_both {Q : Unit → Unit → Kernel → Pandos.Kernel → Prop} (h : Paired V A s s') :
    Both scheduler s Pandos.scheduler s' Q (Out V A) := by
  have he : s.emptyProcQ .gReadyQueue = s'.emptyProcQ .gReadyQueue := h.links.emptyProcQ (by simp)
  unfold scheduler Pandos.scheduler
  rw [both_get_bind]
  refine both_ite (by rw [he]) (fun _ => ?_) fun _ => ?_
  · rw [h.globals.gProcessCount, h.globals.gSoftBlockCount]
    refine both_ite Iff.rfl (fun _ => both_leave (h.out _)) fun _ => ?_
    refine both_ite Iff.rfl (fun _ => both_leave (h.out _)) fun _ => ?_
    exact both_ite Iff.rfl (fun _ => both_leave (h.out _)) fun _ => both_leave (h.out _)
  · obtain ⟨t, ht, hH⟩ := h.links.removeProcQ Links.gReadyQueue_mem_cells (by simp)
    refine both_fromLinks_bind ht ?_
    rw [both_globals_bind, both_stck_bind, both_globals_bind]
    have hnext : ∀ c, (s'.removeProcQ .gReadyQueue).1 = some c → c ∈ A := by
      intro c hc
      simp only [Tables.removeProcQ] at hc
      split at hc
      · cases hc
      · next hq =>
        cases hc
        have hmem : c ∈ s'.procQ .gReadyQueue := by simp [hq]
        exact h.links.not_free_of_mem hmem (by simp)
    have hg := h.globals
    have hP := (h.withLinks hH).withGlobals (g := { s.toGlobals with
        gCurrentProcess := (s'.removeProcQ .gReadyQueue).1
        stckReads := s.stckReads + 1
        gTod := s.stck s.stckReads }) (k := { s'.toGlobals with
        gCurrentProcess := (s'.removeProcQ .gReadyQueue).1
        stckReads := s'.stckReads + 1
        gTod := s'.stck s'.stckReads })
      { hg with
        gCurrentProcess := rfl
        stckReads := congrArg (· + 1) hg.stckReads
        gTod := by rw [hg.stckReads]; exact hg.stck _ } hnext
    exact both_deref_bind rfl (hP.out _) fun c _ => both_leave (hP.out _)

/-- The clock is read once more, by both. -/
theorem Twin.stck (h : Twin L V D A s s') : V.rel (s.stck s.stckReads) (s'.stck s'.stckReads) ∧
    Twin L V D A { s with stckReads := s.stckReads + 1 } { s' with stckReads := s'.stckReads + 1 } := by
  refine ⟨h.agree.stckReads ▸ h.agree.stck _, h.withGlobals ?_ rfl⟩
  exact { h.agree with stckReads := congrArg (· + 1) h.agree.stckReads }

/-- `STCK(g_tod)`. -/
theorem restart_both (h : Twin L V D A s s') : Twins L V D A (do
    let tod ← K.stck
    K.globals ({ · with gTod := tod })) s (do
    let tod ← Pandos.K.stck
    Pandos.K.globals ({ · with gTod := tod })) s' := by
  obtain ⟨hv, ht⟩ := h.stck
  exact ⟨rfl, ht.withGlobals { ht.agree with gTod := hv } rfl⟩

theorem getPassedTime_both (h : Twin L V D A s s') : Both getPassedTime s Pandos.getPassedTime s'
    (fun v w t t' => V.rel v w ∧ Twin L V D A t t') (Out V A) := by
  obtain ⟨hv, ht⟩ := h.stck
  exact ⟨V.sub hv h.agree.gTod, ht⟩

theorem updateProcessTime_both (h : Twin L V D A s s') :
    Twins L V D A updateProcessTime s Pandos.updateProcessTime s' := by
  unfold updateProcessTime Pandos.updateProcessTime
  refine both_get_bind.mpr ?_
  rw [h.globals.gCurrentProcess]
  cases s'.gCurrentProcess with
  | none => exact restart_both h
  | some c =>
    refine (getPassedTime_both h).bind fun v w t t' ⟨hv, ht⟩ => both_modPcb_bind.mpr ?_
    have hc := ht.modPcb (p := c) (f := fun r => { r with pTime := r.pTime + v })
      (g := fun r => { r with pTime := r.pTime + w })
      { ht.pcbs c with pTime := V.add (ht.pcbs c).pTime hv } rfl rfl rfl
    exact restart_both hc

/-! ## Semaphores -/

/-- The interrupted state is saved in both. -/
theorem Twin.save (h : Twin L V D A s s') (c : Pcb) :
    Twin L V D A { s with toLinks := s.toLinks.modPcb c ({ · with pS := s.gOldState }) }
      { s' with toTables := s'.toTables.modPcb c ({ · with pS := s'.gOldState }) } :=
  h.modPcb (f := ({ · with pS := s.gOldState })) { h.pcbs c with pS := h.globals.gOldState } rfl rfl rfl

theorem blockCurrent_both {Q : Unit → Unit → Kernel → Pandos.Kernel → Prop} (h : Twin L V D A s s')
    (a : Word) : Both (blockCurrent a) s (Pandos.blockCurrent a) s' Q (Out V A) := by
  unfold blockCurrent Pandos.blockCurrent
  refine both_current_bind h.globals.gCurrentProcess (h.out _) fun c hc => ?_
  refine both_get_bind.mpr (both_modPcb_bind.mpr ?_)
  refine (updateProcessTime_both (h.save c)).bind fun _ _ t t' ⟨_, ht⟩ => ?_
  obtain ⟨u, hu, hH⟩ := ht.links.insertBlocked (a := a) (h.current c hc)
  refine both_fromLinks_bind hu (both_globals_bind.mpr ?_)
  exact scheduler_both ((ht.toPaired.withLinks hH).withGlobals
    { ht.globals with gCurrentProcess := rfl } (by simp))

theorem load_both (h : Twin L V D A s s') {a : Word} (ha : a ∈ D.words ∨ L.kernelWord a ≠ none) :
    Both (K.load L a) s (Pandos.K.load L a) s' (fun v w t t' => v = w ∧ t = s ∧ t' = s') (Out V A) := by
  unfold K.load Pandos.K.load
  refine both_ite Iff.rfl (fun _ => both_leave (h.out _)) fun _ => ?_
  exact ⟨h.agree.load ha, rfl, rfl⟩

/-- Somebody is taken off a semaphore, and is known to have been allocated. -/
theorem Twin.removeBlocked (h : Twin L V D A s s') (a : Word) :
    ∃ t, s.toLinks.removeBlocked a = some ((s'.removeBlocked a).1, t) ∧
      Twin L V D A { s with toLinks := t } { s' with toTables := (s'.removeBlocked a).2 } ∧
      ∀ p ∈ (s'.removeBlocked a).1, p ∈ A := by
  obtain ⟨t, ht, hH⟩ := h.links.removeBlocked (a := a)
  exact ⟨t, ht, h.withLinks hH (h.buffered.removeBlocked a), fun _ => h.links.removeBlocked_used⟩

theorem Twin.insertReady (h : Twin L V D A s s') {p : Pcb} (hp : p ∈ A) :
    ∃ t, s.toLinks.insertProcQ .gReadyQueue p = some t ∧ Twin L V D A { s with toLinks := t }
      { s' with toTables := s'.toTables.insertProcQ .gReadyQueue p } := by
  obtain ⟨t, ht, hH⟩ := h.links.insertProcQ hp Links.gReadyQueue_mem_cells (by simp)
  exact ⟨t, ht, h.withLinks hH (h.buffered.insertReady p)⟩

theorem Twin.change (h : Twin L V D A s s') {a : Word} (ha : a ∈ D.words ∨ L.kernelWord a ≠ none) (step : Word) :
    Twin L V D A { s with toGlobals := s.toGlobals.store L a (s.toGlobals.load L a + step) }
      { s' with toGlobals := s'.toGlobals.store L a (s'.toGlobals.load L a + step) } := by
  refine h.withGlobals ?_ (by rw [Globals.store_eq])
  rw [h.agree.load ha]
  exact h.agree.store

/-- Who is not blocked stays the current process. -/
theorem semOp_returns (h : Twin L V D A s s') {free step a : Word}
    (ha : a ∈ D.words ∨ L.kernelWord a ≠ none) :
    Both (semOp L free step a) s (Pandos.semOp L free step a) s'
      (fun _ _ t t' => Twin L V D A t t' ∧ t'.gCurrentProcess = s'.gCurrentProcess) (Out V A) := by
  unfold semOp Pandos.semOp
  refine (load_both h ha).bind fun v w t t' ⟨hv, ht, ht'⟩ => ?_
  subst hv ht ht'
  refine both_ite Iff.rfl (fun _ => ?_) fun _ => blockCurrent_both h a
  obtain ⟨u, hu, hT, hused⟩ := h.removeBlocked a
  refine both_fromLinks_bind hu ?_
  cases hr : (t'.removeBlocked a).1 with
  | some p =>
    obtain ⟨w, hw, hW⟩ := hT.insertReady (hused p hr)
    exact both_links hw ⟨hW, rfl⟩
  | none => exact ⟨hT.change ha step, Globals.store_gCurrentProcess⟩

theorem semOp_both (h : Twin L V D A s s') {free step a : Word} (ha : a ∈ D.words ∨ L.kernelWord a ≠ none) :
    Twins L V D A (semOp L free step a) s (Pandos.semOp L free step a) s' :=
  (semOp_returns h ha).mono (fun _ _ _ _ h => ⟨rfl, h.1⟩) fun _ _ _ _ h => h

/-! ## Devices -/

theorem kernelWord_ne (L : Layout) (w : KernelWord) : L.kernelWord (L.addr w) ≠ none := by
  rw [L.kernelWord_addr]
  exact Option.some_ne_none w

theorem beginIo_both (h : Twin L V D A s s') (d : Dev) {p : Pcb} (hp : p ∈ D.asking) :
    Twins L V D A (beginIo L d p) s (Pandos.beginIo L d p) s' := by
  unfold beginIo Pandos.beginIo
  refine both_globals_bind.mpr (both_get_bind.mpr (both_globals_bind.mpr (both_globals_bind.mpr ?_)))
  have hr := h.pcbs p
  have hg := (h.agree.modDev d ({ · with waitingProcess := some p })).submit (a := (s'.pcbs p).cmdAddr)
    fun i hi => h.buffered.shown p hp ⟨i, hi, rfl⟩
  refine semOp_both (h.withGlobals ?_ ?_) (.inr (kernelWord_ne L _))
  · rw [hr.cmdAddr, hr.cmdValues]
    exact { hg with gSoftBlockCount := congrArg (· + 1) hg.gSoftBlockCount }
  · rw [Globals.submit_eq]
    rfl

theorem endIo_both (h : Twin L V D A s s') (d : Dev) : Twins L V D A (endIo d) s (Pandos.endIo d) s' := by
  unfold endIo Pandos.endIo
  refine both_get_bind.mpr (both_deref_bind (congrArg (fun r => (r d).waitingProcess)
    h.globals.gSysiostates) (h.out _) fun p _ => ?_)
  refine both_get_bind.mpr (both_globals_bind.mpr (both_globals.mpr ⟨rfl, h.withGlobals ?_ ?_⟩))
  · have hg := h.agree.collect (a := (s'.pcbs p).cmdAddr) (v := (s'.pcbs p).cmdValues)
      (n := getNumRegister (s'.pcbs p).cmdAddr)
    rw [(h.pcbs p).cmdAddr, (h.pcbs p).cmdValues]
    exact { hg with gSoftBlockCount := congrArg (· - 1) hg.gSoftBlockCount }
  · rw [Globals.collect_eq]

theorem ackDevice_both (h : Twin L V D A s s') (a : Word) :
    Twins L V D A (ackDevice a) s (Pandos.ackDevice a) s' := by
  unfold ackDevice Pandos.ackDevice
  exact both_ite Iff.rfl (fun _ => ⟨rfl, h.withGlobals h.agree.writeAck rfl⟩) fun _ => ⟨rfl, h⟩

theorem setReturnValue_both (h : Twin L V D A s s') (d : Dev) (a : Word) :
    Twins L V D A (setReturnValue d a) s (Pandos.setReturnValue d a) s' := by
  unfold setReturnValue Pandos.setReturnValue
  refine both_get_bind.mpr (both_deref_bind (congrArg (fun r => (r d).waitingProcess)
    h.globals.gSysiostates) (h.out _) fun p _ => ?_)
  rw [h.globals.bus]
  exact ⟨rfl, h.modPcb { h.pcbs p with pS := (h.pcbs p).pS.set (V.refl _) } rfl rfl rfl⟩

theorem passDevice_both (h : Twin L V D A s s') (d : Dev) :
    Twins L V D A (passDevice L d) s (Pandos.passDevice L d) s' := by
  unfold passDevice Pandos.passDevice
  obtain ⟨u, hu, hT, -⟩ := h.removeBlocked (L.addr (.semMut d))
  refine both_fromLinks_bind hu ?_
  cases hr : (s'.removeBlocked (L.addr (.semMut d))).1 with
  | some p => exact beginIo_both hT d (h.buffered.next hr)
  | none => exact ⟨rfl, hT.withGlobals (h.agree.modDev d _) rfl⟩

theorem serveDevice_both (h : Twin L V D A s s') (d : Dev) (a : Word) :
    Twins L V D A (serveDevice L d a) s (Pandos.serveDevice L d a) s' := by
  have rest : ∀ {t t'}, Twin L V D A t t' → Twins L V D A (do
      ackDevice a
      sysVerhogen L (L.addr (.semSync d))
      passDevice L d) t (do
      Pandos.ackDevice a
      Pandos.sysVerhogen L (L.addr (.semSync d))
      Pandos.passDevice L d) t' := fun h =>
    (ackDevice_both h a).bind fun _ _ _ _ ⟨_, h⟩ =>
    (semOp_both h (.inr (kernelWord_ne L _))).bind fun _ _ _ _ ⟨_, h⟩ => passDevice_both h d
  unfold serveDevice Pandos.serveDevice
  refine both_get_bind.mpr (both_ite ?_ (fun _ => ?_) fun _ => rest h)
  · rw [h.globals.gSysiostates]
  · exact (endIo_both h d).bind fun _ _ _ _ ⟨_, h⟩ =>
      (setReturnValue_both h d a).bind fun _ _ _ _ ⟨_, h⟩ => rest h

theorem device_both (h : Paired V A s s') (n : Int) : Both (K.device n) s (Pandos.K.device n) s'
    (fun d d' t t' => d = d' ∧ t = s ∧ t' = s') (Out V A) := by
  unfold K.device Pandos.K.device
  split
  · exact ⟨rfl, rfl, rfl⟩
  · exact both_leave (h.out _)

theorem handleDeviceInt_both (h : Twin L V D A s s') (n : Nat) :
    Twins L V D A (handleDeviceInt L n) s (Pandos.handleDeviceInt L n) s' := by
  unfold handleDeviceInt Pandos.handleDeviceInt
  refine both_get_bind.mpr ?_
  rw [h.globals.bus]
  refine both_ite Iff.rfl (fun _ => ⟨rfl, h⟩) fun _ => ?_
  refine (device_both h.toPaired _).bind fun d d' t t' ⟨hd, ht, ht'⟩ => ?_
  subst hd ht ht'
  exact serveDevice_both h d _

/-! ## Termination -/

/-- Both end, or both nest too deep. -/
inductive Ended {σ σ' : Type} (P : σ → σ' → Prop) : Except Exit σ → Option σ' → Prop
  | done {t : σ} {t' : σ'} : P t t' → Ended P (.ok t) (some t')
  | hang : Ended P (.error .hang) none

theorem Ended.bind {σ σ' τ τ' : Type} {P : σ → σ' → Prop} {R : τ → τ' → Prop} {x : Except Exit σ}
    {y : Option σ'} {f : σ → Except Exit τ} {g : σ' → Option τ'} (h : Ended P x y)
    (hf : ∀ t t', P t t' → Ended R (f t) (g t')) : Ended R (x >>= f) (y.bind g) := by
  cases h with
  | done h => exact hf _ _ h
  | hang => exact .hang

theorem Ended.cases {σ σ' : Type} {P : σ → σ' → Prop} {x : Except Exit σ} {y : Option σ'}
    (h : Ended P x y) : (∃ t t', x = .ok t ∧ y = some t' ∧ P t t') ∨ x = .error .hang ∧ y = none := by
  cases h with
  | done h => exact .inl ⟨_, _, rfl, rfl, h⟩
  | hang => exact .inr ⟨rfl, rfl⟩

theorem Ended.mono {σ σ' : Type} {P R : σ → σ' → Prop} {x : Except Exit σ} {y : Option σ'}
    (h : Ended P x y) (hR : ∀ t t', P t t' → R t t') : Ended R x y := by
  cases h with
  | done h => exact .done (hR _ _ h)
  | hang => exact .hang

theorem Ended.foldlM {σ σ' γ : Type} {P : σ → σ' → Prop} {f : σ → γ → Except Exit σ}
    {g : σ' → γ → Option σ'} {l : List γ} {t : σ} {t' : σ'}
    (step : ∀ c ∈ l, ∀ t t', P t t' → Ended P (f t c) (g t' c)) (h : P t t') :
    Ended P (l.foldlM f t) (l.foldlM g t') := by
  induction l generalizing t t' with
  | nil => exact .done h
  | cons c l ih =>
    rw [List.foldlM_cons, List.foldlM_cons]
    exact (step c (by simp) t t' h).bind fun u u' hu => ih (fun d hd => step d (by simp [hd])) hu

/-- Nobody has `p` as a child. -/
def Orphan (s : Pandos.Kernel) (p : Pcb) : Prop := ∀ q, p ∉ s.pChild q

/-- Nobody gets a child. -/
def Fewer (s t : Pandos.Kernel) : Prop := ∀ q c, c ∈ t.pChild q → c ∈ s.pChild q

theorem Orphan.fewer {t : Pandos.Kernel} {p : Pcb} (h : Orphan s' p) (hf : Fewer s' t) : Orphan t p :=
  fun q hq => h q (hf q p hq)

theorem Fewer.trans {s t u : Pandos.Kernel} (h : Fewer s t) (k : Fewer t u) : Fewer s u :=
  fun q c hc => h q c (k q c hc)

theorem pChild_outBlocked (T : Tables) (p : Pcb) : (T.outBlocked p).2.pChild = T.pChild := by
  unfold Tables.outBlocked
  split
  · rfl
  · split
    · unfold Tables.freeSemdIfempty
      split <;> rfl
    · rfl

theorem unblock_paired (h : Paired V A s s') (p : Pcb) : ∃ t, s.unblock L p = some t ∧
    Paired V A t (s'.unblock L p) ∧ Fewer s' (s'.unblock L p) := by
  obtain ⟨u, hu, hH⟩ := h.links.outBlocked (p := p)
  have hsem := (h.pcbs p).pSemAdd
  have hout := h.withLinks hH
  have hfewer : ∀ {t : Pandos.Kernel}, t.pChild = (s'.outBlocked p).2.pChild → Fewer s' t := by
    intro t ht q c hc
    rwa [ht, pChild_outBlocked] at hc
  simp only [Kernel.unblock, Pandos.Kernel.unblock, hsem]
  split
  · rw [hu, Option.map_some]
    refine ⟨_, rfl, ?_⟩
    generalize s'.outBlocked p = r at hout hfewer ⊢
    obtain ⟨_ | q, T⟩ := r
    · exact ⟨hout, hfewer rfl⟩
    · dsimp only
      split
      · have hw : s.toGlobals.waitsOn (resolveSemAddr L (s'.pcbs p).pSemAdd) p =
            s'.toGlobals.waitsOn (resolveSemAddr L (s'.pcbs p).pSemAdd) p := by
          simp only [Globals.waitsOn, h.globals.gSysiostates]
        rw [hw]
        cases s'.toGlobals.waitsOn (resolveSemAddr L (s'.pcbs p).pSemAdd) p with
        | none => exact ⟨hout, hfewer rfl⟩
        | some d =>
          have hg := h.globals
          refine ⟨hout.withGlobals ?_ h.current, hfewer rfl⟩
          exact { hg with
            gSoftBlockCount := congrArg (· - 1) hg.gSoftBlockCount
            gSysiostates := by simp only [Globals.modDev, hg.gSysiostates] }
      · exact ⟨hout, hfewer rfl⟩
  · exact ⟨s, rfl, h, fun _ _ hc => hc⟩

theorem discard_paired (h : Paired V A s s') {p : Pcb} (hp : p ∈ A) (hc : s'.pChild p = [])
    (ho : Orphan s' p) : ∃ t, s.discard p = some t ∧ Paired V A t (s'.discard p) := by
  obtain ⟨u, hu, hH⟩ := h.links.freePcb hp hc ho
  refine ⟨_, by rw [Kernel.discard, hu]; rfl, (h.withLinks hH).withGlobals ?_ h.current⟩
  exact { h.globals with gProcessCount := congrArg (· - 1) h.globals.gProcessCount }

mutual

theorem terminateProcess_ended (fuel : Nat) {s : Kernel} {s' : Pandos.Kernel} {p : Pcb}
    (h : Paired V A s s') (hp : p ∈ A) (ho : Orphan s' p) :
    Ended (fun t t' => Paired V A t t' ∧ Fewer s' t') (terminateProcess L fuel s p)
      (Pandos.terminateProcess L fuel s' p) := by
  cases fuel with
  | zero => exact .hang
  | succ fuel =>
    obtain ⟨t, ht, hP, hf⟩ := unblock_paired (L := L) h p
    rw [terminateProcess, Pandos.terminateProcess, ht, Option.map_eq_bind]
    refine (terminateChildren_ended fuel hP hp (ho.fewer hf)).bind fun u u' ⟨hu, hnone, hfu⟩ => ?_
    obtain ⟨w, hw, hPw⟩ := discard_paired hu hp hnone ((ho.fewer hf).fewer hfu)
    rw [hw]
    refine .done ⟨hPw, (hf.trans hfu).trans fun q c hc => ?_⟩
    have : (u'.discard p).pChild = u'.pChild := by
      simp only [Pandos.Kernel.discard, Tables.freePcb_eq]
    rwa [this] at hc

theorem terminateChildren_ended (fuel : Nat) {s : Kernel} {s' : Pandos.Kernel} {p : Pcb}
    (h : Paired V A s s') (hp : p ∈ A) (ho : Orphan s' p) :
    Ended (fun t t' => Paired V A t t' ∧ t'.pChild p = [] ∧ Fewer s' t') (terminateChildren L fuel s p)
      (Pandos.terminateChildren L fuel s' p) := by
  cases fuel with
  | zero => exact .hang
  | succ fuel =>
    obtain ⟨u, hu, hH⟩ := h.links.removeChild hp
    rw [terminateChildren, Pandos.terminateChildren, hu]
    cases hc : s'.pChild p with
    | nil =>
      have hr : s'.removeChild p = (none, s'.toTables) := by simp only [Tables.removeChild, hc]
      simp only [hr] at hH ⊢
      exact .done ⟨h.withLinks hH, hc, fun _ _ hc => hc⟩
    | cons c l =>
      have hr : s'.removeChild p = (some c, { s'.toTables with pChild := s'.pChild.unlink c }) := by
        simp only [Tables.removeChild, hc]
      have hcA : c ∈ A := h.links.used c fun hf => (h.links.detached c hf).2 p (by simp [hc])
      simp only [hr] at hH ⊢
      have hless : Fewer s' { s' with pChild := s'.pChild.unlink c } :=
        fun q d hd => (Lists.mem_unlink.mp hd).1
      have horphan : Orphan { s' with pChild := s'.pChild.unlink c } c :=
        fun q hq => (Lists.mem_unlink.mp hq).2 rfl
      refine (terminateProcess_ended fuel (h.withLinks hH) hcA horphan).bind fun t t' ⟨hP, hf⟩ => ?_
      refine (terminateChildren_ended fuel hP hp ((ho.fewer hless).fewer hf)).mono
        fun v v' ⟨hv, hn, hfv⟩ => ⟨hv, hn, (hless.trans hf).trans hfv⟩

end

theorem sysTerminateProcess_some {Q : Unit → Unit → Kernel → Pandos.Kernel → Prop} (h : Paired V A s s')
    {p : Pcb} (hp : p ∈ A) :
    Both (sysTerminateProcess L (some p)) s (Pandos.sysTerminateProcess L (some p)) s' Q (Out V A) := by
  obtain ⟨u, hu, hH⟩ := h.links.outChild hp
  have hP := h.withLinks hH
  unfold sysTerminateProcess Pandos.sysTerminateProcess
  refine both_pure_bind.mpr (both_fromLinks_bind hu (both_get_bind.mpr ?_))
  have hend := terminateProcess_ended (L := L) terminateFuel hP hp h.links.outChild_orphan
  generalize terminateProcess L terminateFuel _ p = x at hend ⊢
  generalize Pandos.terminateProcess L terminateFuel _ p = y at hend ⊢
  cases hend with
  | done hd => exact scheduler_both hd.1
  | hang => exact hP.out .hang

theorem sysTerminateProcess_both {Q : Unit → Unit → Kernel → Pandos.Kernel → Prop} (h : Paired V A s s')
    {pid : Option Pcb} (hp : ∀ p, pid.or s'.gCurrentProcess = some p → p ∈ A) :
    Both (sysTerminateProcess L pid) s (Pandos.sysTerminateProcess L pid) s' Q (Out V A) := by
  cases pid with
  | some p => exact sysTerminateProcess_some h (hp p rfl)
  | none =>
    exact both_current_bind h.globals.gCurrentProcess (h.out _) fun c hc => sysTerminateProcess_some h (hp c hc)

end Pandos.Linked
