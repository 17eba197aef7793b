import Pandos.Writes

/-!
# What each function writes

One lemma for each function of phase 2: it stays within the range of the
exception, or leaves the kernel within it.
-/

namespace Pandos
open Intrusive Outcome Linked

variable {L : Layout} {R : Range} {s : Kernel} {α : Type}

/-! ## Phase 1 -/

section tables
variable {T : Tables}

/-- Nothing but `p_semAdd` changes in the records. -/
def Tables.Relinks (T T' : Tables) : Prop := ∀ q, ∃ a, T'.pcbs q = { T.pcbs q with pSemAdd := a }

theorem Tables.Relinks.of_eq {T' : Tables} (h : T'.pcbs = T.pcbs) : T.Relinks T' := fun q =>
  ⟨(T.pcbs q).pSemAdd, by rw [h]⟩

theorem Tables.Relinks.setSemAdd {T' : Tables} {p : Pcb} {a : Word}
    (h : T'.pcbs = Function.update T.pcbs p { T.pcbs p with pSemAdd := a }) : T.Relinks T' := fun q => by
  rw [h]
  by_cases hq : q = p
  · subst hq
    exact ⟨a, by simp⟩
  · exact ⟨(T.pcbs q).pSemAdd, by simp [hq]⟩

theorem relinks_removeBlocked (a : Word) : T.Relinks (T.removeBlocked a).2 := by
  unfold Tables.removeBlocked
  split
  · exact .of_eq rfl
  · next i _ =>
    split
    · exact .of_eq rfl
    · next p l _ => exact .setSemAdd (T.unqueue_fields i p).2.2.1

theorem pcbs_semFor (a : Word) : (T.semFor a).2.pcbs = T.pcbs := by
  unfold Tables.semFor Tables.allocSemd
  split
  · rfl
  · cases T.semdFreeH <;> rfl

theorem relinks_insertBlocked (a : Word) (p : Pcb) : T.Relinks (T.insertBlocked a p).2 := by
  have hpcbs := pcbs_semFor (T := T) a
  unfold Tables.insertBlocked
  generalize T.semFor a = r at hpcbs ⊢
  obtain ⟨_ | i, T'⟩ := r
  · exact .of_eq hpcbs
  · refine .setSemAdd (p := p) (a := a) ?_
    show Function.update T'.pcbs p { T'.pcbs p with pSemAdd := a } = _
    rw [show T'.pcbs = T.pcbs from hpcbs]

theorem relinks_outBlocked (p : Pcb) : T.Relinks (T.outBlocked p).2 := by
  unfold Tables.outBlocked Tables.freeSemdIfempty
  split
  · exact .of_eq rfl
  · split
    · split <;> exact .setSemAdd rfl
    · exact .of_eq rfl

theorem relinks_removeProcQ (head : ProcQ) : T.Relinks (T.removeProcQ head).2 := by
  unfold Tables.removeProcQ
  split <;> exact .of_eq rfl

theorem relinks_outChild (p : Pcb) : T.Relinks (T.outChild p).2 := by
  unfold Tables.outChild
  split
  · exact .of_eq rfl
  · split <;> exact .of_eq rfl

theorem relinks_removeChild (p : Pcb) : T.Relinks (T.removeChild p).2 := by
  unfold Tables.removeChild
  split <;> exact .of_eq rfl

theorem relinks_freePcb (p : Pcb) : T.Relinks (T.freePcb p) := by
  unfold Tables.freePcb
  split <;> exact .of_eq rfl

end tables

/-! ## The scheduler, the clock and the semaphores -/

theorem Stored.relink (h : Stored R s) {T : Tables} (hT : s.toTables.Relinks T) :
    Stored R { s with toTables := T } := by
  intro c hc
  obtain ⟨a, ha⟩ := hT c
  show R.old.Kept {1} (T.pcbs c).pS
  rw [ha]
  exact h c hc

/-- Nobody comes to be ready or blocked. -/
structure Tables.Drops (T T' : Tables) : Prop where
  ready : ∀ p ∈ T'.ready, p ∈ T.ready
  semAdd : ∀ p, (T.pcbs p).pSemAdd = 0 → (T'.pcbs p).pSemAdd = 0

theorem Tables.Drops.trans {T T' U : Tables} (h : T.Drops T') (k : T'.Drops U) : T.Drops U :=
  ⟨fun p hp => h.ready p (k.ready p hp), fun p hp => k.semAdd p (h.semAdd p hp)⟩

theorem Tables.Drops.of_ready {T T' : Tables} (hp : T'.pcbs = T.pcbs) (hr : ∀ p ∈ T'.ready, p ∈ T.ready) :
    T.Drops T' :=
  ⟨hr, fun p h => by rwa [hp]⟩

theorem Adrift.drops (h : Adrift R s) {t : Kernel} (ht : s.toTables.Drops t.toTables) : Adrift R t := fun c hc =>
  ⟨fun hm => (h c hc).1 (ht.ready c hm), ht.semAdd c (h c hc).2⟩

theorem drops_removeReady (T : Tables) : T.Drops (T.removeProcQ .gReadyQueue).2 := by
  unfold Tables.removeProcQ
  split
  · exact .of_ready rfl fun _ h => h
  · exact .of_ready rfl fun _ h => (Lists.mem_unlink.mp h).1

theorem scheduler_quits (h : Stored R s ∨ Adrift R s) : Quits R scheduler s := by
  unfold scheduler
  show Quits R (if _ then _ else _) s
  split
  · split
    · exact quits_leave (.inr h)
    · split
      · exact quits_leave (.inr h)
      · split <;> exact quits_leave (.inr h)
  · refine quits_fromTables_bind (.links (relinks_removeProcQ .gReadyQueue)) ?_
    have h' := h.imp (fun h => h.relink (relinks_removeProcQ .gReadyQueue)) fun h =>
      h.drops (t := { s with toTables := (s.removeProcQ .gReadyQueue).2 }) (drops_removeReady _)
    refine quits_globals_bind (.other rfl) ?_
    refine quits_stck_bind (quits_globals_bind (.other rfl) ?_)
    cases (s.removeProcQ .gReadyQueue).1 with
    | none => exact quits_leave (.inr h')
    | some p => exact quits_leave (.inr h')

/-- The time is charged, and nothing else. -/
theorem updateProcessTime_run (h : Inside L R s) : ∃ t, updateProcessTime s = .ok () t ∧ Writes R s t ∧
    Inside L R t ∧ ∀ q, (t.pcbs q).pS = (s.pcbs q).pS := by
  cases hc : R.caller with
  | none =>
    have hrun : updateProcessTime s =
        .ok () { s with stckReads := s.stckReads + 1, gTod := s.stck s.stckReads } := by
      unfold updateProcessTime
      refine (bind_of_ok rfl).trans ?_
      conv_lhs => rw [h.caller, hc]
      rfl
    exact ⟨_, hrun, .single (.other rfl), ⟨h.caller, h.old, h.waiting, h.buffered⟩, fun _ => rfl⟩
  | some c =>
    let v := s.stck s.stckReads - s.gTod
    let t : Kernel := { s with toTables := s.modPcb c fun r => { r with pTime := r.pTime + v } }
    have hrun : updateProcessTime s =
        .ok () { t with stckReads := s.stckReads + 2, gTod := s.stck (s.stckReads + 1) } := by
      unfold updateProcessTime
      refine (bind_of_ok rfl).trans ?_
      conv_lhs => rw [h.caller, hc]
      rfl
    have hw : Write R s t := .caller hc fun _ => rfl
    have ht : Inside L R t := h.modPcb fun _ => ⟨rfl, rfl⟩
    refine ⟨_, hrun, .tail (.single hw) (.other rfl), ⟨ht.caller, ht.old, ht.waiting, ht.buffered⟩, ?_⟩
    exact fun q => modPcb_field PcbT.pS (f := fun r => { r with pTime := r.pTime + v })
      (fun _ => rfl) q

theorem updateProcessTime_stays (h : Inside L R s) : Stays L R updateProcessTime s := by
  obtain ⟨t, ht, hw, hi, -⟩ := updateProcessTime_run h
  exact (ends_of_ok ht).mpr ⟨hw, hi⟩

/-- The context is saved before the process waits. -/
theorem blockCurrent_quits (h : Inside L R s) (a : Word) : Quits R (blockCurrent a) s := by
  unfold blockCurrent
  refine quits_current_bind h fun c hc => quits_get_bind (quits_tables_bind (.caller hc fun _ => rfl) ?_)
  have hi : Inside L R { s with toTables := s.modPcb c ({ · with pS := s.gOldState }) } :=
    h.modPcb fun _ => ⟨rfl, rfl⟩
  obtain ⟨t, ht, hw, -, hp⟩ := updateProcessTime_run hi
  have hstored : Stored R t := by
    intro d hd
    obtain rfl : c = d := Option.some.inj (hc.symm.trans hd)
    rw [hp]
    simpa [Tables.modPcb] using h.old
  refine quits_of_ok_bind ht hw (quits_fromTables_bind (.links (relinks_insertBlocked a c)) ?_)
  refine quits_globals_bind (.other rfl) (scheduler_quits (.inl ?_))
  exact hstored.relink (relinks_insertBlocked a c)

theorem mem_store {g : Globals} {a b v : Word} (h : b ≠ a) : (g.store L a v).mem b = g.mem b := by
  unfold Globals.store
  split
  · next w _ => cases w <;> rfl
  · simp [Globals.writeMem, h]

theorem mem_store_kernel {g : Globals} {a v : Word} (h : L.kernelWord a ≠ none) :
    (g.store L a v).mem = g.mem := by
  unfold Globals.store
  split
  · next w _ => cases w <;> rfl
  · next hn => exact absurd hn h

theorem waitingProcess_store (g : Globals) (a v : Word) (d : Dev) :
    ((g.store L a v).gSysiostates d).waitingProcess = (g.gSysiostates d).waitingProcess := by
  unfold Globals.store
  split
  · next w _ =>
    cases w with
    | clock => rfl
    | semMut e | semSync e =>
      by_cases hd : d = e
      · subst hd
        simp [Globals.setWord, Globals.modDev]
      · simp [Globals.setWord, Globals.modDev, hd]
  · rfl

theorem load_stays (h : Inside L R s) (a : Word) : Stays L R (K.load L a) s := by
  unfold K.load
  refine stays_ite (fun _ => stays_leave h) fun _ => ?_
  exact stays_get_bind (stays_pure h)

theorem semOp_stays (h : Inside L R s) (free step : Word) {a : Word}
    (ha : a ∈ R.words ∨ L.kernelWord a ≠ none) : Stays L R (semOp L free step a) s := by
  unfold semOp
  refine (load_stays h a).bind fun v t h => stays_ite (fun _ => ?_) fun _ => (blockCurrent_quits h a).stays
  refine Stays.bind (stays_fromTables (.links (relinks_removeBlocked a))
    (h.withTables fun _ hb => hb.removeBlocked a)) fun removed t h => ?_
  cases removed with
  | some p =>
    exact stays_tables (.links (Tables.Relinks.of_eq rfl)) (h.withTables fun _ hb => hb.insertReady p)
  | none =>
    refine stays_globals (.globals fun b hb => ?_)
      (h.withGlobals Globals.store_gCurrentProcess Globals.store_gOldState (waitingProcess_store _ _ _))
    rcases ha with ha | ha
    · exact mem_store fun e => hb (e ▸ ha)
    · rw [mem_store_kernel ha]

/-! ## Devices -/

theorem kernelWord_addr_ne (L : Layout) (w : KernelWord) : L.kernelWord (L.addr w) ≠ none := by
  rw [L.kernelWord_addr]
  exact Option.some_ne_none w

/-- A kernel whose device `d` has got another waiting process. -/
theorem Inside.modDev (h : Inside L R s) {d : Dev} {f : SysiostateT → SysiostateT}
    (hf : R.interrupt → ∀ p, (f (s.gSysiostates d)).waitingProcess = some p → p ∈ R.asked) :
    Inside L R { s with toGlobals := s.modDev d f } := by
  refine ⟨h.caller, h.old, fun hi e p hp => ?_, h.buffered⟩
  by_cases he : e = d
  · subst he
    exact hf hi p (by simpa [Globals.modDev] using hp)
  · exact h.waiting hi e p (by simpa [Globals.modDev, he] using hp)

theorem beginIo_stays (h : Inside L R s) (d : Dev) {p : Pcb} (hp : R.interrupt → p ∈ R.asked) :
    Stays L R (beginIo L d p) s := by
  unfold beginIo
  refine Stays.bind (stays_globals (.other rfl) (h.modDev fun hi q hq => ?_)) fun _ t h => ?_
  · cases hq
    exact hp hi
  · refine stays_get_bind (Stays.bind (stays_globals (.other ?_) (h.withGlobals ?_ ?_ fun e => ?_))
      fun _ t h => Stays.bind (stays_globals (.other rfl) (h.withGlobals rfl rfl fun _ => rfl))
        fun _ t h => semOp_stays h _ _ (.inr (kernelWord_addr_ne L _)))
    all_goals rw [Globals.submit_eq]

theorem mem_collect {g : Globals} {a v b : Word} (h : b ∉ request a v) :
    (g.collect a v (getNumRegister a)).mem b = g.mem b := by
  have h : ∀ i ∈ List.range (getNumRegister a).toNat, b ≠ wordAt v i := fun i hi e =>
    h ⟨i, List.mem_range.mp hi, e⟩
  unfold Globals.collect
  generalize List.range (getNumRegister a).toNat = l at h
  induction l generalizing g with
  | nil => rfl
  | cons i l ih =>
    rw [List.foldl_cons, ih fun j hj => h j (by simp [hj])]
    simp [Globals.writeMem, h i (by simp)]

theorem endIo_stays (h : Inside L R s) (hi : R.interrupt) (d : Dev) : Stays L R (endIo d) s := by
  unfold endIo
  refine stays_get_bind (stays_deref_bind h fun p hp => stays_get_bind ?_)
  refine Stays.bind (stays_globals (.globals fun b hb => ?_) (h.withGlobals ?_ ?_ fun e => ?_))
    fun _ t h => stays_globals (.other rfl) (h.withGlobals rfl rfl fun _ => rfl)
  · exact mem_collect fun hm => hb ((h.buffered hi).shown p (h.waiting hi d p hp) hm)
  all_goals rw [Globals.collect_eq]

theorem ackDevice_stays (h : Inside L R s) (a : Word) : Stays L R (ackDevice a) s := by
  unfold ackDevice
  exact stays_ite (fun _ => stays_globals (.other rfl) (h.withGlobals rfl rfl fun _ => rfl)) fun _ => stays_pure h

theorem setReturnValue_stays (h : Inside L R s) (hi : R.interrupt) (d : Dev) (a : Word) :
    Stays L R (setReturnValue d a) s := by
  unfold setReturnValue
  refine stays_get_bind (stays_deref_bind h fun p hp => ?_)
  refine stays_tables (.answer (h.waiting hi d p hp)) ?_
  exact h.modPcb fun _ => ⟨rfl, rfl⟩

theorem passDevice_stays (h : Inside L R s) (d : Dev) : Stays L R (passDevice L d) s := by
  have hnext : R.interrupt → ∀ p ∈ (s.removeBlocked (L.addr (.semMut d))).1, p ∈ R.asked :=
    fun hi p hp => (h.buffered hi).next hp
  unfold passDevice
  refine stays_fromTables_bind (.links (relinks_removeBlocked _))
    (h.withTables fun _ hb => hb.removeBlocked _) fun h => ?_
  cases hr : (s.removeBlocked (L.addr (.semMut d))).1 with
  | some p => exact beginIo_stays h d fun hi => hnext hi p hr
  | none => exact stays_globals (.other rfl) (h.modDev fun _ _ hn => by cases hn)

theorem serveDevice_stays (h : Inside L R s) (hi : R.interrupt) (d : Dev) (a : Word) :
    Stays L R (serveDevice L d a) s := by
  have rest : ∀ {t}, Inside L R t → Stays L R (do
      ackDevice a
      sysVerhogen L (L.addr (.semSync d))
      passDevice L d) t := fun h =>
    (ackDevice_stays h a).bind fun _ _ h =>
      (semOp_stays h _ _ (.inr (kernelWord_addr_ne L _))).bind fun _ _ h => passDevice_stays h d
  unfold serveDevice
  refine stays_get_bind (stays_ite (fun _ => ?_) fun _ => rest h)
  exact (endIo_stays h hi d).bind fun _ _ h => (setReturnValue_stays h hi d a).bind fun _ _ h => rest h

theorem device_stays (h : Inside L R s) (n : Int) : Stays L R (K.device n) s := by
  unfold K.device
  split
  · exact stays_pure h
  · exact stays_leave h

theorem handleDeviceInt_stays (h : Inside L R s) (hi : R.interrupt) (n : Nat) :
    Stays L R (handleDeviceInt L n) s := by
  unfold handleDeviceInt
  refine stays_get_bind (stays_ite (fun _ => stays_pure h) fun _ => ?_)
  exact (device_stays h _).bind fun d _ h => serveDevice_stays h hi d _

/-! ## Interrupts -/

theorem wakeClock_stays (fuel : Nat) {s : Kernel} (h : Inside L R s) : Stays L R (wakeClock L fuel) s := by
  induction fuel generalizing s with
  | zero => exact stays_leave h
  | succ fuel ih =>
    unfold wakeClock
    refine stays_fromTables_bind (.links (relinks_removeBlocked _))
      (h.withTables fun _ hb => hb.removeBlocked _) fun h => ?_
    cases (s.removeBlocked (L.addr .clock)).1 with
    | none => exact stays_pure h
    | some p =>
      refine (stays_globals (.other rfl) (h.withGlobals rfl rfl fun _ => rfl)).bind fun _ t h => ?_
      refine Stays.bind (stays_tables (.links (Tables.Relinks.of_eq rfl)) ?_) fun _ t h => ih h
      exact h.withTables fun _ hb => hb.insertReady p

theorem handleSysTimer_stays (h : Inside L R s) : Stays L R (handleSysTimer L) s :=
  (wakeClock_stays _ h).bind fun _ _ h => stays_globals (.other rfl) (h.withGlobals rfl rfl fun _ => rfl)

theorem handleLocalTimer_quits (h : Inside L R s) : Quits R handleLocalTimer s := by
  unfold handleLocalTimer
  refine quits_current_bind h fun c hc => quits_get_bind (quits_tables_bind (.caller hc fun _ => rfl) ?_)
  refine quits_tables_bind (.links (Tables.Relinks.of_eq rfl)) (quits_globals_bind (.other rfl) ?_)
  refine scheduler_quits (.inl fun d hd => ?_)
  obtain rfl : c = d := Option.some.inj (hc.symm.trans hd)
  simpa [Tables.modPcb, Tables.insertProcQ] using h.old

theorem handleLine_stays (h : Inside L R s) (hi : R.interrupt) (line : Line) :
    Stays L R (handleLine L line) s := by
  cases line with
  | localTimer => exact (handleLocalTimer_quits h).stays
  | sysTimer => exact handleSysTimer_stays h
  | device n => exact handleDeviceInt_stays h hi n

theorem serveLine_stays (h : Inside L R s) (hi : R.interrupt) : Stays L R (serveLine L) s := by
  unfold serveLine
  refine stays_get_bind ?_
  dsimp only
  cases firstLine s.gOldState.cause with
  | none => exact stays_pure h
  | some l =>
    refine Stays.bind (stays_globals (.other rfl) ?_) fun _ t h => handleLine_stays h hi l.2
    exact ⟨h.caller, h.old.trans (StateT.kept_set rfl), h.waiting, h.buffered⟩

theorem interruptHandler_quits (fuel : Nat) {s : Kernel} (h : Inside L R s) (hi : R.interrupt) :
    Quits R (interruptHandler L fuel) s := by
  induction fuel generalizing s with
  | zero => exact quits_leave h.saved
  | succ fuel ih =>
    unfold interruptHandler
    refine (serveLine_stays h hi).bind_quits fun _ t h => quits_get_bind (quits_ite (fun _ => ?_) fun _ => ?_)
    · exact (ih h).stays.bind_quits (L := L) fun _ _ h => quits_restart h
    · exact quits_restart h

/-! ## System calls -/

/-- The fresh pcb gets its contents. -/
theorem Inside.make (h : Inside L R s) (hi : ¬R.interrupt) (T : Tables) : Inside L R { s with toTables := T } :=
  ⟨h.caller, h.old, h.waiting, fun hn => absurd hn hi⟩

theorem Write.record {p : Pcb} {f : PcbT → PcbT} (hp : p ∈ R.fresh) :
    Write R s { s with toTables := s.modPcb p f } :=
  .make hp fun q hq => by simp [Tables.modPcb, hq]

theorem sysCreateProcess_stays (h : Inside L R s) (hi : ¬R.interrupt) (hf : ∀ p l, s.free = p :: l → p ∈ R.fresh)
    (statep supportp : Word) (ns : Option Nsd) : Stays L R (sysCreateProcess L statep supportp ns) s := by
  unfold sysCreateProcess
  cases hfree : s.free with
  | nil =>
    have hn := Tables.allocPcb_nil hfree
    refine stays_fromTables_bind (.links (Tables.Relinks.of_eq (by rw [hn]))) (h.make hi _) fun h => ?_
    rw [hn] at h ⊢
    exact stays_pure h
  | cons p l =>
    have hp := hf p l hfree
    have ha := Tables.allocPcb_cons hfree
    have halloc : Write R s { s with toTables := s.allocPcb.2 } := by
      refine .make hp fun q hq => ?_
      rw [ha]
      simp [Tables.resetPcb, Tables.listDel, Tables.modPcb, hq]
    refine stays_fromTables_bind halloc (h.make hi _) fun h => ?_
    have hchild : s.allocPcb.2.pChild p = [] := by
      rw [ha]
      simp [Tables.resetPcb]
    rw [show s.allocPcb.1 = some p by rw [ha]]
    generalize s.allocPcb.2 = T at h hchild ⊢
    have last : ∀ {t}, Inside L R t → Stays L R (do
        K.tables (·.insertProcQ .gReadyQueue p)
        let parent ← K.current
        K.tables (·.insertChild parent p)
        return L.pcb p) t := fun h =>
      stays_tables_bind (.links (Tables.Relinks.of_eq rfl)) <|
        stays_current_bind (h.make hi _) fun c _ =>
          stays_tables_bind (.make hp fun q hq => by simp [Tables.insertChild, Tables.modPcb, hq])
            (stays_pure (h.make hi _))
    have h : Inside L R { toTables := T, toGlobals := { s.toGlobals with gProcessCount := s.gProcessCount + 1 } } :=
      h.withGlobals rfl rfl fun _ => rfl
    refine stays_globals_bind (.other rfl) (stays_get_bind ?_)
    refine stays_tables_bind (.record hp) (stays_tables_bind (.record hp) ?_)
    cases ns with
    | none =>
      refine stays_current_bind (h.make hi _) fun c _ => stays_get_bind ?_
      exact stays_tables_bind (.record hp) (last (h.make hi _))
    | some ns =>
      refine stays_get_bind ?_
      simp only [addNamespace_leaf (t := (T.modPcb p _).modPcb p _) ns hchild]
      refine stays_tables_bind (.make hp fun q hq => ?_) (last (h.make hi _))
      simp [Tables.setNamespace, Tables.modPcb, hq]

/-- Termination writes links only. -/
theorem unblock_writes (s : Kernel) (p : Pcb) : Writes R s (s.unblock L p) := by
  have hout : Write R s { s with toTables := (s.outBlocked p).2 } := .links (relinks_outBlocked p)
  unfold Kernel.unblock
  dsimp only
  split
  · generalize s.outBlocked p = r at hout ⊢
    obtain ⟨_ | q, T⟩ := r
    · exact .single hout
    · dsimp only
      split
      · split
        · exact .tail (.single hout) (.other rfl)
        · exact .single hout
      · exact .single hout
  · exact .refl

theorem discard_writes (s : Kernel) (p : Pcb) : Writes R s (s.discard p) := by
  have hfree : Write R s { s with toTables := s.freePcb p } := .links (relinks_freePcb p)
  exact .tail (.single hfree) (.other rfl)

/-! ## Termination -/

/-- What holds of every part of a termination, and of parts one after the other. -/
structure OfParts (L : Layout) (Rel : Kernel → Kernel → Prop) : Prop where
  trans : ∀ {s t u}, Rel s t → Rel t u → Rel s u
  unblock : ∀ s p, Rel s (s.unblock L p)
  remove : ∀ s p, Rel s { s with toTables := (s.removeChild p).2 }
  discard : ∀ s p, Rel s (s.discard p)

mutual

theorem OfParts.terminateProcess {Rel : Kernel → Kernel → Prop} (hR : OfParts L Rel) (fuel : Nat) {s t : Kernel} {p : Pcb}
    (h : Pandos.terminateProcess L fuel s p = some t) : Rel s t := by
  cases fuel with
  | zero => cases h
  | succ fuel =>
    rw [Pandos.terminateProcess] at h
    obtain ⟨u, hu, rfl⟩ := Option.map_eq_some_iff.mp h
    exact hR.trans (hR.trans (hR.unblock s p) (hR.terminateChildren fuel hu)) (hR.discard u p)

theorem OfParts.terminateChildren {Rel : Kernel → Kernel → Prop} (hR : OfParts L Rel) (fuel : Nat) {s t : Kernel} {p : Pcb}
    (h : Pandos.terminateChildren L fuel s p = some t) : Rel s t := by
  cases fuel with
  | zero => cases h
  | succ fuel =>
    have hremove := hR.remove s p
    rw [Pandos.terminateChildren] at h
    generalize s.removeChild p = r at h hremove
    obtain ⟨_ | c, T⟩ := r
    · cases h
      exact hremove
    · obtain ⟨u, hu, ht⟩ := Option.bind_eq_some_iff.mp h
      exact hR.trans hremove (hR.trans (hR.terminateProcess fuel hu) (hR.terminateChildren fuel ht))

end

theorem drops_outBlocked (T : Tables) (p : Pcb) : T.Drops (T.outBlocked p).2 := by
  unfold Tables.outBlocked Tables.freeSemdIfempty
  split
  · exact .of_ready rfl fun _ h => h
  · split
    · refine ⟨fun q hq => ?_, fun q hq => ?_⟩
      · split at hq <;> exact (Lists.mem_unlink.mp hq).1
      · by_cases hqp : q = p
        · simp [Tables.modPcb, hqp]
        · split <;> simpa [Tables.modPcb, Tables.listDel, hqp] using hq
    · exact .of_ready rfl fun _ h => h

theorem drops_freePcb (T : Tables) (p : Pcb) : T.Drops (T.freePcb p) := by
  have hready : ∀ U : Tables, (U.listAdd .pcbFreeH p).ready = U.ready := fun U => by
    show U.procQ.push .pcbFreeH p .gReadyQueue = U.procQ .gReadyQueue
    exact Lists.push_of_ne (by simp)
  unfold Tables.freePcb
  split
  · refine .of_ready rfl fun q hq => ?_
    rw [hready] at hq
    exact (Lists.mem_unlink.mp hq).1
  · exact .of_ready rfl fun q hq => by rwa [hready] at hq

theorem drops_unblock (s : Kernel) (p : Pcb) : s.toTables.Drops (s.unblock L p).toTables := by
  have hout := drops_outBlocked s.toTables p
  unfold Kernel.unblock
  dsimp only
  split
  · generalize s.outBlocked p = r at hout ⊢
    obtain ⟨_ | q, T⟩ := r
    · exact hout
    · dsimp only
      split
      · split <;> exact hout
      · exact hout
  · exact .of_ready rfl fun _ h => h

theorem drops_outChild (T : Tables) (p : Pcb) : T.Drops (T.outChild p).2 := by
  unfold Tables.outChild
  split
  · exact .of_ready rfl fun _ h => h
  · split <;> exact .of_ready rfl fun _ h => h

theorem drops_removeChild (T : Tables) (p : Pcb) : T.Drops (T.removeChild p).2 := by
  unfold Tables.removeChild
  split <;> exact .of_ready rfl fun _ h => h

theorem drops_ofParts : OfParts L fun s t => s.toTables.Drops t.toTables where
  trans := Tables.Drops.trans
  unblock := drops_unblock
  remove s p := drops_removeChild s.toTables p
  discard s p := drops_freePcb s.toTables p

theorem writes_ofParts : OfParts L (Writes R) where
  trans := Relation.ReflTransGen.trans
  unblock := unblock_writes
  remove s p :=
    have hw : Write R s { s with toTables := (s.removeChild p).2 } := .links (relinks_removeChild p)
    .single hw
  discard := discard_writes

theorem sysTerminateProcess_some_quits (ha : Adrift R s) (p : Pcb) :
    Quits R (sysTerminateProcess L (some p)) s := by
  have ha : Adrift R { s with toTables := (s.outChild p).2 } := ha.drops (drops_outChild _ p)
  unfold sysTerminateProcess
  refine quits_of_ok_bind (a := p) (t := s) rfl .refl ?_
  refine quits_fromTables_bind (.links (relinks_outChild p)) (quits_get_bind ?_)
  cases ht : terminateProcess L terminateFuel { s with toTables := (s.outChild p).2 } p with
  | none => exact quits_leave (.inr (.inr ha))
  | some t =>
    have ha : Adrift R t := ha.drops (drops_ofParts.terminateProcess _ ht)
    exact (scheduler_quits (.inr ha)).after (writes_ofParts.terminateProcess _ ht) rfl

/-- A process that terminates another one is lost. -/
theorem sysTerminateProcess_quits (h : Inside L R s) (ha : Adrift R s) (pid : Option Pcb) :
    Quits R (sysTerminateProcess L pid) s := by
  cases pid with
  | some p => exact sysTerminateProcess_some_quits ha p
  | none => exact quits_current_bind h fun c _ => sysTerminateProcess_some_quits ha c

/-! ## The other system calls -/

theorem sysDoIo_stays (h : Inside L R s) (hi : ¬R.interrupt) (a v : Word) : Stays L R (sysDoIo L a v) s := by
  unfold sysDoIo
  refine stays_ite (fun _ => stays_leave h) fun _ => ?_
  refine stays_current_bind h fun c hc => stays_tables_bind (.caller hc fun _ => rfl) ?_
  refine (device_stays (h.make hi _) _).bind fun d t h => ?_
  refine (semOp_stays h _ _ (.inr (kernelWord_addr_ne L _))).bind fun _ t h => ?_
  refine stays_current_bind h fun c _ => ?_
  exact (beginIo_stays h d fun hn => absurd hn hi).bind fun _ _ h => stays_pure h

theorem getPassedTime_stays (h : Inside L R s) : Stays L R getPassedTime s :=
  (stays_stck h).bind fun _ _ h => stays_get_bind (stays_pure h)

theorem sysGetTime_stays (h : Inside L R s) : Stays L R sysGetTime s :=
  stays_current_bind h fun _ _ => (getPassedTime_stays h).bind fun _ _ h => stays_get_bind (stays_pure h)

theorem sysClockWait_stays (h : Inside L R s) : Stays L R (sysClockWait L) s :=
  Stays.bind (stays_globals (.other rfl) (h.withGlobals rfl rfl fun _ => rfl)) fun _ _ h =>
    semOp_stays h _ _ (.inr (kernelWord_addr_ne L _))

theorem sysGetSupportPtr_stays (h : Inside L R s) : Stays L R sysGetSupportPtr s :=
  stays_current_bind h fun _ _ => stays_get_bind (stays_pure h)

theorem sysGetProcessID_stays (h : Inside L R s) (isParent : Word) :
    Stays L R (sysGetProcessID L isParent) s :=
  stays_current_bind h fun _ _ => stays_get_bind <|
    stays_ite (fun _ => stays_pure h) fun _ => stays_ite (fun _ => stays_pure h) fun _ => stays_pure h

/-- The code stays within `R` and its result satisfies `P`. -/
def Yields (L : Layout) (R : Range) {α : Type} (P : α → Prop) (x : K α) (s : Kernel) : Prop :=
  Ends x s (fun a t => (Writes R s t ∧ Inside L R t) ∧ P a) fun _ t => Writes R s t ∧ Saved R t

theorem Yields.stays {P : α → Prop} {x : K α} (h : Yields L R P x s) : Stays L R x s :=
  h.mono (fun _ _ h => h.1) fun _ _ h => h

theorem yields_pure {P : α → Prop} {a : α} (h : Inside L R s) (ha : P a) : Yields L R P (pure a) s :=
  ⟨⟨.refl, h⟩, ha⟩

theorem Yields.bind {β : Type} {P : α → Prop} {Q : β → Prop} {x : K α} {f : α → K β} (h : Yields L R P x s)
    (hf : ∀ a t, P a → Inside L R t → Yields L R Q (f a) t) : Yields L R Q (x >>= f) s :=
  ends_bind.mpr <| h.mono (fun a t ⟨⟨hw, hi⟩, ha⟩ => (hf a t ha hi).mono
    (fun _ _ h => ⟨h.1.imp hw.trans id, h.2⟩) fun _ _ h => h.imp hw.trans id) fun _ _ h => h

theorem yields_foldlM {β γ : Type} {f : β → γ → K β} {P : β → Prop} {l : List γ} {b : β}
    (hf : ∀ b c t, P b → Inside L R t → Yields L R P (f b c) t) (hb : P b) {s : Kernel} (h : Inside L R s) :
    Yields L R P (l.foldlM f b) s := by
  induction l generalizing b s with
  | nil => exact yields_pure h hb
  | cons c l ih =>
    rw [List.foldlM_cons]
    exact (hf b c s hb h).bind fun b t hb h => ih hb h

/-- The array is written from its start, and not beyond its size. -/
theorem getChildsByNamespace_yields {children : Word} {size : Int}
    (hw : ∀ i < size.toNat, wordAt children i ∈ R.words) (ns : Option Nsd) (fuel : Nat) {used : Int}
    {s : Kernel} {p : Pcb} (h : Inside L R s) (hu : 0 ≤ used) :
    Yields L R (fun r => 0 ≤ r.2) (getChildsByNamespace L children size ns fuel used p) s := by
  induction fuel generalizing used s p with
  | zero => exact ⟨.refl, h.saved⟩
  | succ fuel ih =>
    have visit : ∀ (u : Int) {t : Kernel}, Inside L R t → 0 ≤ u →
        Yields L R (fun r : Int × Int => 0 ≤ r.2) ((s.pChild p).foldlM (fun b c => do
          let r ← getChildsByNamespace L children size ns fuel b.2 c
          pure (b.1 + r.1, r.2)) (0, u)) t := by
      intro u t h hu
      refine yields_foldlM (P := fun r : Int × Int => 0 ≤ r.2) (fun b c t hb h => ?_) hu h
      exact (ih h hb).bind fun _ _ hr h => yields_pure h hr
    unfold getChildsByNamespace
    show Yields L R _ (if _ then _ else _) s
    split
    · exact yields_pure h hu
    · show Yields L R _ (if _ then _ else _) s
      split
      · next hroom =>
        have hstore : Yields L R (fun _ => True)
            (K.globals (·.writeMem (wordAt children used.toNat) (L.pcb p))) s := by
          have hin : wordAt children used.toNat ∈ R.words := hw _ (by omega)
          refine ⟨⟨.single (.globals fun a ha => ?_), h.withGlobals rfl rfl fun _ => rfl⟩, trivial⟩
          have hne : a ≠ wordAt children used.toNat := fun e => ha (e ▸ hin)
          exact Function.update_of_ne hne _ _
        refine hstore.bind fun _ t _ h => (yields_pure h (show 0 ≤ used + 1 by omega)).bind fun u t hu h => ?_
        exact (visit u h hu).bind fun _ _ hr h => yields_pure h hr
      · refine (yields_pure h hu).bind fun u t hu h => ?_
        exact (visit u h hu).bind fun _ _ hr h => yields_pure h hr

theorem sysGetChildren_stays (h : Inside L R s) {children : Word} {size : Int}
    (hw : ∀ i < size.toNat, wordAt children i ∈ R.words) : Stays L R (sysGetChildren L children size) s := by
  unfold sysGetChildren
  refine stays_current_bind h fun c _ => stays_get_bind ?_
  exact ((getChildsByNamespace_yields hw _ _ h le_rfl).stays).bind fun _ _ h => stays_pure h

theorem mem_writeState {g : Globals} {a b : Word} {st : StateT}
    (h : ∀ i : Fin 35, b ≠ a + BitVec.ofNat 32 (4 * i)) : (g.writeState a st).mem b = g.mem b := by
  unfold Globals.writeState
  induction List.finRange 35 generalizing g with
  | nil => rfl
  | cons i l ih =>
    rw [List.foldl_cons, ih]
    simp [Globals.writeMem, h i]

/-- The state goes to the support structure of the current process. -/
theorem passUpOrDie_quits (h : Inside L R s) (ha : Adrift R s) (n : Nat)
    (hw : ∀ c, R.caller = some c → (s.pcbs c).pSupportStruct ≠ 0 → ∀ i : Fin 35,
      supExceptState (s.pcbs c).pSupportStruct n + BitVec.ofNat 32 (4 * i) ∈ R.words) :
    Quits R (passUpOrDie L n) s := by
  unfold passUpOrDie
  refine quits_get_bind ?_
  rw [h.caller]
  cases hc : R.caller with
  | none => exact sysTerminateProcess_quits h ha none
  | some c =>
    refine quits_ite (fun _ => sysTerminateProcess_quits h ha (some c)) fun h0 => ?_
    · have hstore : Write R s { s with
          toGlobals := s.writeState (supExceptState (s.pcbs c).pSupportStruct n) s.gOldState } :=
        .globals fun a ha => mem_writeState fun i e => ha (e ▸ hw c hc h0 i)
      have hi : Inside L R { s with
          toGlobals := s.writeState (supExceptState (s.pcbs c).pSupportStruct n) s.gOldState } := by
        refine h.withGlobals ?_ ?_ fun d => ?_
        all_goals rw [Globals.writeState_eq]
      exact quits_globals_bind hstore (quits_get_bind (quits_leave hi.saved))

theorem toPointer_stays {β : Type} {a : Option α} {f : α → K β} (h : Inside L R s)
    (hf : ∀ b, a = some b → Stays L R (f b) s) : Stays L R (toPointer a >>= f) s := by
  cases a with
  | none => exact stays_leave h
  | some b => exact hf b rfl

/-- What `R` has to allow the system call. -/
structure Range.Serves (L : Layout) (R : Range) (s : Kernel) (code a1 a2 : Word) : Prop where
  create : code.toNat = 1 → ∀ p l, s.free = p :: l → p ∈ R.fresh
  semaphore : code.toNat = 3 ∨ code.toNat = 4 → a1 ∈ R.words
  children : code.toNat = 10 → ∀ i < a2.toInt.toNat, wordAt a1 i ∈ R.words
  up : ¬(1 ≤ code.toNat ∧ code.toNat ≤ 10) → ∀ c, R.caller = some c → (s.pcbs c).pSupportStruct ≠ 0 →
    ∀ i : Fin 35, supExceptState (s.pcbs c).pSupportStruct generalExcept + BitVec.ofNat 32 (4 * i) ∈ R.words

theorem syscall_stays (h : Inside L R s) (ha : Adrift R s) (hi : ¬R.interrupt) {code a1 a2 a3 : Word}
    (hR : R.Serves L s code a1 a2) : Stays L R (syscall L code a1 a2 a3) s := by
  have returns : ∀ {β : Type} {x : K β} {v : Word}, Stays L R x s →
      Stays L R (do let _ ← x; return v) s := fun hx => hx.bind fun _ _ h => stays_pure h
  unfold syscall
  split
  · next hn => exact toPointer_stays h fun _ _ => sysCreateProcess_stays h hi (hR.create hn) _ _ _
  · exact toPointer_stays h fun _ _ => returns (sysTerminateProcess_quits h ha _).stays
  · next hn => exact returns (semOp_stays h _ _ (.inl (hR.semaphore (.inl hn))))
  · next hn => exact returns (semOp_stays h _ _ (.inl (hR.semaphore (.inr hn))))
  · exact sysDoIo_stays h hi _ _
  · exact sysGetTime_stays h
  · exact returns (sysClockWait_stays h)
  · exact sysGetSupportPtr_stays h
  · exact sysGetProcessID_stays h _
  · next hn => exact (sysGetChildren_stays h (hR.children hn)).bind fun _ _ h => stays_pure h
  · have hn : ¬(1 ≤ code.toNat ∧ code.toNat ≤ 10) := by
      simp only [imp_false] at *
      omega
    exact returns (passUpOrDie_quits h ha _ (hR.up hn)).stays

theorem syscallHandler_quits (h : Inside L R s) (ha : Adrift R s) (hi : ¬R.interrupt)
    (hR : R.Serves L s s.gOldState.regA0 s.gOldState.regA1 s.gOldState.regA2) :
    Quits R (syscallHandler L) s := by
  unfold syscallHandler
  refine quits_get_bind ((syscall_stays h ha hi hR).bind_quits fun v t h => ?_)
  have hold : R.old.Kept {1, 5} (t.gOldState.setRegV0 v) :=
    (h.old.mono (by simp)).trans (StateT.kept_set (by simp))
  exact quits_globals_bind (.other rfl) (quits_leave (.inl ⟨h.caller, hold⟩))

end Pandos
