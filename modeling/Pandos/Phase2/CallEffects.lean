import Pandos.Phase2.DeviceEffects
import Pandos.Phase2.Termination

/-!
# What the system calls do
-/

namespace Pandos
open Intrusive Outcome

theorem Globals.writeState_eq (g : Globals) (a : Word) (t : StateT) :
    g.writeState a t = { g with mem := (g.writeState a t).mem } := by
  unfold writeState
  induction List.finRange 35 generalizing g with
  | nil => rfl
  | cons i l ih => exact ih (g.writeMem _ _)

namespace Queues
variable {q : Queues} {p : Pcb}

theorem modPcb_modPcb (f g : PcbT → PcbT) :
    (q.modPcb p f).modPcb p g = q.modPcb p fun r => g (f r) := by
  simp [modPcb]

theorem modPcb_const {f : PcbT → PcbT} {r : PcbT} (hr : f (q.pcbs p) = r) :
    q.modPcb p f = q.modPcb p fun _ => r := by
  simp [modPcb, hr]

end Queues

namespace Nucleus

/-- The process that `CREATEPROCESS` makes of the free pcb `p`. -/
def create (N : Nucleus) (parent p : Pcb) (r : PcbT) : Nucleus :=
  ⟨(((N.toQueues.alloc p).modPcb p fun _ => r).moveLast .ready p).insertChild parent p,
    { N.toGlobals with gProcessCount := N.gProcessCount + 1 }⟩

/-- The arguments of a `DOIO`. -/
def request (N : Nucleus) (p : Pcb) (cmdAddr cmdValues : Word) : Nucleus :=
  ⟨N.modPcb p ({ · with cmdAddr := cmdAddr, cmdValues := cmdValues }), N.toGlobals⟩

/-- The record of a new process. -/
def newPcb (N : Nucleus) (parent : Pcb) (statep supportp : Word) (ns : Option Nsd) : PcbT :=
  { PcbT.zero with
    pS := N.readState statep
    pSupportStruct := supportp
    namespaces := match ns with
      | some ns => Function.update (fun _ => none) ns.1 (some ns)
      | none => (N.pcbs parent).namespaces }

theorem queue_create (N : Nucleus) (k : Place) (parent p : Pcb) (r : PcbT) :
    (N.create parent p r).queue k =
      if k = .ready then N.queue.unlink p k ++ [p] else N.queue.unlink p k := by
  show ((((N.toQueues.alloc p).modPcb p fun _ => r).moveLast .ready p).queue k) = _
  rw [Queues.queue_moveLast, Queues.modPcb, Queues.alloc, Queues.unlink, Queues.modPcb,
    Lists.unlink_unlink]

theorem pcbs_create (N : Nucleus) (parent p q : Pcb) (r : PcbT) :
    (N.create parent p r).pcbs q =
      if q = p then { r with pParent := some parent } else N.pcbs q := by
  by_cases hq : q = p
  · subst hq
    simp [create, Queues.insertChild, Queues.moveLast, Queues.modPcb]
  · simp [create, Queues.insertChild, Queues.moveLast, Queues.alloc, Queues.unlink, Queues.modPcb,
      hq]

theorem mem_create {N : Nucleus} {k : Place} {parent p q : Pcb} {r : PcbT} :
    q ∈ (N.create parent p r).queue k ↔ q ∈ N.queue k ∧ q ≠ p ∨ k = .ready ∧ q = p := by
  rw [queue_create]
  split <;> simp_all

end Nucleus

/-- A process without children gets its namespace alone. -/
theorem addNamespace_leaf {t : Tables} {p : Pcb} (ns : Nsd) (hp : t.pChild p = []) :
    t.addNamespace maxProc p ns = some (t.setNamespace p ns.1 (some ns)) := by
  show Tables.addNamespace (19 + 1) t p ns = _
  rw [Tables.addNamespace, hp]
  rfl

section
variable {L : Layout} {code a1 a2 a3 : Word}

theorem syscall_terminate (h : code.toNat = 2) : syscall L code a1 a2 a3 =
    (do sysTerminateProcess L (← toPointer (L.toPcb a1)); return 0) := by
  simp only [syscall, h]

theorem syscall_passeren (h : code.toNat = 3) :
    syscall L code a1 a2 a3 = (do sysPasseren L a1; return 0) := by
  simp only [syscall, h]

theorem syscall_verhogen (h : code.toNat = 4) :
    syscall L code a1 a2 a3 = (do sysVerhogen L a1; return 0) := by
  simp only [syscall, h]

theorem syscall_doIo (h : code.toNat = 5) : syscall L code a1 a2 a3 = sysDoIo L a1 a2 := by
  simp only [syscall, h]

theorem syscall_getTime (h : code.toNat = 6) : syscall L code a1 a2 a3 = sysGetTime := by
  simp only [syscall, h]

theorem syscall_clockWait (h : code.toNat = 7) :
    syscall L code a1 a2 a3 = (do sysClockWait L; return 0) := by
  simp only [syscall, h]

end

namespace Runs
variable {L : Layout} {N : Nucleus} {E : Exit → Nucleus → Prop} {Q : Unit → Nucleus → Prop}
  {p c : Pcb} {d : Dev} {a : Word}

theorem allocPcb {Q : Option Pcb → Nucleus → Prop} (full : N.free = [] → Q none N)
    (some : ∀ p l, N.free = p :: l → Q (some p) ⟨N.toQueues.alloc p, N.toGlobals⟩) :
    Runs (K.fromTables (·.allocPcb)) N Q E := by
  refine sound fun ⟨_, ht, hc⟩ => ?_
  have hfree : ∀ t : Tables, t.queues = N.toQueues → t.free = N.free := by
    intro t he
    rw [← he]
    rfl
  cases hf : N.free with
  | nil =>
    refine fromTables (fun t hq he => ?_) ht hc (full hf)
    rw [Tables.allocPcb_nil ((hfree t he).trans hf)]
    exact ⟨rfl, hq, he⟩
  | cons p l =>
    have hp : p ∈ N.free := by simp [hf]
    refine fromTables (fun t hq he => ?_) (ht.alloc hp) ?_ (some p l hf)
    · have hp' : p ∈ t.free := by rwa [hfree t he]
      rw [Tables.allocPcb_cons ((hfree t he).trans hf)]
      exact ⟨rfl, Tables.allocPcb_queued hq hp', by rw [Tables.allocPcb_queues hq hp', he]⟩
    · intro c hcur
      obtain ⟨hr, h0⟩ := hc c hcur
      refine ⟨fun hm => hr (Lists.mem_unlink.mp hm).1, ?_⟩
      by_cases hcp : c = p
      · simp [Queues.alloc, Queues.unlink, Queues.modPcb, hcp, PcbT.zero]
      · simpa [Queues.alloc, Queues.unlink, Queues.modPcb, hcp] using h0

theorem insertChild (hp : p ∉ N.free) (hc : c ∉ N.free)
    (h : Q () ⟨N.toQueues.insertChild p c, N.toGlobals⟩) :
    Runs (K.tables (·.insertChild p c)) N Q E := by
  refine sound fun ⟨_, ht, hcur⟩ => tables (fun t hq he => ⟨?_, ?_⟩) (ht.insertChild hp hc) ?_ h
  · refine hq.relink hq.apart (fun _ => rfl) rfl rfl rfl fun q => ?_
    by_cases hqc : q = c
    · subst hqc
      simp [Tables.insertChild, Tables.modPcb]
    · simp [Tables.insertChild, Tables.modPcb, hqc]
  · rw [← he]
    rfl
  · exact current_modPcb (f := fun r => { r with pParent := some p }) hcur rfl

theorem setNamespace {β : Type} {rest : Unit → K β} {Q : β → Nucleus → Prop} {ns : Nsd}
    (hp : N.pChild p = [])
    (h : Runs (rest ()) ⟨N.modPcb p fun r =>
      { r with namespaces := Function.update r.namespaces ns.1 (some ns) }, N.toGlobals⟩ Q E) :
    Runs (do
      match (← get).addNamespace maxProc p ns with
      | some t => K.tables (fun _ => t) >>= rest
      | none => K.leave .hang >>= rest) N Q E := by
  refine Runs.get fun s hs => ?_
  simp only [addNamespace_leaf (t := s.toTables) ns (by rw [hs.pChild, hp])]
  refine Runs.bind (tables (fun t hq he => ⟨hs.queued.modPcb rfl, ?_⟩) (hs.tree.modPcb rfl)
    (current_modPcb hs.current rfl) h)
  rw [← hs.queues]
  rfl

theorem sysCreateProcess {statep supportp : Word} {ns : Option Nsd} {Q : Word → Nucleus → Prop}
    (hc : N.gCurrentProcess = some c) (hlive : c ∉ N.free) (full : N.free = [] → Q (-1) N)
    (make : ∀ p l, N.free = p :: l →
      Q (L.pcb p) (N.create c p (N.newPcb c statep supportp ns))) :
    Runs (sysCreateProcess L statep supportp ns) N Q E := by
  refine Runs.bind (allocPcb (fun hf => Runs.pure (full hf)) fun p l hf => ?_)
  have hp : p ∈ N.free := by simp [hf]
  have hcp : c ≠ p := fun e => hlive (e ▸ hp)
  -- the end of the call, the same for either kind of namespace
  have finish : ∀ q : Queues,
      q = (N.toQueues.alloc p).modPcb p (fun _ => N.newPcb c statep supportp ns) →
      Runs (do
        K.tables (·.insertProcQ .gReadyQueue p)
        let parent ← K.current
        K.tables (·.insertChild parent p)
        return L.pcb p)
      ⟨q, { N.toGlobals with gProcessCount := N.gProcessCount + 1 }⟩ Q E := by
    rintro q rfl
    refine Runs.bind (insertProcQ ?_ ?_ (Runs.bind (current (fun c' hc' => ?_) ?_)))
    · simp [Queues.modPcb, Nucleus.newPcb, PcbT.zero]
    · exact fun h => hcp (Option.some.inj (hc.symm.trans h))
    · obtain rfl : c = c' := Option.some.inj (hc.symm.trans hc')
      refine Runs.bind (insertChild (fun hm => ?_) (fun hm => ?_) (Runs.pure (make p l hf)))
      · simp only [Queues.free, Queues.queue_moveLast] at hm
        exact hlive (Lists.mem_unlink.mp (Lists.mem_unlink.mp hm).1).1
      · simp only [Queues.free, Queues.queue_moveLast] at hm
        exact (Lists.mem_unlink.mp hm).2 rfl
    · intro h
      cases hc.symm.trans h
  refine Runs.bind (globals rfl (Runs.get fun s hs => ?_))
  rw [hs.globals]
  refine Runs.bind (modPcb (fun _ => rfl) (fun _ => rfl) ?_)
  refine Runs.bind (modPcb (fun _ => rfl) (fun _ => rfl) ?_)
  cases ns with
  | some ns =>
    refine setNamespace ?_ (finish _ ?_)
    · simp [Queues.modPcb, Queues.alloc]
    · rw [Queues.modPcb_modPcb, Queues.modPcb_modPcb, Queues.modPcb_const]
      simp only [Queues.alloc, Queues.modPcb, Queues.unlink, Nucleus.newPcb, Function.update_self]
      rfl
  | none =>
    refine Runs.bind (current (fun c' hc' => ?_) fun hn => ?_)
    · obtain rfl : c = c' := Option.some.inj (hc.symm.trans hc')
      refine Runs.get fun s hs => ?_
      rw [hs.pcbs]
      refine Runs.bind (modPcb (fun _ => rfl) (fun _ => rfl) (finish _ ?_))
      rw [Queues.modPcb_modPcb, Queues.modPcb_modPcb, Queues.modPcb_const]
      simp only [Queues.alloc, Queues.modPcb, Queues.unlink, Nucleus.newPcb, Function.update_self,
        Function.update_of_ne hcp]
      rfl
    · cases hc.symm.trans hn

theorem sysDoIo {cmdAddr cmdValues : Word} {Q : Word → Nucleus → Prop}
    (hc : N.gCurrentProcess = some c) (invalid : resolveDeviceAddress cmdAddr = -1 → E .panic N)
    (io : ∀ d : Dev, resolveDeviceAddress cmdAddr = d.val →
      Runs (sysPasseren L (L.addr (.semMut d))) (N.request c cmdAddr cmdValues)
        (fun _ N' => ∃ c', N'.gCurrentProcess = some c' ∧
          Runs (Pandos.beginIo L d c') N' (fun _ => Q 0) E) E) :
    Runs (sysDoIo L cmdAddr cmdValues) N Q E := by
  unfold Pandos.sysDoIo
  have body : resolveDeviceAddress cmdAddr ≠ -1 → Runs (do
      let caller ← K.current
      K.tables (·.modPcb caller ({ · with cmdAddr := cmdAddr, cmdValues := cmdValues }))
      let dev ← K.device (resolveDeviceAddress cmdAddr)
      sysPasseren L (L.addr (.semMut dev))
      Pandos.beginIo L dev (← K.current)
      return 0) N Q E := by
    intro hd
    refine Runs.bind (current (fun c' hc' => ?_) fun hn => ?_)
    · obtain rfl : c = c' := Option.some.inj (hc.symm.trans hc')
      refine Runs.bind (modPcb (fun _ => rfl) (fun _ => rfl) (Runs.bind (device (fun d hd => ?_) ?_)))
      · refine Runs.bind ((io d hd).mono ?_ fun _ _ => id)
        rintro - N' ⟨c', hc', hb⟩
        refine Runs.bind (current (fun c'' hc'' => ?_) fun hn => ?_)
        · obtain rfl : c' = c'' := Option.some.inj (hc'.symm.trans hc'')
          exact Runs.bind (hb.mono (fun _ _ => Runs.pure) fun _ _ => id)
        · cases hc'.symm.trans hn
      · exact fun hn => absurd (resolveDeviceAddress_range cmdAddr hd) hn
    · cases hc.symm.trans hn
  by_cases hd : resolveDeviceAddress cmdAddr = -1
  · simp only [hd, if_true]
    exact Runs.bind (Runs.leave (invalid hd))
  · simp only [hd, if_false]
    exact body hd

theorem sysClockWait
    (h : Runs (sysPasseren L (L.addr .clock))
      ⟨N.toQueues, { N.toGlobals with gSoftBlockCount := N.gSoftBlockCount + 1 }⟩ Q E) :
    Runs (sysClockWait L) N Q E :=
  Runs.bind (globals rfl h)

theorem sysGetTime {Q : Word → Nucleus → Prop} (hc : N.gCurrentProcess = some c)
    (h : Q ((N.pcbs c).pTime + (N.stck N.stckReads - N.gTod))
      ⟨N.toQueues, { N.toGlobals with stckReads := N.stckReads + 1 }⟩) : Runs sysGetTime N Q E := by
  refine Runs.bind (current (fun c' hc' => ?_) fun hn => ?_)
  · obtain rfl : c = c' := Option.some.inj (hc.symm.trans hc')
    refine Runs.bind (getPassedTime (Runs.get fun s hs => ?_))
    rw [hs.pcbs]
    exact Runs.pure h
  · cases hc.symm.trans hn

theorem sysGetSupportPtr {Q : Word → Nucleus → Prop} (hc : N.gCurrentProcess = some c)
    (h : Q (N.pcbs c).pSupportStruct N) : Runs sysGetSupportPtr N Q E := by
  refine Runs.bind (current (fun c' hc' => ?_) fun hn => ?_)
  · obtain rfl : c = c' := Option.some.inj (hc.symm.trans hc')
    refine Runs.get fun s hs => ?_
    rw [hs.pcbs]
    exact Runs.pure h
  · cases hc.symm.trans hn

theorem sysGetProcessID {isParent : Word} {Q : Word → Nucleus → Prop}
    (hc : N.gCurrentProcess = some c) (h : ∀ v, Q v N) :
    Runs (sysGetProcessID L isParent) N Q E := by
  refine Runs.bind (current (fun c' _ => Runs.get fun s hs => ?_) fun hn => ?_)
  · exact Runs.ite (fun _ => Runs.pure (h _)) fun _ =>
      Runs.ite (fun _ => Runs.pure (h _)) fun _ => Runs.pure (h _)
  · cases hc.symm.trans hn

/-- The process tree is searched without changing it: only the array of the
caller is written. -/
theorem getChildsByNamespace {children : Word} {size : Int} {ns : Option Nsd} {fuel : Nat}
    {used : Int} {Q : Int × Int → Nucleus → Prop}
    (h : ∀ r m, Q r ⟨N.toQueues, { N.toGlobals with mem := m }⟩)
    (hang : ∀ m, E .hang ⟨N.toQueues, { N.toGlobals with mem := m }⟩) :
    Runs (getChildsByNamespace L children size ns fuel used p) N Q E := by
  induction fuel generalizing N used p Q with
  | zero => exact Runs.leave (hang N.mem)
  | succ fuel ih =>
    have list : ∀ (f : Int × Int → Pcb → K (Int × Int)),
        (∀ n c m (Q : Int × Int → Nucleus → Prop),
          (∀ r m, Q r ⟨N.toQueues, { N.toGlobals with mem := m }⟩) →
          Runs (f n c) ⟨N.toQueues, { N.toGlobals with mem := m }⟩ Q E) →
        ∀ (l : List Pcb) (n : Int × Int) (m : Word → Word) (Q : Int × Int → Nucleus → Prop),
        (∀ r m, Q r ⟨N.toQueues, { N.toGlobals with mem := m }⟩) →
        Runs (l.foldlM f n) ⟨N.toQueues, { N.toGlobals with mem := m }⟩ Q E := by
      intro f hf l
      induction l with
      | nil => exact fun n m Q hQ => Runs.pure (hQ n m)
      | cons c l il =>
        intro n m Q hQ
        rw [List.foldlM_cons]
        exact Runs.bind (hf n c m _ fun r m' => il r m' Q hQ)
    have body : ∀ (n : Int × Int) (c : Pcb) (m : Word → Word) (Q : Int × Int → Nucleus → Prop),
        (∀ r m, Q r ⟨N.toQueues, { N.toGlobals with mem := m }⟩) →
        Runs (Pandos.getChildsByNamespace L children size ns fuel n.2 c >>= fun r =>
          pure (n.1 + r.1, r.2)) ⟨N.toQueues, { N.toGlobals with mem := m }⟩ Q E := by
      intro n c m Q hQ
      exact Runs.bind (ih (fun r m' => Runs.pure (hQ _ m')) fun m' => hang m')
    refine Runs.get fun s hs => ?_
    refine Runs.ite (fun _ => Runs.pure (h _ N.mem)) fun _ => ?_
    refine Runs.ite (fun _ => ?_) fun _ => ?_
    · refine Runs.bind (globals rfl (Runs.bind (Runs.pure (Runs.bind (list _ body _ _ _ _ ?_)))))
      intro r m
      exact Runs.pure (h _ m)
    · refine Runs.bind (Runs.pure (Runs.bind (list _ body _ _ N.mem _ ?_)))
      intro r m
      exact Runs.pure (h _ m)

theorem sysGetChildren {children : Word} {size : Int} {Q : Int → Nucleus → Prop}
    (hc : N.gCurrentProcess = some c)
    (h : ∀ n m, Q n ⟨N.toQueues, { N.toGlobals with mem := m }⟩)
    (hang : ∀ m, E .hang ⟨N.toQueues, { N.toGlobals with mem := m }⟩) :
    Runs (sysGetChildren L children size) N Q E := by
  refine Runs.bind (current (fun c' _ => Runs.get fun s hs => ?_) fun hn => ?_)
  · refine Runs.bind (getChildsByNamespace ?_ hang)
    intro r m
    exact Runs.pure (h _ m)
  · cases hc.symm.trans hn

theorem passUpOrDie {type : Nat}
    (none : N.gCurrentProcess = none → E .fault N)
    (die : ∀ c, N.gCurrentProcess = some c → (N.pcbs c).pSupportStruct = 0 →
      Runs (Pandos.sysTerminateProcess L (some c)) N Q E)
    (pass : ∀ c, N.gCurrentProcess = some c → (N.pcbs c).pSupportStruct ≠ 0 → ∀ m a b d,
      E (.ldcxt a b d) ⟨N.toQueues, { N.toGlobals with mem := m }⟩) :
    Runs (passUpOrDie L type) N Q E := by
  refine Runs.get fun s hs => ?_
  have hcur : s.gCurrentProcess = N.gCurrentProcess := by rw [hs.globals]
  rw [hcur]
  cases hc : N.gCurrentProcess with
  | none => exact (sysTerminateProcess_none hc (none hc)).mono (fun _ _ => False.elim) fun _ _ => id
  | some c =>
    rw [hs.pcbs]
    refine Runs.ite (die c hc) fun h => ?_
    refine Runs.bind (globals ?_ (Runs.get fun s hs => Runs.leave ?_))
    · rw [Globals.writeState_eq]
    · rw [Globals.writeState_eq]
      exact pass c hc h _ _ _ _

end Runs

/-! ## Who serves what -/

theorem syscall_other {L : Layout} {code a1 a2 a3 : Word} (hn : ¬(1 ≤ code.toNat ∧ code.toNat ≤ 10)) :
    syscall L code a1 a2 a3 = (do passUpOrDie L generalExcept; return 0) := by
  unfold syscall
  split <;> first | omega | rfl

section
variable {L : Layout} {s : Kernel}

theorem exceptionHandler_interrupt (h0 : excCode s.gOldState.cause = 0) :
    exceptionHandler L s = (do updateProcessTime; interruptHandler L 7) s := by
  refine (bind_of_ok rfl).trans ?_
  rw [h0]
  rfl

theorem exceptionHandler_syscall (h8 : excCode s.gOldState.cause = 8) : exceptionHandler L s =
    syscallHandler L { s with gOldState := s.gOldState.setPcEpc (s.gOldState.pcEpc + 4) } := by
  refine (bind_of_ok rfl).trans ?_
  rw [h8]
  exact bind_of_ok rfl

theorem exceptionHandler_trap (h0 : excCode s.gOldState.cause ≠ 0) (h8 : excCode s.gOldState.cause ≠ 8) :
    exceptionHandler L s =
      passUpOrDie L (if 3 < excCode s.gOldState.cause then generalExcept else pgFaultExcept) s := by
  unfold exceptionHandler
  refine (bind_of_ok rfl).trans (congrFun ?_ s)
  generalize excCode s.gOldState.cause = code at h0 h8
  match code with
  | 1 | 2 | 3 => rfl
  | 4 | 5 | 6 | 7 => rfl
  | code + 9 =>
    rw [if_pos (by omega)]
    rfl

end

end Pandos
