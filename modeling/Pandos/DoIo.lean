import Pandos.DeviceRecord
import Pandos.Numbering
import Pandos.Scenario

/-!
# A request from its `DOIO` to its interrupt

A process that asks an idle device waits until the interrupt of the device is
served, whatever others do meanwhile, and finds the registers and the result
then.
-/

namespace Pandos
open Intrusive Outcome

/-! ## Registers -/

/-- The buffer of a process receives the registers. -/
theorem Globals.collect_mem {g : Globals} {a v : Word} {n i : Nat} (hn : n < 2 ^ 30) (hi : i < n) :
    (g.collect a v n).mem (wordAt v i) = g.bus (wordAt a i) := by
  have hloop : ∀ k ≤ n, (g.collect a v k).bus = g.bus ∧
      ∀ j < k, (g.collect a v k).mem (wordAt v j) = g.bus (wordAt a j) := by
    intro k hk
    induction k with
    | zero => exact ⟨rfl, fun j hj => absurd hj (Nat.not_lt_zero j)⟩
    | succ k ih =>
      obtain ⟨hbus, hmem⟩ := ih (by omega)
      have hnext : g.collect a v (k + 1 : Nat) =
          (g.collect a v k).writeMem (wordAt v k) (g.bus (wordAt a k)) := by
        rw [← hbus]
        simp only [collect, Int.toNat_natCast, List.range_succ, List.foldl_append, List.foldl_cons,
          List.foldl_nil]
      rw [hnext]
      refine ⟨hbus, fun j hj => ?_⟩
      by_cases hjk : j = k
      · rw [hjk]
        exact Function.update_self _ _ _
      · have hne : wordAt v j ≠ wordAt v k := fun h => hjk (wordAt_inj (by omega) (by omega) h)
        exact (Function.update_of_ne hne _ _).trans (hmem j (by omega))
  exact (hloop n le_rfl).2 i hi

/-- The line on which a device interrupts. -/
def Dev.line (d : Dev) : Nat := if d.val < 32 then 3 + d.val / 8 else 7

/-- The interrupt of a line is that of a device with its registers there. -/
theorem findDevRegAddr_block (bus : Word → Word) {line : Nat} (hl : 3 ≤ line ∧ line ≤ 7) :
    findDevRegAddr bus line = 0 ∨ ∃ b : RegBlock, b.line = line ∧ findDevRegAddr bus line = b.base := by
  cases hf : (List.range 8).find? fun i => bus (wordAt intdevBitmap (line - 3)) &&& (1#32 <<< i) ≠ 0 with
  | none =>
    left
    simp only [findDevRegAddr, hf]
  | some i =>
    right
    have hi : i < 8 := List.mem_range.mp (List.mem_of_find?_eq_some hf)
    have hbase := RegBlock.toNat_devAddr hl hi
    simp only [findDevRegAddr, hf]
    split
    · next h =>
      have h7 : line = 7 := by
        have hstart : termregStartAddr.toNat = 0x10000254 := rfl
        have hend : termregEndAddr.toNat = 0x10000264 := rfl
        have hterm := h.1
        simp only [isTermReg, decide_eq_true_eq, ge_iff_le, BitVec.le_def, BitVec.lt_def, hstart,
          hend, hbase] at hterm
        omega
      exact ⟨⟨line, i, 1, hl, hi, by rw [if_pos h7]; decide⟩, rfl, rfl⟩
    · refine ⟨⟨line, i, 0, hl, hi, by split <;> decide⟩, rfl, ?_⟩
      simp [RegBlock.base]

theorem RegBlock.holds_base (b : RegBlock) : b.Holds b.base := by
  refine ⟨le_rfl, ?_⟩
  rw [size]
  split <;> omega

theorem firstLine_range {cause bit : Word} {ty : Nat}
    (h : firstLine cause = some (bit, .device ty)) : 3 ≤ ty ∧ ty ≤ 7 := by
  have hall : ∀ l ∈ interruptLines, ∀ n, l.2 = .device n → 3 ≤ n ∧ n ≤ 7 := by
    simp [interruptLines, diskIntline, flashIntline, printerIntline, termIntline]
  exact hall _ (List.mem_of_find?_eq_some h) ty rfl

section
variable {d : Dev}

theorem toNat_regAddr (hd : d.val < 32) : (regAddr d).toNat = 0x10000054 + 16 * d.val := by
  have hstart : devregStartAddr.toNat = 0x10000054 := rfl
  rw [regAddr, if_pos hd, BitVec.toNat_add, BitVec.toNat_ofNat, hstart]
  omega

theorem resolve_regAddr (hd : d.val < 32) : resolveDeviceAddress (regAddr d) = d.val := by
  rw [resolveDeviceAddress_eq, toNat_regAddr hd, if_pos (by omega)]
  omega

theorem getNumRegister_regAddr (hd : d.val < 32) : getNumRegister (regAddr d) = (4 : Nat) := by
  rw [getNumRegister_eq, toNat_regAddr hd, if_pos (by omega)]
  rfl

theorem isTermReg_regAddr (hd : d.val < 32) : isTermReg (regAddr d) = false := by
  have hterm : termregStartAddr.toNat = 0x10000254 := rfl
  simp only [isTermReg, decide_eq_false_iff_not, ge_iff_le, BitVec.le_def, hterm, toNat_regAddr hd]
  omega

end

/-- A pass that serves `d` serves its line. -/
theorem Kernel.Serves.line {s : Kernel} {d : Dev} (h : s.Serves d) :
    ∃ bit, firstLine s.gOldState.cause = some (bit, .device d.line) ∧
      (d.val < 32 → findDevRegAddr s.bus d.line = regAddr d) := by
  obtain ⟨bit, ty, hf, hne, hres⟩ := h
  have hty := firstLine_range hf
  obtain ⟨b, hb, ha⟩ := (findDevRegAddr_block s.bus hty).resolve_left hne
  rw [ha, RegBlock.resolve_of_holds b.holds_base] at hres
  have hdev := b.dev_range
  have hd : d.val < 48 := d.isLt
  have hhalf : b.half < 2 := by
    have := b.half_range
    split at this <;> omega
  have hline : ty = d.line := by
    rw [Dev.line]
    split_ifs at hres ⊢ <;> omega
  refine ⟨bit, hline ▸ hf, fun h32 => ?_⟩
  rw [← hline, ha]
  apply BitVec.eq_of_toNat_eq
  rw [RegBlock.toNat_base, toNat_regAddr h32]
  have hr := b.half_range
  split_ifs at hres hr <;> omega

/-- Each device is served in one pass. -/
theorem Kernel.Serves.once {L : Layout} {s t u : Kernel} {N : Nucleus} {d : Dev} (hs : s.Refines N)
    (hr : serveLine L s = .ok () t) (hu : Pass L t u) (h : u.Serves d) : ¬s.Serves d := by
  intro h'
  obtain ⟨bit, hf, -⟩ := h'.line
  obtain ⟨bit', hf', -⟩ := h.line
  exact lt_irrefl _ (hu.line_lt hs hr hf hf')

/-! ## The request -/

namespace Nucleus

/-- Process `p` is in I/O on device `d`, with its buffer at `v`. -/
structure InIo (L : Layout) (d : Dev) (p : Pcb) (v : Word) (N : Nucleus) : Prop where
  record : N.record L d = ⟨⟨0, 0, some p⟩, [], [p]⟩
  cmdAddr : (N.pcbs p).cmdAddr = regAddr d
  cmdValues : (N.pcbs p).cmdValues = v

variable {L : Layout} {N M : Nucleus} {d : Dev} {p c : Pcb} {v a : Word}

end Nucleus

section
variable {L : Layout} {B : Scope} {N M : Nucleus} {d : Dev} {p : Pcb} {v : Word}

namespace Nucleus

theorem InIo.waits (h : N.InIo L d p v) : p ∈ N.waiters (L.addr (.semSync d)) := by
  have hw : N.waiters (L.addr (.semSync d)) = [p] := congrArg Record.syncQueue h.record
  simp [hw]

theorem InIo.of_asked (h : N.InIo L d p v) (hr : M.record L d = N.record L d)
    (ha : M.asked p = N.asked p) : M.InIo L d p v :=
  ⟨hr.trans h.record, (congrArg Prod.fst ha).trans h.cmdAddr, (congrArg Prod.snd ha).trans h.cmdValues⟩

end Nucleus

theorem Moves.inIo (h : Moves L (elsewhere L d) N M) (hN : N.InIo L d p v) (hv : N.Valid) :
    M.InIo L d p v := by
  obtain ⟨hp, hc⟩ := hv.waiter_apart hN.waits
  exact hN.of_asked h.record (h.asked hp hc)

theorem Ending.inIo {e : Exit} (h : Ending L (elsewhere L d) N e M) (hN : N.InIo L d p v)
    (hv : N.Valid) (hlive : p ∉ M.free) : M.InIo L d p v := by
  obtain ⟨hp, hc⟩ := hv.waiter_apart hN.waits
  rcases h.record with hr | ⟨S, io, hS, hio, hr⟩
  · exact hN.of_asked hr (h.asked hp hc)
  · classical
    have hpS : p ∉ S := fun hm => hlive (hS p hm)
    have hn : ¬io := by
      intro hi
      obtain ⟨q, hq, hw⟩ := hio hi
      have : (N.gSysiostates d).waitingProcess = some p :=
        congrArg (fun r : Record => r.waitingProcess) hN.record
      exact hpS (Option.some.inj (hw.symm.trans this) ▸ hq)
    apply hN.of_asked _ (h.asked hp hc)
    rw [hr, hN.record]
    simp [Record.reap, hn, hpS]

namespace Runs
variable {c : Pcb} {cmdAddr : Word}

/-- `DOIO` on an idle device. -/
theorem sysDoIo_idle (h : N.record L d = ⟨⟨1, 0, none⟩, [], []⟩) (hc : N.gCurrentProcess = some p)
    (hd : d.val < 32) :
    Runs (Pandos.sysDoIo L (regAddr d) v) N (fun _ _ => False) fun _ M =>
      M.InIo L d p v ∧ M.gSoftBlockCount = N.gSoftBlockCount + 1 := by
  have hres := resolve_regAddr hd
  refine sysDoIo hc (fun hn => absurd (hn.symm.trans hres) (by omega)) fun d' hd' => ?_
  obtain rfl : d = d' := Fin.ext (by exact_mod_cast hres.symm.trans hd')
  -- the nucleus in which the request is made
  obtain ⟨P, hP, hr, hcP, hask, hsoft⟩ : ∃ P, N.request p (regAddr d) v = P ∧
      P.record L d = ⟨⟨1, 0, none⟩, [], []⟩ ∧ P.gCurrentProcess = some p ∧
      P.asked p = (regAddr d, v) ∧ P.gSoftBlockCount = N.gSoftBlockCount := by
    refine ⟨_, rfl, ?_, hc, ?_, rfl⟩
    · rw [← h]
      exact (N.quiet_request p (regAddr d) v hc).toTouch.record rfl
    · simp [Nucleus.asked, Nucleus.request, Queues.modPcb]
  rw [hP]
  have hmut : P.load L (L.addr (.semMut d)) = 1 := by
    rw [Globals.load_addr]
    exact congrArg (fun r : Record => r.semMut) hr
  have hnobody : P.waiters (L.addr (.semMut d)) = [] := congrArg Record.mutQueue hr
  apply semOp_changes (L.addr_ne_zero _) hmut hnobody
  obtain ⟨Q, hQ, hrQ, hcQ, haskQ, hsoftQ⟩ : ∃ Q, P.put L (L.addr (.semMut d)) (1 + -1) = Q ∧
      Q.record L d = ⟨⟨0, 0, none⟩, [], []⟩ ∧ Q.gCurrentProcess = some p ∧
      Q.asked p = (regAddr d, v) ∧ Q.gSoftBlockCount = N.gSoftBlockCount := by
    have hzero : (1 : Word) + -1 = 0 := by decide
    have ht := P.touch_put L (L.addr (.semMut d)) 0
    rw [hzero]
    refine ⟨_, rfl, ?_, ht.current.trans hcP, hask, ?_⟩
    · rw [Nucleus.record_put_mut, hr]
    · rw [← hsoft]
      simp [Nucleus.put, Globals.setWord, Globals.modDev]
  rw [hQ]
  refine ⟨p, hcQ, beginIo ?_⟩
  have hstart := Q.record_start (L := L) (d := d) (p := p)
  have ht := Q.touch_start p d
  have hsoftS : (Q.start d p).gSoftBlockCount = N.gSoftBlockCount + 1 := by
    rw [← hsoftQ]
    rfl
  have haskS : (Q.start d p).asked p = (regAddr d, v) := haskQ
  rw [hrQ] at hstart
  have hcS : (Q.start d p).gCurrentProcess = some p := ht.current.trans hcQ
  generalize Q.start d p = S at hstart hsoftS haskS hcS
  have hsync : S.load L (L.addr (.semSync d)) ≠ 1 := by
    rw [Globals.load_addr, show S.word (.semSync d) = 0 from
      congrArg (fun r : Record => r.semSync) hstart]
    decide
  apply semOp_blocks (L.addr_ne_zero _) hsync
  · intro hv c hcc hp
    obtain rfl : p = c := Option.some.inj (hcS.symm.trans hcc)
    have hask' : (S.suspend (L.addr (.semSync d)) p).schedule.2.asked p = (regAddr d, v) := by
      rw [Nucleus.asked_schedule, Nucleus.asked_suspend, haskS]
    refine ⟨⟨?_, congrArg Prod.fst hask', congrArg Prod.snd hask'⟩, ?_⟩
    · rw [Nucleus.record_schedule hp, Nucleus.record_suspend_sync hv hcS, hstart]
      rfl
    · rw [Nucleus.globals_schedule]
      exact hsoftS
  · intro hn
    cases hcS.symm.trans hn

/-- The interrupt completes the request. -/
theorem serveDevice_completes (h : N.InIo L d p v) (hd : d.val < 32) :
    Runs (Pandos.serveDevice L d (regAddr d)) N (fun _ M =>
      M.record L d = ⟨⟨1, 0, none⟩, [], []⟩ ∧ M.ready = N.ready ++ [p] ∧
      (∀ i < 4, M.mem (wordAt v i) = N.bus (wordAt (regAddr d) i)) ∧
      (M.pcbs p).pS.regV0 =
        (if N.bus (regAddr d) &&& deviceStatusMask = readyStatus then 0 else -1) ∧
      M.gSoftBlockCount = N.gSoftBlockCount - 1) fun _ _ => False := by
  have hentry : N.gSysiostates d = ⟨0, 0, some p⟩ := congrArg Record.toSysiostateT h.record
  have hlive : (N.gSysiostates d).semSync ≠ -1 := by
    have hzero : (0 : Word) ≠ -1 := by decide
    rwa [hentry]
  refine serveDevice (fun hs => absurd hs hlive) ?_ ?_
  · intro q _ hq
    obtain rfl : p = q := by
      rw [hentry] at hq
      exact Option.some.inj hq
    -- the nucleus in which the device is released
    obtain ⟨P, hP, hr, hready, hmem, hv0, hsoft⟩ : ∃ P,
        ((N.finish p).answer p (regAddr d)).ack (regAddr d) = P ∧
        P.record L d = N.record L d ∧ P.ready = N.ready ∧
        (∀ i < 4, P.mem (wordAt v i) = N.bus (wordAt (regAddr d) i)) ∧
        (P.pcbs p).pS.regV0 =
          (if N.bus (regAddr d) &&& deviceStatusMask = readyStatus then 0 else -1) ∧
        P.gSoftBlockCount = N.gSoftBlockCount - 1 := by
      refine ⟨_, rfl, Nucleus.record_complete, (N.touch_complete p (regAddr d)).ready, ?_, ?_, ?_⟩
      · intro i hi
        rw [Nucleus.ack_mem]
        show (N.toGlobals.collect (N.pcbs p).cmdAddr (N.pcbs p).cmdValues
          (getNumRegister (N.pcbs p).cmdAddr)).mem (wordAt v i) = _
        rw [h.cmdAddr, h.cmdValues, getNumRegister_regAddr hd]
        exact Globals.collect_mem (by decide) hi
      · have hbus : (N.finish p).bus = N.bus := by
          rw [Nucleus.finish, Globals.collect_eq]
        rw [Nucleus.ack_toQueues, Nucleus.answer, hbus, isTermReg_regAddr hd]
        simp only [Queues.modPcb, Function.update_self]
        rfl
      · rw [Nucleus.ack_gSoftBlockCount]
        rfl
    rw [hP]
    rw [h.record] at hr
    have hload : P.load L (L.addr (.semSync d)) = 0 := by
      rw [Globals.load_addr]
      exact congrArg (fun r : Record => r.semSync) hr
    have hw : P.waiters (L.addr (.semSync d)) = [p] := congrArg Record.syncQueue hr
    apply semOp_wakes (L.addr_ne_zero _) hload hw
    intro hv
    have hrW := Nucleus.record_wakeUp (L := L) hv.placed hw
    rw [hr] at hrW
    have hp : p ∉ P.ready := fun hm => by
      have hw' : p ∈ P.queue (.sem (L.addr (.semSync d))) := by
        rw [show P.queue (.sem (L.addr (.semSync d))) = [p] from hw]
        exact List.mem_singleton_self p
      cases hv.placed.apart.unique (show p ∈ P.queue .ready from hm) hw'
    refine passDevice (fun _ => ⟨?_, ?_, hmem, ?_, hsoft⟩) fun q l hq => ?_
    · rw [Nucleus.record_release, hrW]
      have hone : ((P.wakeUp p).gSysiostates d).semMut + 1 = 1 := by
        rw [show ((P.wakeUp p).gSysiostates d).semMut = 0 from
          congrArg (fun r : Record => r.semMut) hrW]
        decide
      rw [hone]
    · show (P.wakeUp p).queue .ready = _
      rw [Nucleus.queue_wakeUp, if_pos rfl, ← hready]
      exact congrArg (· ++ [p]) (Lists.unlink_of_not_mem hp)
    · rw [← hv0]
      show ((P.wakeUp p).pcbs p).pS.regV0 = _
      rw [Nucleus.pcbs_wakeUp, if_pos rfl]
    · cases (congrArg Record.mutQueue hrW).symm.trans hq
  · intro _ hn
    rw [hentry] at hn
    cases hn

end Runs

end

namespace Machine
variable {L : Layout} {m m' : Machine} {N : Nucleus} {t : Trap} {d : Dev} {p : Pcb} {v : Word}

/-- The event asks nothing of device `d`, does not serve it and does not
terminate `p`. -/
def Unconcerned (L : Layout) (d : Dev) (p : Pcb) (m : Machine) : Event → Prop
  | .exception t =>
    (t.Calls 5 → resolveDeviceAddress (t.old 8) ≠ d.val) ∧
    (excCode (t.old 1) = 0 → ∀ u, Pass L (m.trapped t).charged u → ¬u.Serves d) ∧
    p ∉ (m.step L (.exception t)).kernel.free
  | .wake => True

/-- The pass from `u` to `w` completes the request of `p` to device `d`. -/
structure Completes (L : Layout) (u w : Kernel) (d : Dev) (p : Pcb) (v : Word) : Prop where
  ready : w.ready = u.ready ++ [p]
  values : ∀ i < 4, w.mem (wordAt v i) = u.bus (wordAt (regAddr d) i)
  result : (w.pcbs p).pS.regV0 =
    if u.bus (regAddr d) &&& deviceStatusMask = readyStatus then 0 else -1
  idle : w.gSysiostates d = ⟨1, 0, none⟩
  nobody : w.waiters (L.addr (.semMut d)) = [] ∧ w.waiters (L.addr (.semSync d)) = []
  soft : w.gSoftBlockCount = u.gSoftBlockCount - 1

/-- A request outlasts what others do. -/
theorem Sound.inIo_step {e : Event} (hS : m.Sound N) (hI : N.InIo L d p v) (he : m.Enabled e)
    (huser : m.UserSemaphores L e) (hun : m.Unconcerned L d p e) :
    ∃ M, (m.step L e).kernel.Refines M ∧ M.InIo L d p v := by
  have hv := hS.refines.valid
  cases e with
  | wake =>
    obtain ⟨s', hstep, hs', hN⟩ := step_wake (L := L) hS.refines
    rw [hstep]
    exact ⟨_, hs', hI.of_asked (Nucleus.record_schedule hN) Nucleus.asked_schedule⟩
  | exception t =>
    obtain ⟨hio, hserve, hlive⟩ := hun
    have hcov : (elsewhere L d).Covers L (m.trapped t) := by
      by_cases h0 : excCode (t.old 1) = 0
      · have hn : ∀ k, t.Calls (k + 1) → False := fun k h => by have := h.1; omega
        apply hS.covers he
        · exact fun _ => ⟨trivial, fun u hu => elsewhere_allows (hserve h0 u hu)⟩
        · exact fun _ => trivial
        · exact fun h => (h.elim (hn 2) (hn 3)).elim
        · exact fun h => (hn 6 h).elim
        · exact fun h => (hn 4 h).elim
        · exact fun _ _ _ _ => trivial
        · exact fun _ _ _ _ => trivial
      · exact huser.covers hS he h0 hio
    obtain ⟨e, s', M, hstep, hM, hend⟩ := step_exception hS.refines hcov
    rw [hstep] at hlive ⊢
    rw [hM.free] at hlive
    refine ⟨M, hM, hend.inIo ?_ ⟨hv.placed, hv.tree, hv.current⟩ hlive⟩
    exact ⟨hI.record, hI.cmdAddr, hI.cmdValues⟩

/-- What a request that outlasts others ends in. -/
theorem Sound.completes (hS : m.Sound N) (hI : N.InIo L d p v) (hd : d.val < 32) {u : Kernel}
    (hu : Pass L (m.trapped t).charged u) (hs : u.Serves d) :
    ∃ w, serveLine L u = .ok () w ∧ Completes L u w d p v := by
  obtain ⟨-, href⟩ := updateProcessTime_ok (trapped_refines hS.refines t)
  obtain ⟨M, hM, hIM⟩ := hu.keeps (I := fun M => M.InIo L d p v) href
    (hI.of_asked rfl (by simp [Nucleus.asked, Nucleus.trapped])) fun s t' P hr hpass hP hIP => by
      obtain ⟨P', hP', hmv, -⟩ := (ends_of_ok hr).mp
        (serveLine_moves hP (elsewhere_allows (hs.once hP hr hpass)) s hP)
      exact ⟨P', hP', hmv.inIo hIP hP.valid⟩
  have hrun := Runs.serveLine_serves (L := L) (E := fun _ _ => False)
    (Q := fun _ P => P.record L d = ⟨⟨1, 0, none⟩, [], []⟩ ∧ P.ready = M.ready ++ [p] ∧
      (∀ i < 4, P.mem (wordAt v i) = M.bus (wordAt (regAddr d) i)) ∧
      (P.pcbs p).pS.regV0 =
        (if M.bus (regAddr d) &&& deviceStatusMask = readyStatus then 0 else -1) ∧
      P.gSoftBlockCount = M.gSoftBlockCount - 1) hM hs
    (fun bit ty hf hne hres => by
      have haddr : findDevRegAddr M.bus ty = regAddr d := by
        obtain ⟨bit', hf', hbase⟩ := hs.line
        have hb := hbase hd
        rw [hM.globals] at hf' hb
        obtain ⟨-, hline⟩ := Prod.mk.inj (Option.some.inj (hf.symm.trans hf'))
        rwa [Line.device.inj hline]
      rw [haddr]
      exact Runs.serveDevice_completes (N := M.clear bit)
        ⟨hIM.record, hIM.cmdAddr, hIM.cmdValues⟩ hd) u hM
  cases hw : serveLine L u with
  | error e w =>
    obtain ⟨_, _, hf⟩ := (ends_of_error hw).mp hrun
    exact hf.elim
  | ok _ w =>
    obtain ⟨P, hP, hrec, hready, hmem, hv0, hsoft⟩ := (ends_of_ok hw).mp hrun
    refine ⟨w, rfl, ?_, ?_, ?_, ?_, ⟨?_, ?_⟩, ?_⟩
    · rw [hP.ready, hready, hM.ready]
    · intro i hi
      rw [hP.globals, hmem i hi, hM.globals]
    · rw [hP.pcbs, hv0, hM.globals]
    · rw [hP.globals]
      exact congrArg Record.toSysiostateT hrec
    · rw [hP.waiters]
      exact congrArg Record.mutQueue hrec
    · rw [hP.waiters]
      exact congrArg Record.syncQueue hrec
    · rw [hP.globals, hsoft, hM.globals]

/-- A process that asks an idle device waits until the device is served, and
then it has its answer. The buffer at `t.old 9` is not in the kernel's data. -/
theorem doIo_end_to_end (h : Reachable L (UserSemaphores L) m) (hd : d.val < 32)
    (hidle : m.kernel.gSysiostates d = ⟨1, 0, none⟩) (hp : m.mode = .running p)
    (he : m.Enabled (.exception t)) (h5 : t.Calls 5) (ha : t.old 8 = regAddr d) :
    (m.step L (.exception t)).kernel.gSoftBlockCount = m.kernel.gSoftBlockCount + 1 ∧
    ∀ m', (m.step L (.exception t)).Leads L (fun m e => m.UserSemaphores L e ∧ m.Unconcerned L d p e) m' →
      ((m'.kernel.pcbs p).pSemAdd = L.addr (.semSync d) ∧ p ∉ m'.kernel.ready ∧
        m'.mode ≠ .running p) ∧
      ∀ t', m'.Enabled (.exception t') → excCode (t'.old 1) = 0 →
        ∀ u, Pass L (m'.trapped t').charged u → u.Serves d →
          ∃ w, serveLine L u = .ok () w ∧ Completes L u w d p (t.old 9) := by
  obtain ⟨N, hS, htend⟩ := h.device (tended_invariant L d) fun _ _ => id
  have hentry : N.gSysiostates d = ⟨1, 0, none⟩ := by
    rw [← hidle, hS.refines.globals]
  have hrec : N.record L d = ⟨⟨1, 0, none⟩, [], []⟩ := by
    have hmut : (N.record L d).semMut = 1 := congrArg (·.semMut) hentry
    cases htend with
    | idle _ _ _ hmq hsq =>
      rw [Nucleus.record, hentry, show N.waiters (L.addr (.semMut d)) = [] from hmq,
        show N.waiters (L.addr (.semSync d)) = [] from hsq]
    | busy hm | stale hm => exact absurd (hm.symm.trans hmut) (by decide)
  obtain ⟨e, s', M, hstep, hM, hI, hsoft⟩ := step_syscall (L := L) (E := fun _ M =>
    M.InIo L d p (t.old 9) ∧ M.gSoftBlockCount = N.gSoftBlockCount + 1) hS.refines h5.1 (by
      rw [syscall_doIo h5.2, ha]
      exact (Runs.sysDoIo_idle (N := (N.trapped t _).skip) hrec (hS.running p hp).1 hd).mono
        (fun _ _ => False.elim) fun _ _ => id)
  have hsoft' : (m.step L (.exception t)).kernel.gSoftBlockCount = m.kernel.gSoftBlockCount + 1 := by
    rw [hstep, hM.globals, hsoft, hS.refines.globals]
  refine ⟨hsoft', fun m' hrun => ?_⟩
  have hinv : ∃ P, m'.Sound P ∧ P.InIo L d p (t.old 9) := by
    induction hrun with
    | refl =>
      obtain ⟨M', hS'⟩ := hS.step he (L := L)
      have hM' : (m.step L (.exception t)).kernel.Refines M := hstep ▸ hM
      obtain rfl := hS'.refines.unique hM'
      exact ⟨M', hS', hI⟩
    | step _ he hok ih =>
      obtain ⟨P, hP, hIP⟩ := ih
      obtain ⟨Q, hQ, hIQ⟩ := hP.inIo_step hIP he hok.1 hok.2
      obtain ⟨Q', hSQ⟩ := hP.step he (L := L)
      obtain rfl := hSQ.refines.unique hQ
      exact ⟨Q', hSQ, hIQ⟩
  obtain ⟨P, hP, hIP⟩ := hinv
  have hplaced := hP.refines.placed
  obtain ⟨-, hsem⟩ := (hplaced.waiting _ _).mp hIP.waits
  refine ⟨⟨by rwa [hP.refines.pcbs], fun hr => ?_, fun hm => ?_⟩, ?_⟩
  · rw [hP.refines.ready] at hr
    exact L.addr_ne_zero _ (hsem.symm.trans (hplaced.semAdd_of_ready hr))
  · exact (hP.refines.valid.waiter_apart hIP.waits).2 (hP.running p hm).1
  · exact fun t' _ _ u hu hs => hP.completes hIP hd hu hs

/-- The first process asks the first disk for a block and its child does
something else. -/
def diskAsked : Machine := sampleBoot.run sampleLayout [call 1 0x20060000 0 0]

def diskAnswered : Kernel :=
  let m := diskAsked.run sampleLayout [call 5 0x10000054 0x20070000 0, call 6 0 0 0]
  (m.trapped (diskTrap m)).charged

theorem diskAnswered_serves : diskAnswered.Serves 0 :=
  ⟨0x800, 3, by decide +kernel⟩

theorem doIo_end_to_end_disk :
    ∃ w, serveLine sampleLayout diskAnswered = .ok () w ∧
      Completes sampleLayout diskAnswered w 0 19 0x20070000 := by
  have hreach : Reachable sampleLayout (UserSemaphores sampleLayout) diskAsked :=
    .run (.boot _ _ _) (by decide +kernel)
  have hx : diskAsked.Enabled (call 5 0x10000054 0x20070000 0 diskAsked) :=
    ⟨.inl ⟨19, by decide +kernel⟩, fun d => .inl rfl⟩
  obtain ⟨-, hrun⟩ := doIo_end_to_end hreach (d := 0) (p := 19)
    (t := callTrap 5 0x10000054 0x20070000 0 diskAsked) (by decide) (by decide +kernel)
    (by decide +kernel) hx (by decide +kernel) (by decide +kernel)
  obtain ⟨-, hserve⟩ := hrun
    (diskAsked.run sampleLayout [call 5 0x10000054 0x20070000 0, call 6 0 0 0]) (by
      apply Leads.step (e := call 6 0 0 0
        (diskAsked.run sampleLayout [call 5 0x10000054 0x20070000 0])) .refl
      · exact ⟨.inl ⟨18, by decide +kernel⟩, fun d => .inl rfl⟩
      · exact ⟨by decide +kernel, fun h => absurd h (by decide +kernel),
          fun h => absurd h (by decide +kernel), by decide +kernel⟩)
  exact hserve (diskTrap _) ⟨.inl ⟨18, by decide +kernel⟩, by decide +kernel⟩ (by decide +kernel)
    diskAnswered (.first _) diskAnswered_serves

end Machine

end Pandos
