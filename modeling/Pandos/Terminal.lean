import Pandos.Addressed
import Pandos.DoIo

/-!
# The transmitter of the first terminal

The interrupt of a terminal does not tell the transmitter from the receiver.
The handler takes it for the transmitter's when the transmitter shows success,
and for the receiver's otherwise.
-/

namespace Pandos
open Intrusive Outcome

/-- The receiver of the first terminal. -/
def receiver : Dev := 32

/-- The transmitter of the first terminal. -/
def transmitter : Dev := 33

/-- The status byte that a device shows. -/
def statusByte (bus : Word → Word) (d : Dev) : Word := bus (regAddr d) &&& deviceStatusMask

namespace Nucleus

/-- From `N` to `M` the request of `w` to the transmitter has been completed,
and the receiver has been left alone. -/
structure Transmitted (N M : Nucleus) (w : Pcb) : Prop where
  acked : M.hw transmitter ≠ .done
  unblocked : (M.pcbs w).pSemAdd = 0
  ready : w ∈ M.ready ∨ M.gCurrentProcess = some w
  values : ∀ i < 2, M.mem (wordAt (N.pcbs w).cmdValues i) = N.bus (wordAt (N.pcbs w).cmdAddr i)
  result : (M.pcbs w).pS.regV0 = if statusByte N.bus transmitter = transmitted then 0 else -1
  entry : M.gSysiostates receiver = N.gSysiostates receiver
  registers : ∀ i < 2, M.bus (wordAt (regAddr receiver) i) = N.bus (wordAt (regAddr receiver) i)

variable {L : Layout} {N P Q M : Nucleus} {w p c : Pcb} {a : Word}

theorem mem_ready_schedule (h : w ∈ N.ready) :
    w ∈ N.schedule.2.ready ∨ N.schedule.2.gCurrentProcess = some w := by
  cases hr : N.ready with
  | nil => simp [hr] at h
  | cons q l =>
    rw [schedule_cons hr]
    by_cases hq : w = q
    · exact .inr (congrArg some hq.symm)
    · exact .inl (Lists.mem_unlink.mpr ⟨h, hq⟩)

theorem Valid.waits (hv : P.Valid) (ha : a ≠ 0) (hw : w ∈ P.waiters a) : (P.pcbs w).pSemAdd ≠ 0 := by
  rwa [((hv.placed.waiting _ _).mp hw).2]

/-- To block somebody wakes nobody. -/
theorem suspend_waits (ha : a ≠ 0) (hw : (P.pcbs w).pSemAdd ≠ 0) :
    ((P.suspend a c).schedule.2.pcbs w).pSemAdd ≠ 0 := by
  rw [pcbs_schedule, semAdd_suspend]
  split
  · exact ha
  · exact hw

/-- Nothing that `Transmitted` says changes. -/
theorem Transmitted.keep (h : N.Transmitted P w) (hw : M.hw transmitter ≠ .done)
    (hs : (M.pcbs w).pSemAdd = (P.pcbs w).pSemAdd) (hv : (M.pcbs w).pS = (P.pcbs w).pS)
    (hr : w ∈ M.ready ∨ M.gCurrentProcess = some w) (hm : M.mem = P.mem)
    (he : M.gSysiostates receiver = P.gSysiostates receiver)
    (hb : ∀ i < 2, M.bus (wordAt (regAddr receiver) i) = P.bus (wordAt (regAddr receiver) i)) :
    N.Transmitted M w where
  acked := hw
  unblocked := hs.trans h.unblocked
  ready := hr
  values := hm ▸ h.values
  result := hv ▸ h.result
  entry := he.trans h.entry
  registers i hi := (hb i hi).trans (h.registers i hi)

end Nucleus

/-! ## Commands -/

namespace Globals
variable {g : Globals} {a v b : Word} {n : Int} {d : Dev}

theorem writeReg_hw (h : g.hw d ≠ .done) : (g.writeReg a v).hw d ≠ .done := by
  unfold writeReg
  cases commandOf a with
  | none => exact h
  | some e =>
    dsimp only
    split
    · exact h
    · by_cases he : d = e
      · simp [he]
      · rwa [Function.update_of_ne he]

/-- To give commands finishes none. -/
theorem submit_hw (h : g.hw d ≠ .done) : (g.submit a v n).hw d ≠ .done := by
  unfold submit
  induction List.range n.toNat generalizing g with
  | nil => exact h
  | cons i l ih => exact ih (writeReg_hw h)

/-- To give commands leaves other registers alone. -/
theorem submit_bus (h : ∀ i < n.toNat, b ≠ wordAt a i) : (g.submit a v n).bus b = g.bus b := by
  have hl : ∀ i ∈ List.range n.toNat, b ≠ wordAt a i := fun i hi => h i (List.mem_range.mp hi)
  unfold submit
  revert hl
  induction List.range n.toNat generalizing g with
  | nil => exact fun _ => rfl
  | cons i l ih =>
    intro hl
    rw [List.foldl_cons, ih fun j hj => hl j (List.mem_cons_of_mem i hj)]
    exact Function.update_of_ne (hl i List.mem_cons_self) _ _

end Globals

/-- What is at an address of the transmitter is not the receiver's. -/
theorem transmitter_registers {a : Word} (ha : resolveDeviceAddress a = transmitter.val) :
    getNumRegister a = 2 ∧ ∀ i < 2, ∀ j < 2, wordAt (regAddr receiver) i ≠ wordAt a j := by
  have hlow : 0x1000025c ≤ a.toNat ∧ a.toNat < 0x10000264 := by
    have h33 : (transmitter.val : Int) = 33 := rfl
    rw [resolveDeviceAddress_eq, h33] at ha
    split_ifs at ha <;> omega
  constructor
  · rw [getNumRegister_eq, if_neg (by omega), if_pos (by omega)]
  · intro i hi j hj h
    have hbase : (regAddr receiver).toNat = 0x10000254 := rfl
    have h := congrArg BitVec.toNat h
    simp only [wordAt, BitVec.toNat_add, BitVec.toNat_ofNat, hbase] at h
    omega

/-! ## The interrupt -/

namespace Nucleus
variable {N : Nucleus}

theorem ack_transmitter_hw : (N.ack (regAddr transmitter)).hw transmitter ≠ .done := by
  have hrange : regAddr transmitter ≥ devregStartAddr ∧ regAddr transmitter < termregEndAddr := by
    decide
  have hcommand : commandOf (regAddr transmitter + 4) = some transmitter := by decide +kernel
  rw [ack, if_pos hrange]
  simp only [Globals.writeAck, hcommand]
  split
  · simp
  · assumption

theorem ack_receiver_bus {i : Nat} (hi : i < 2) :
    (N.ack (regAddr transmitter)).bus (wordAt (regAddr receiver) i) =
      N.bus (wordAt (regAddr receiver) i) := by
  unfold ack
  split
  · have hne : ∀ i < 2, wordAt (regAddr receiver) i ≠ regAddr transmitter + 4 := by decide
    exact Function.update_of_ne (hne i hi) _ _
  · rfl

theorem answer_transmitter {w : Pcb} :
    ((N.answer w (regAddr transmitter)).pcbs w).pS.regV0 =
      if statusByte N.bus transmitter = transmitted then 0 else -1 := by
  have hterm : isTermReg (regAddr transmitter) = true := by decide
  have hboth : transmitted ||| received = transmitted := by decide
  simp only [answer, hterm, if_true, hboth, Queues.modPcb, Function.update_self]
  rfl

end Nucleus

namespace Runs
variable {L : Layout} {N P : Nucleus} {w p : Pcb} {l : List Pcb}

theorem load_start : (P.start transmitter p).load L (L.addr (.semSync transmitter)) =
    (P.gSysiostates transmitter).semSync := by
  have hrec := P.record_start (L := L) (d := transmitter) (p := p)
  rw [Globals.load_addr]
  exact congrArg (fun r : Record => r.semSync) hrec

theorem beginIo_transmitted (h : N.Transmitted P w) (hr : w ∈ P.ready)
    (hs : (P.gSysiostates transmitter).semSync ≠ 1)
    (ha : resolveDeviceAddress (P.asked p).1 = transmitter.val) :
    Runs (Pandos.beginIo L transmitter p) P (fun _ M => N.Transmitted M w)
      fun _ M => N.Transmitted M w := by
  obtain ⟨hnum, hapart⟩ := transmitter_registers ha
  have hS : N.Transmitted (P.start transmitter p) w := by
    apply h.keep
    · exact Globals.submit_hw h.acked
    · rfl
    · rfl
    · exact .inl hr
    · rw [Nucleus.start, Globals.submit_eq]
      rfl
    · rw [Nucleus.start, Globals.submit_eq]
      rfl
    · intro i hi
      apply Globals.submit_bus
      intro j hj
      have hnum' : getNumRegister (P.pcbs p).cmdAddr = 2 := hnum
      rw [hnum'] at hj
      exact hapart i hi j (by omega)
  have hload : (P.start transmitter p).load L (L.addr (.semSync transmitter)) ≠ 1 := load_start ▸ hs
  have hready : w ∈ (P.start transmitter p).ready := hr
  apply beginIo
  generalize P.start transmitter p = S at hS hload hready
  apply semOp_blocks (L.addr_ne_zero _) hload
  · intro hv c hc _
    have hwc : w ≠ c := by
      rintro rfl
      exact (hv.current w hc).1 hready
    have hg := Nucleus.globals_schedule (S.suspend (L.addr (.semSync transmitter)) c)
    apply hS.keep
    · rw [hg]
      exact hS.acked
    · rw [Nucleus.pcbs_schedule, Nucleus.semAdd_suspend, if_neg hwc]
    · rw [Nucleus.pcbs_schedule, Nucleus.pS_suspend, if_neg hwc]
    · exact Nucleus.mem_ready_schedule ((S.mem_suspend _ c _).mpr (.inl ⟨hready, hwc⟩))
    · rw [hg]
      rfl
    · rw [hg]
      rfl
    · intro i _
      rw [hg]
      rfl
  · exact fun _ => hS

theorem passDevice_transmitted (h : N.Transmitted P w) (hr : w ∈ P.ready)
    (hs : (P.gSysiostates transmitter).semSync ≠ 1)
    (ha : ∀ q ∈ (P.waiters (L.addr (.semMut transmitter))).head?,
      resolveDeviceAddress (P.asked q).1 = transmitter.val) :
    Runs (Pandos.passDevice L transmitter) P (fun _ M => N.Transmitted M w)
      fun _ M => N.Transmitted M w := by
  apply sound
  intro hv
  apply passDevice
  · intro _
    apply h.keep
    · exact h.acked
    · rfl
    · rfl
    · exact .inl hr
    · rfl
    · have hne : receiver ≠ transmitter := by decide
      simp [Nucleus.release, Globals.modDev, hne]
    · exact fun _ _ => rfl
  · intro q l hw
    have hq : q ∈ P.waiters (L.addr (.semMut transmitter)) := by simp [hw]
    have hwq : w ≠ q := by
      rintro rfl
      cases hv.placed.apart.unique (show w ∈ P.queue .ready from hr) hq
    have hpcbs : (P.toQueues.wake q).pcbs w = P.pcbs w := by
      simp [Queues.wake, Queues.unlink, Queues.modPcb, hwq]
    have hr' : w ∈ (P.toQueues.wake q).ready := Lists.mem_unlink.mpr ⟨hr, hwq⟩
    apply beginIo_transmitted
    · apply h.keep
      · exact h.acked
      · exact congrArg (·.pSemAdd) hpcbs
      · exact congrArg (·.pS) hpcbs
      · exact .inl hr'
      · rfl
      · rfl
      · exact fun _ _ => rfl
    · exact hr'
    · exact hs
    · rw [Nucleus.asked_take]
      exact ha q (by simp [hw])

/-- The interrupt of the transmitter completes the request of `w`. -/
theorem serveDevice_transmitted (hs : (N.gSysiostates transmitter).semSync = 0)
    (hwait : (N.gSysiostates transmitter).waitingProcess = some w)
    (hqueue : N.waiters (L.addr (.semSync transmitter)) = w :: l)
    (hasked : resolveDeviceAddress (N.asked w).1 = transmitter.val)
    (hnext : ∀ q ∈ (N.waiters (L.addr (.semMut transmitter))).head?,
      resolveDeviceAddress (N.asked q).1 = transmitter.val) :
    Runs (Pandos.serveDevice L transmitter (regAddr transmitter)) N (fun _ M => N.Transmitted M w)
      fun _ M => N.Transmitted M w := by
  have hlive : (N.gSysiostates transmitter).semSync ≠ -1 := by
    have hzero : (0 : Word) ≠ -1 := by decide
    rwa [hs]
  obtain ⟨hnum, hapart⟩ := transmitter_registers hasked
  refine serveDevice (fun hs => absurd hs hlive) ?_ fun _ hn => ?_
  · intro q _ hq
    obtain rfl : w = q := Option.some.inj (hwait.symm.trans hq)
    -- the nucleus in which the process is woken
    obtain ⟨P, hP, hrP, hask, hT⟩ : ∃ P,
        ((N.finish w).answer w (regAddr transmitter)).ack (regAddr transmitter) = P ∧
        P.record L transmitter = N.record L transmitter ∧ (∀ q, P.asked q = N.asked q) ∧
        (w ∈ (P.wakeUp w).ready → N.Transmitted (P.wakeUp w) w) := by
      have hbus : (N.finish w).bus = N.bus := by
        rw [Nucleus.finish, Globals.collect_eq]
      refine ⟨_, rfl, Nucleus.record_complete, fun _ => Nucleus.asked_complete,
        fun hready => ⟨?_, ?_, .inl hready, ?_, ?_, ?_, ?_⟩⟩
      · exact Nucleus.ack_transmitter_hw
      · rw [Nucleus.pcbs_wakeUp, if_pos rfl]
      · intro i hi
        show (((N.finish w).answer w _).ack _).mem _ = _
        rw [Nucleus.ack_mem]
        show (N.toGlobals.collect (N.pcbs w).cmdAddr (N.pcbs w).cmdValues
          (getNumRegister (N.pcbs w).cmdAddr)).mem _ = _
        rw [show getNumRegister (N.pcbs w).cmdAddr = (2 : Nat) from hnum]
        exact Globals.collect_mem (by decide) hi
      · rw [Nucleus.pcbs_wakeUp, if_pos rfl, Nucleus.ack_toQueues, ← hbus]
        exact Nucleus.answer_transmitter
      · show (((N.finish w).answer w _).ack _).gSysiostates _ = _
        rw [Nucleus.ack_gSysiostates]
        exact congrFun Nucleus.finish_gSysiostates _
      · intro i hi
        rw [← hbus]
        exact Nucleus.ack_receiver_bus hi
    rw [hP]
    have hsync : (P.gSysiostates transmitter).semSync = 0 :=
      (congrArg (fun r : Record => r.semSync) hrP).trans hs
    have hload : P.load L (L.addr (.semSync transmitter)) = 0 := by
      rw [Globals.load_addr]
      exact hsync
    have hwait : P.waiters (L.addr (.semSync transmitter)) = w :: l :=
      (congrArg Record.syncQueue hrP).trans hqueue
    have hmut : P.waiters (L.addr (.semMut transmitter)) =
        N.waiters (L.addr (.semMut transmitter)) := congrArg Record.mutQueue hrP
    have hne : L.addr (.semMut transmitter) ≠ L.addr (.semSync transmitter) := fun h => by
      cases L.addr_injective h
    apply semOp_wakes (L.addr_ne_zero _) hload hwait
    intro hv
    have hready : w ∈ (P.wakeUp w).ready := (P.mem_wakeUp .ready w).mpr (.inr ⟨rfl, rfl⟩)
    apply passDevice_transmitted (hT hready) hready
    · rw [show ((P.wakeUp w).gSysiostates transmitter).semSync = 0 from hsync]
      decide
    · rw [Nucleus.waiters_wakeUp hv.placed hwait, if_neg hne, hmut]
      intro q hq
      rw [Nucleus.asked_wakeUp, hask]
      exact hnext q hq
  · cases hwait.symm.trans hn

theorem passDevice_waits (hw : w ∈ P.waiters (L.addr (.semSync transmitter)))
    (hs : (P.gSysiostates transmitter).semSync ≠ 1) :
    Runs (Pandos.passDevice L transmitter) P (fun _ M => (M.pcbs w).pSemAdd ≠ 0)
      fun _ M => (M.pcbs w).pSemAdd ≠ 0 := by
  apply sound
  intro hv
  have hblocked := hv.waits (L.addr_ne_zero _) hw
  refine passDevice (fun _ => hblocked) fun q l hq => beginIo ?_
  have hwq : w ≠ q := by
    rintro rfl
    have hm : w ∈ P.waiters (L.addr (.semMut transmitter)) := by simp [hq]
    have hsame := Place.sem.inj (hv.placed.apart.unique hw hm)
    simp at hsame
  have hload : Globals.load L (Nucleus.start ⟨P.toQueues.wake q, P.toGlobals⟩ transmitter q).toGlobals
      (L.addr (.semSync transmitter)) ≠ 1 := load_start ▸ hs
  have hblocked' : ((P.toQueues.wake q).pcbs w).pSemAdd ≠ 0 := by
    simpa [Queues.wake, Queues.unlink, Queues.modPcb, hwq] using hblocked
  apply semOp_blocks (L.addr_ne_zero _) hload
  · exact fun _ _ _ _ => Nucleus.suspend_waits (L.addr_ne_zero _) hblocked'
  · exact fun _ => hblocked'

/-- The interrupt of the transmitter leaves `w` waiting if another process is
first, or if nobody is woken. -/
theorem serveDevice_waits (hw : w ∈ N.waiters (L.addr (.semSync transmitter)))
    (hn : ¬((N.gSysiostates transmitter).semSync = 0 ∧
      (N.waiters (L.addr (.semSync transmitter))).head? = some w)) :
    Runs (Pandos.serveDevice L transmitter (regAddr transmitter)) N
      (fun _ M => (M.pcbs w).pSemAdd ≠ 0) fun _ M => (M.pcbs w).pSemAdd ≠ 0 := by
  have tail : ∀ P : Nucleus, P.record L transmitter = N.record L transmitter →
      Runs (sysVerhogen L (L.addr (.semSync transmitter))) P
        (fun _ M => Runs (Pandos.passDevice L transmitter) M (fun _ M => (M.pcbs w).pSemAdd ≠ 0)
          fun _ M => (M.pcbs w).pSemAdd ≠ 0) fun _ M => (M.pcbs w).pSemAdd ≠ 0 := by
    intro P hP
    have hsync : (P.gSysiostates transmitter).semSync = (N.gSysiostates transmitter).semSync :=
      congrArg (fun r : Record => r.semSync) hP
    have hqueue : P.waiters (L.addr (.semSync transmitter)) = N.waiters (L.addr (.semSync transmitter)) :=
      congrArg Record.syncQueue hP
    rw [← hsync, ← hqueue] at hn
    rw [← hqueue] at hw
    apply sound
    intro hv
    have hblocked := hv.waits (L.addr_ne_zero _) hw
    apply semOp (L.addr_ne_zero _)
    · intro hl q l hq
      rw [Globals.load_addr] at hl
      have hl : (P.gSysiostates transmitter).semSync = 0 := hl
      have hwl : w ∈ l := by
        rw [hq] at hw hn
        refine (List.mem_cons.mp hw).resolve_left ?_
        rintro rfl
        exact hn ⟨hl, rfl⟩
      apply passDevice_waits
      · rwa [Nucleus.waiters_wakeUp hv.placed hq, if_pos rfl]
      · rw [show ((P.wakeUp q).gSysiostates transmitter).semSync = 0 from hl]
        decide
    · intro _ hnil
      rw [hnil] at hw
      cases hw
    · exact fun _ _ _ _ => Nucleus.suspend_waits (L.addr_ne_zero _) hblocked
    · exact fun _ _ => hblocked
  apply sound
  intro hv
  refine serveDevice (fun _ => ?_) (fun p _ _ => tail _ Nucleus.record_complete) fun _ _ => ?_
  · exact tail _ ((N.touch_ack _).record Nucleus.ack_gSysiostates)
  · exact hv.waits (L.addr_ne_zero _) hw

end Runs

/-- The transmitter of the first terminal interrupts, `w` waits for it and
nobody waits for the receiver. -/
structure Kernel.TransmitterPends (L : Layout) (s : Kernel) (w : Pcb) : Prop where
  line : ∃ bit, firstLine s.gOldState.cause = some (bit, .device termIntline)
  bitmap : s.bus (wordAt intdevBitmap (termIntline - 3)) &&& 1 ≠ 0
  hw : s.hw transmitter = .done
  waiting : (s.gSysiostates transmitter).waitingProcess = some w
  blocked : w ∈ s.waiters (L.addr (.semSync transmitter))
  alone : s.waiters (L.addr (.semSync receiver)) = []

/-- `w` is the first of those that the transmitter's semaphore wakes, and it and
the next one in line have asked for the transmitter. -/
structure Kernel.FirstInLine (L : Layout) (s : Kernel) (w : Pcb) : Prop where
  sync : (s.gSysiostates transmitter).semSync = 0
  first : (s.waiters (L.addr (.semSync transmitter))).head? = some w
  asked : resolveDeviceAddress (s.pcbs w).cmdAddr = transmitter.val
  next : ∀ q ∈ (s.waiters (L.addr (.semMut transmitter))).head?,
    resolveDeviceAddress (s.pcbs q).cmdAddr = transmitter.val

section
variable {L : Layout} {u : Kernel} {N : Nucleus} {w : Pcb}

/-- The half that an interrupt of the first terminal is taken for. -/
theorem findDevRegAddr_terminal {bus : Word → Word}
    (h : bus (wordAt intdevBitmap (termIntline - 3)) &&& 1 ≠ 0) :
    findDevRegAddr bus termIntline =
      regAddr (if statusByte bus transmitter = transmitted then transmitter else receiver) := by
  have hfirst : (List.range 8).find? (fun i =>
      bus (wordAt intdevBitmap (termIntline - 3)) &&& (1#32 <<< i) ≠ 0) = some 0 := by
    rw [show List.range 8 = 0 :: [1, 2, 3, 4, 5, 6, 7] from rfl]
    apply List.find?_cons_of_pos
    simpa using h
  have hterm : isTermReg (devAddr termIntline 0) = true := by decide
  have haddr : devAddr termIntline 0 + 8 = regAddr transmitter := by decide
  have hbase : devAddr termIntline 0 = regAddr receiver := by decide
  simp only [findDevRegAddr, hfirst, hterm, haddr, true_and]
  rw [show (bus (regAddr transmitter) &&& deviceStatusMask) = statusByte bus transmitter from rfl]
  split
  · rfl
  · exact hbase

theorem Kernel.TransmitterPends.serves (h : u.TransmitterPends L w) :
    u.Serves (if statusByte u.bus transmitter = transmitted then transmitter else receiver) := by
  obtain ⟨bit, hf⟩ := h.line
  refine ⟨bit, termIntline, hf, ?_⟩
  rw [findDevRegAddr_terminal h.bitmap]
  split
  · exact ⟨by decide, by decide⟩
  · exact ⟨by decide, by decide⟩

/-- An interrupt that is taken for the receiver's leaves `w` waiting. -/
theorem serveLine_receiver (hu : u.Refines N) (h : u.TransmitterPends L w)
    (hs : statusByte u.bus transmitter ≠ transmitted) :
    ((final (serveLine L) u).nucleus.pcbs w).pSemAdd ≠ 0 := by
  have hserves : ¬u.Serves transmitter := by
    rintro ⟨bit, ty, hf, -, hres⟩
    obtain ⟨bit', hf'⟩ := h.line
    obtain ⟨-, hty⟩ := Prod.mk.inj (Option.some.inj (hf.symm.trans hf'))
    rw [Line.device.inj hty, findDevRegAddr_terminal h.bitmap, if_neg hs] at hres
    exact absurd hres (by decide)
  have hallows : Scope.Allows L { elsewhere L transmitter with target := fun _ _ => False } u := by
    obtain ⟨hclock, hpreempt, hdevice, hstale, hpass⟩ := elsewhere_allows (L := L) hserves
    exact ⟨hclock, hpreempt, hdevice, hstale, hpass⟩
  have ha : ¬(elsewhere L transmitter).sem (L.addr (.semSync transmitter)) := fun h => h.2 rfl
  have hw : w ∈ N.waiters (L.addr (.semSync transmitter)) := hu.waiters _ ▸ h.blocked
  have hrun : Runs (serveLine L) N (fun _ M => (M.pcbs w).pSemAdd ≠ 0)
      fun _ M => (M.pcbs w).pSemAdd ≠ 0 := by
    apply (serveLine_moves hu hallows).keeps_valid.mono
    · rintro - M ⟨hM, hmv, -⟩
      apply hM.waits (L.addr_ne_zero _)
      rwa [hmv.waiters ha]
    · rintro e M ⟨hM, hend⟩
      apply hM.waits (L.addr_ne_zero _)
      apply hend.waits ha hw
      exact fun hf => (hu.valid.waiter_apart hw).1 (hend.free (fun _ _ => id) hf)
  exact hrun.final hu

/-- What an interrupt that is taken for the transmitter's does. -/
theorem serveLine_transmitter {P : Nucleus → Prop} (hu : u.Refines N) (h : u.TransmitterPends L w)
    (hs : statusByte u.bus transmitter = transmitted)
    (hserve : ∀ bit, Runs (serveDevice L transmitter (regAddr transmitter)) (N.clear bit)
      (fun _ => P) fun _ => P) : P (final (serveLine L) u).nucleus := by
  have hserves := h.serves
  rw [if_pos hs] at hserves
  have hrun := Runs.serveLine_serves (L := L) (E := fun _ => P) (Q := fun _ => P) hu hserves
    fun bit ty hf _ _ => by
      obtain ⟨bit', hf'⟩ := h.line
      have hb := findDevRegAddr_terminal h.bitmap
      rw [hu.globals] at hf' hb hs
      obtain ⟨-, hty⟩ := Prod.mk.inj (Option.some.inj (hf.symm.trans hf'))
      rw [Line.device.inj hty, hb, if_pos hs]
      exact hserve bit
  exact hrun.final hu

end

namespace Machine
variable {L : Layout} {ok : Machine → Event → Prop} {m : Machine} {t : Trap} {u : Kernel} {N : Nucleus}
  {w : Pcb}

/-- In every state, `w` gets its answer only if it is the first that the
transmitter's semaphore wakes. -/
theorem first_of_transmitted (hN : u.Refines N) (hp : u.TransmitterPends L w)
    (hT : u.nucleus.Transmitted (final (serveLine L) u).nucleus w) :
    statusByte u.bus transmitter = transmitted ∧ (u.gSysiostates transmitter).semSync = 0 ∧
      (u.waiters (L.addr (.semSync transmitter))).head? = some w := by
  have hsem := hT.unblocked
  by_cases hs : statusByte u.bus transmitter = transmitted
  swap
  · exact absurd hsem (serveLine_receiver hN hp hs)
  refine ⟨hs, ?_⟩
  by_contra hn
  have hblocked : w ∈ N.waiters (L.addr (.semSync transmitter)) := hN.waiters _ ▸ hp.blocked
  rw [hN.globals, hN.waiters] at hn
  refine serveLine_transmitter (P := fun M => (M.pcbs w).pSemAdd ≠ 0) hN hp hs (fun bit => ?_) hsem
  exact Runs.serveDevice_waits (N := N.clear bit) hblocked hn

/-- In every state, the first process gets its answer if it and the next one
have asked for the transmitter. -/
theorem transmitted_of_first (hN : u.Refines N) (hp : u.TransmitterPends L w)
    (hs : statusByte u.bus transmitter = transmitted) (hf : u.FirstInLine L w) :
    u.nucleus.Transmitted (final (serveLine L) u).nucleus w := by
  obtain ⟨hsync, hfirst, hasked, hnext⟩ := hf
  have hwait := hp.waiting
  rw [hN.globals] at hsync hwait
  rw [hN.waiters] at hfirst hnext
  rw [hN.pcbs] at hasked hnext
  obtain ⟨l, hqueue⟩ := List.head?_eq_some_iff.mp hfirst
  have hT := serveLine_transmitter (P := fun M => N.Transmitted M w) hN hp hs fun bit => by
    have hrun := Runs.serveDevice_transmitted (N := N.clear bit) hsync hwait hqueue hasked hnext
    have same : ∀ M : Nucleus, (N.clear bit).Transmitted M w → N.Transmitted M w := fun M h =>
      ⟨h.acked, h.unblocked, h.ready, h.values, h.result, h.entry, h.registers⟩
    exact hrun.mono (fun _ => same) fun _ => same
  rwa [hN.nucleus_eq]

/-- Where processes leave the kernel's semaphores alone, the one that waits for
the transmitter is first in line as long as it is alive. -/
theorem first_in_line (h : Reachable L ok m) (hok : ∀ m e, ok m e → m.UserSemaphores L e)
    (hu : Pass L (m.trapped t).charged u) (hp : u.TransmitterPends L w) (hn : (u.gSysiostates transmitter).semSync ≠ -1) :
    u.FirstInLine L w := by
  let hinv := addressed_invariant L transmitter
  obtain ⟨N₀, hS, hI⟩ := h.device hinv hok
  have hs₀ := trapped_refines hS.refines t
  obtain ⟨-, hcharged⟩ := updateProcessTime_ok hs₀
  have hI₀ := hinv.moves hs₀.valid (.single .charge) (hinv.trap t _ hI)
  obtain ⟨N, hN, htend, haddr⟩ := hinv.pass hu hcharged hI₀
  have hblocked : w ∈ N.waiters (L.addr (.semSync transmitter)) := hN.waiters _ ▸ hp.blocked
  have hwait := hp.waiting
  rw [hN.globals] at hwait hn
  have hsync : (N.gSysiostates transmitter).semSync = 0 ∧
      (N.waiters (L.addr (.semSync transmitter))).length ≤ 1 := by
    cases htend with
    | idle _ hnone => cases hwait.symm.trans hnone
    | busy _ hs hl => exact ⟨hs, hl⟩
    | stale _ hs => exact absurd hs hn
  have hone : N.waiters (L.addr (.semSync transmitter)) = [w] := by
    obtain ⟨q, hq⟩ := List.length_eq_one_iff.mp
      (le_antisymm hsync.2 (List.length_pos_of_mem hblocked))
    rw [hq] at hblocked ⊢
    rw [List.mem_singleton.mp hblocked]
  constructor
  · rw [hN.globals]
    exact hsync.1
  · rw [hN.waiters, hone]
    rfl
  · rw [hN.pcbs]
    exact haddr.awaited w hwait hn hblocked
  · rw [hN.waiters, hN.pcbs]
    exact fun q hq => haddr.queued q (List.mem_of_mem_head? hq)

/-- The interrupt of the transmitter completes the request exactly when the
transmitter shows success and the process that asked is still there. In runs in
which processes meddle with the kernel's semaphores it has to be the first to be
woken, and that is enough where those that wait have asked for the transmitter. -/
theorem transmitter_completed (h : Reachable L ok m)
    (hu : Pass L (m.trapped t).charged u) (hp : u.TransmitterPends L w) :
    ((∀ m e, ok m e → m.UserSemaphores L e) →
      (u.nucleus.Transmitted (final (serveLine L) u).nucleus w ↔
        statusByte u.bus transmitter = transmitted ∧ (u.gSysiostates transmitter).semSync ≠ -1)) ∧
    (u.nucleus.Transmitted (final (serveLine L) u).nucleus w →
      statusByte u.bus transmitter = transmitted ∧ (u.gSysiostates transmitter).semSync = 0 ∧
        (u.waiters (L.addr (.semSync transmitter))).head? = some w) ∧
    (statusByte u.bus transmitter = transmitted → u.FirstInLine L w →
      u.nucleus.Transmitted (final (serveLine L) u).nucleus w) := by
  obtain ⟨N₀, hS⟩ := h.sound
  obtain ⟨N, hN, -⟩ := hu.sound (updateProcessTime_ok (trapped_refines hS.refines t)).2
  refine ⟨fun hok => ⟨fun hT => ?_, fun ⟨hs, hn⟩ => ?_⟩, first_of_transmitted hN hp,
    transmitted_of_first hN hp⟩
  · obtain ⟨hs, hsync, -⟩ := first_of_transmitted hN hp hT
    refine ⟨hs, ?_⟩
    rw [hsync]
    decide
  · exact transmitted_of_first hN hp hs (first_in_line h hok hu hp hn)

/-- The first process waits for the transmitter of the first terminal. -/
def printWait : Machine := sampleBoot.run sampleLayout [call 5 0x1000025c 0x20060000 0]

/-- The interrupt with which the transmitter shows `status`. -/
def transmitterTrap (status : Word) : Trap :=
  interruptTrap 0x8000 [(0x10000050, 1), (0x1000025c, status)] [transmitter] printWait

/-- A request that succeeds. -/
theorem transmitter_completed_success :
    let u := (printWait.trapped (transmitterTrap 5)).charged
    u.nucleus.Transmitted (final (serveLine sampleLayout) u).nucleus 19 := by
  have hrun : Reachable sampleLayout (UserSemaphores sampleLayout) printWait :=
    .run (.boot _ _ _) (by decide +kernel)
  have hp : (printWait.trapped (transmitterTrap 5)).charged.TransmitterPends sampleLayout 19 := by
    exact ⟨⟨0x8000, by decide +kernel⟩, by decide +kernel, by decide +kernel, by decide +kernel,
      by decide +kernel, by decide +kernel⟩
  exact ((transmitter_completed hrun (.first _) hp).1 fun _ _ => id).mpr (by decide +kernel)

/-- A request that the transmitter ends with an error is not completed. -/
theorem transmitter_error_lost :
    let u := (printWait.trapped (transmitterTrap 4)).charged
    Reachable sampleLayout (Lawful sampleLayout) printWait ∧
      printWait.Enabled (.exception (transmitterTrap 4)) ∧
      u.TransmitterPends sampleLayout 19 ∧
      ¬u.nucleus.Transmitted (final (serveLine sampleLayout) u).nucleus 19 := by
  refine ⟨.run (.boot _ _ _) (by decide +kernel), ⟨.inr (by decide +kernel), by decide +kernel⟩, ?_, ?_⟩
  · exact ⟨⟨0x8000, by decide +kernel⟩, by decide +kernel, by decide +kernel, by decide +kernel,
      by decide +kernel, by decide +kernel⟩
  · exact fun h => absurd h.unblocked (by decide +kernel)

end Machine

end Pandos
