import Pandos.DoIo
import Pandos.Requests

/-!
# Outstanding commands

A device is free when its hardware has no command, and answers to the process
that is blocked on it otherwise, as long as no process in I/O is terminated and
no process waits for a device that interrupts.
-/

namespace Pandos
open Intrusive Outcome

/-! ## The hardware -/

/-- The devices whose command registers are among the words that `DOIO` writes. -/
def commanded (cmdAddr : Word) : List Dev :=
  (List.range (getNumRegister cmdAddr).toNat).filterMap fun i => commandOf (wordAt cmdAddr i)

theorem commandOf_regAddr : ∀ d : Dev, d.val < 34 → commandOf (regAddr d + 4) = some d := by
  decide +kernel

theorem regAddr_range : ∀ d : Dev, d.val < 34 →
    regAddr d ≥ devregStartAddr ∧ regAddr d < termregEndAddr := by
  decide +kernel

/-- An interrupt is served at the registers of its device. -/
theorem regAddr_of_serves {bus : Word → Word} {line : Nat} {d : Dev} (hl : 3 ≤ line ∧ line ≤ 7)
    (hne : findDevRegAddr bus line ≠ 0)
    (hres : resolveDeviceAddress (findDevRegAddr bus line) = d.val) :
    findDevRegAddr bus line = regAddr d ∧ d.val < 34 := by
  obtain ⟨b, hb, ha⟩ := (findDevRegAddr_block bus hl).resolve_left hne
  have hline := b.line_range
  have hdev := b.dev_range
  have hhalf := b.half_range
  rw [ha, RegBlock.resolve_of_holds b.holds_base] at hres
  have hd : d.val < 34 := by
    split_ifs at hres hhalf <;> omega
  refine ⟨?_, hd⟩
  have hreg : (regAddr d).toNat =
      if d.val < 32 then 0x10000054 + 16 * d.val else 0x10000254 + 8 * (d.val - 32) := by
    have hstart : devregStartAddr.toNat = 0x10000054 := rfl
    have hterm : termregStartAddr.toNat = 0x10000254 := rfl
    rw [regAddr]
    split_ifs
    · rw [BitVec.toNat_add, BitVec.toNat_ofNat, hstart]
      omega
    · rw [BitVec.toNat_add, BitVec.toNat_ofNat, hterm]
      omega
  apply BitVec.eq_of_toNat_eq
  rw [ha, RegBlock.toNat_base, hreg]
  split_ifs at hres hhalf ⊢ <;> omega

namespace Globals
variable {g : Globals} {a v : Word} {d e : Dev}

theorem writeReg_hw_other (h : commandOf a ≠ some e) : (g.writeReg a v).hw e = g.hw e := by
  unfold writeReg
  cases hc : commandOf a with
  | none => rfl
  | some d =>
    have hne : e ≠ d := fun he => h (hc.trans (congrArg some he.symm))
    dsimp only
    split
    · rfl
    · exact Function.update_of_ne hne _ _

theorem writeReg_hw_busy (h : commandOf a = some d ∨ g.hw d ≠ .idle) :
    (g.writeReg a v).hw d ≠ .idle := by
  unfold writeReg
  cases hc : commandOf a with
  | none =>
    exact h.resolve_left fun hd => by cases hc.symm.trans hd
  | some e =>
    dsimp only
    by_cases hd : d = e
    · subst hd
      split
      · next hb =>
        rw [hb]
        nofun
      · simp
    · have hidle : g.hw d ≠ .idle := h.resolve_left fun hd' =>
        hd (Option.some.inj (hd'.symm.trans hc))
      split
      · exact hidle
      · rwa [Function.update_of_ne hd]

/-- A request starts its device and no other. -/
theorem submit_hw_only (h : commanded a = [d]) :
    (g.submit a v (getNumRegister a)).hw d ≠ .idle ∧
      ∀ e, e ≠ d → (g.submit a v (getNumRegister a)).hw e = g.hw e := by
  have other : ∀ e, e ≠ d → ∀ i ∈ List.range (getNumRegister a).toNat,
      commandOf (wordAt a i) ≠ some e := by
    intro e he i hi hc
    have hm : e ∈ commanded a := List.mem_filterMap.mpr ⟨i, hi, hc⟩
    rw [h] at hm
    exact he (List.mem_singleton.mp hm)
  have own : ∃ i ∈ List.range (getNumRegister a).toNat, commandOf (wordAt a i) = some d := by
    apply List.mem_filterMap.mp
    show d ∈ commanded a
    simp [h]
  unfold submit
  generalize List.range (getNumRegister a).toNat = l at other own
  constructor
  · have start : (∃ i ∈ l, commandOf (wordAt a i) = some d) ∨ g.hw d ≠ .idle := .inl own
    clear other own
    induction l generalizing g with
    | nil =>
      rcases start with ⟨i, hi, -⟩ | hidle
      · cases hi
      · exact hidle
    | cons i l ih =>
      apply ih
      rcases start with ⟨j, hj, hc⟩ | hidle
      · rcases List.mem_cons.mp hj with rfl | hj
        · exact .inr (writeReg_hw_busy (.inl hc))
        · exact .inl ⟨j, hj, hc⟩
      · exact .inr (writeReg_hw_busy (.inr hidle))
  · intro e he
    replace other := other e he
    clear own
    induction l generalizing g with
    | nil => rfl
    | cons i l ih =>
      rw [List.foldl_cons, ih fun j hj => other j (List.mem_cons_of_mem i hj)]
      exact writeReg_hw_other (other i List.mem_cons_self)

end Globals

namespace Nucleus
variable {N : Nucleus} {d e : Dev} {p c : Pcb} {a : Word}

/-- To acknowledge a device frees its hardware. -/
theorem ack_hw (hd : d.val < 34) (h : N.hw d = .done) :
    (N.ack (regAddr d)).hw = Function.update N.hw d .idle := by
  rw [ack, if_pos (regAddr_range d hd)]
  simp only [Globals.writeAck, commandOf_regAddr d hd, if_pos h]

/-- To start a request commands the device. -/
theorem start_hw (h : commanded (N.pcbs p).cmdAddr = [d]) :
    (N.start d p).hw d ≠ .idle ∧ ∀ e, e ≠ d → (N.start d p).hw e = N.hw e :=
  Globals.submit_hw_only (g := N.toGlobals.modDev d ({ · with waitingProcess := some p })) h

end Nucleus

/-! ## The invariant -/

/-- A device is free, or `waiting_process` is blocked on `sem_sync` until its
command is finished. -/
inductive Record.Serving (r : Record) (hw : DevPhase) : Prop
  | idle : r = ⟨⟨1, 0, none⟩, [], []⟩ → hw = .idle → Serving r hw
  | busy {w : Pcb} {q : List Pcb} : r = ⟨⟨0, 0, some w⟩, q, [w]⟩ → hw ≠ .idle → Serving r hw

/-- All devices are in order. -/
def Nucleus.Orderly (L : Layout) (N : Nucleus) : Prop := ∀ d, (N.record L d).Serving (N.hw d)

/-- Neither `p` nor anybody below it is in I/O. -/
def Nucleus.SparesIo (N : Nucleus) (p : Pcb) : Prop :=
  ∀ q, q = p ∨ N.Below p q → ∀ d, (N.gSysiostates d).waitingProcess ≠ some q

/-- Anything but the semaphores and the interrupts of devices. -/
def offDevices (L : Layout) : Scope :=
  { anyScope with
    sem := fun a => ∀ d, a ≠ L.addr (.semMut d) ∧ a ≠ L.addr (.semSync d)
    device := fun _ => False
    target := fun N p => N.SparesIo p }

section
variable {L : Layout} {B : Scope} {N M : Nucleus} {e : Exit} {d : Dev}

theorem Move.hw (h : Move L B N M) (hd : ∀ d, ¬B.device d) : M.hw = N.hw := by
  cases h with
  | quiet h => exact h.hw
  | device h => exact absurd h (hd _)
  | clock _ _ _ h => exact h
  | charge | restart | wake | take | create => rfl

theorem Moves.hw (h : Moves L B N M) (hd : ∀ d, ¬B.device d) : M.hw = N.hw := by
  induction h with
  | refl => rfl
  | tail _ h ih => exact (h.hw hd).trans ih

theorem Nucleus.Orderly.of_eq (h : N.Orderly L) (hr : M.record L = N.record L) (hh : M.hw = N.hw) :
    M.Orderly L := by
  intro d
  rw [hr, hh]
  exact h d

theorem Nucleus.Orderly.schedule (h : N.Orderly L) (hN : N.Placed) : N.schedule.2.Orderly L := by
  apply h.of_eq (Nucleus.records_schedule hN)
  rw [Nucleus.globals_schedule]

theorem Moves.orderly (h : Moves L (offDevices L) N M) (hN : N.Orderly L) : M.Orderly L := by
  apply hN.of_eq _ (h.hw fun _ => id)
  funext d
  exact h.record_frame (fun ha => (ha d).1 rfl) (fun ha => (ha d).2 rfl) id

/-- To terminate processes that are not in I/O leaves the devices in order. -/
theorem Nucleus.Orderly.reap {S : List Pcb} (h : N.Orderly L) (hr : Nucleus.Reaped L S N M)
    (hS : ∀ q ∈ S, ∀ d, (N.gSysiostates d).waitingProcess ≠ some q) : M.Orderly L := by
  intro d
  have hsync : M.gSysiostates d = N.gSysiostates d := by
    rw [hr.sync, if_neg]
    rintro ⟨q, hq, hio⟩
    exact hS q hq d (Nucleus.ioDevice_waiting hio)
  have hrec : M.record L d = ⟨(N.record L d).toSysiostateT,
      (N.record L d).mutQueue.filter (· ∉ S), (N.record L d).syncQueue.filter (· ∉ S)⟩ := by
    rw [Nucleus.record, hsync, hr.waiters, hr.waiters]
    rfl
  have hhw : M.hw d = N.hw d := by rw [hr.rest]
  rw [hrec, hhw]
  cases h d with
  | idle hrec hidle => exact .idle (by simp [hrec]) hidle
  | @busy w q hrec hbusy =>
    have hw : w ∉ S := by
      intro hw
      apply hS w hw d
      exact congrArg (fun r : Record => r.waitingProcess) hrec
    exact .busy (w := w) (q := q.filter (· ∉ S)) (by simp [hrec, hw]) hbusy

theorem Nucleus.Orderly.quiet (h : N.Orderly L) (hq : N.Quiet M) : M.Orderly L :=
  h.of_eq (funext fun _ => hq.toTouch.record hq.sysiostates) hq.hw

/-- Only device `d` is dealt with. -/
theorem Nucleus.Orderly.update {r : Record} (h : N.Orderly L)
    (hr : M.record L = Function.update (N.record L) d r) (hh : ∀ e, e ≠ d → M.hw e = N.hw e)
    (hd : r.Serving (M.hw d)) : M.Orderly L := by
  show ∀ e, (M.record L e).Serving (M.hw e)
  rw [hr, Function.forall_update_iff (N.record L) fun e r => r.Serving (M.hw e)]
  refine ⟨hd, fun e he => ?_⟩
  rw [hh e he]
  exact h e

/-- Devices finish their commands by themselves. -/
theorem Nucleus.Orderly.trapped {t : Trap} {waiting : Bool} (h : N.Orderly L)
    (ht : ∀ d, t.hw d = N.hw d ∨ N.hw d = .busy ∧ t.hw d = .done) :
    (N.trapped t waiting).Orderly L := by
  intro d
  show (N.record L d).Serving (t.hw d)
  cases h d with
  | idle hr hidle =>
    rcases ht d with hd | ⟨hb, -⟩
    · exact .idle hr (hd.trans hidle)
    · cases hidle.symm.trans hb
  | busy hr hbusy =>
    apply Record.Serving.busy hr
    rcases ht d with hd | ⟨-, hd⟩
    · rwa [hd]
    · rw [hd]
      nofun

theorem Ending.orderly (h : Ending L (offDevices L) N e M) (hN : N.Orderly L) : M.Orderly L := by
  obtain ⟨N', hmv, hl⟩ := h
  have hN' := hmv.orderly hN
  cases hl with
  | stay => exact hN'
  | @block a c hv ha _ hc hp =>
    apply Nucleus.Orderly.schedule _ hp
    exact hN'.of_eq (funext fun d => Nucleus.record_suspend_ne hv hc (ha d).1 (ha d).2) rfl
  | @preempt c hv _ hc hp =>
    apply Nucleus.Orderly.schedule _ hp
    exact hN'.of_eq (funext fun d => Nucleus.record_preempt hv hc) rfl
  | kill _ ht hr hS hp =>
    apply Nucleus.Orderly.schedule _ hp
    exact hN'.reap hr fun q hq => ht q ((hS q).mp hq)

theorem offDevices_clock : (offDevices L).sem (L.addr .clock) := by
  simp [offDevices]

theorem offDevices_allows {s : Kernel} (hd : ∀ d, ¬s.Serves d) : (offDevices L).Allows L s where
  clock _ _ := ⟨trivial, offDevices_clock⟩
  preempt _ _ := trivial
  device d h := absurd h (hd d)
  stale d h := absurd h (hd d)
  pass d h := absurd h (hd d)

namespace Runs
variable {c : Pcb} {a v : Word}

/-- A `DOIO` that commands the device it names. -/
theorem sysDoIo_orderly (hN : N.Orderly L) (hc : N.gCurrentProcess = some c)
    (hd : resolveDeviceAddress a = d.val) (ha : commanded a = [d]) :
    Runs (Pandos.sysDoIo L a v) N (fun _ _ => False) fun _ M => M.Orderly L := by
  cases hN d with
  | idle hr hidle =>
    apply (sysDoIo_enters hr hc hd).mono (fun _ _ => id)
    intro e M hM
    have hrec : ((N.request c a v).put L (L.addr (.semMut d)) 0).record L =
        Function.update (N.record L) d ⟨⟨0, 0, none⟩, [], []⟩ := by
      rw [Nucleus.records_put_mut,
        funext fun e => (N.quiet_request c a v hc).toTouch.record (L := L) (d := e) rfl, hr]
    obtain ⟨P, hP⟩ : ∃ P, (N.request c a v).put L (L.addr (.semMut d)) 0 = P := ⟨_, rfl⟩
    rw [hP] at hM hrec
    have hhw : M.hw = (P.start d c).hw := by
      rw [hM.eq, Nucleus.globals_schedule]
      rfl
    have hcmd : commanded (P.pcbs c).cmdAddr = [d] := by
      rw [← hP]
      simpa [Nucleus.put, Nucleus.request, Queues.modPcb] using ha
    have hsame : P.hw = N.hw := by
      rw [← hP, Nucleus.put, Globals.store_eq]
      rfl
    obtain ⟨hbusy, hother⟩ := Nucleus.start_hw hcmd
    apply hN.update (d := d) (r := ⟨⟨0, 0, some c⟩, [], [c]⟩)
    · rw [hM.records, hrec, Function.update_self, Function.update_idem]
      rfl
    · intro e he
      rw [hhw, hother e he, hsame]
    · exact .busy rfl (by rwa [hhw])
  | busy hr hbusy =>
    have hm : (N.record L d).semMut = 0 := by rw [hr]
    apply (sysDoIo_joins hm hc hd).mono (fun _ _ => id)
    intro e M hM
    have hrec := fun e => (N.quiet_request c a v hc).toTouch.record (L := L) (d := e) rfl
    have hhw : M.hw = N.hw := by
      rw [hM.eq, Nucleus.globals_schedule]
      rfl
    apply (hN.quiet (N.quiet_request c a v hc)).update hM.records
    · intro e _
      rw [hhw]
      rfl
    · rw [hrec, hr, hhw]
      exact .busy rfl hbusy

/-- An interrupt of a device that has finished its command, with nobody waiting
for the device. -/
theorem serveDevice_orderly (hN : N.Orderly L) (h34 : d.val < 34) (hd : N.hw d = .done)
    (hq : N.waiters (L.addr (.semMut d)) = [] ∨ N.gCurrentProcess = none) :
    Runs (Pandos.serveDevice L d (regAddr d)) N (fun _ M => M.Orderly L)
      fun e M => e = .fault ∨ M.Orderly L := by
  cases hN d with
  | idle _ hidle => cases hidle.symm.trans hd
  | @busy w q hr _ =>
    have hmq : N.waiters (L.addr (.semMut d)) = q := congrArg Record.mutQueue hr
    apply (serveDevice_finishes hr).mono
    · rintro - M ⟨P, hP, rfl, rfl⟩
      have hsq : (N.record L d).syncQueue = [w] := by rw [hr]
      have hhw : P.hw = Function.update N.hw d .idle := by
        rw [hP.eq]
        have hf : ((N.finish w).answer w (regAddr d)).hw = N.hw := by
          rw [Nucleus.answer, Nucleus.finish, Globals.collect_eq]
        show (((N.finish w).answer w (regAddr d)).ack (regAddr d)).hw = _
        rw [Nucleus.ack_hw h34 (by rw [hf, hd]), hf]
      have hrec : P.record L d = ⟨⟨0, 0, some w⟩, [], []⟩ := by
        rw [hP.records hsq, Function.update_self, hr]
      have hone : (0 : Word) + 1 = 1 := by decide
      apply hN.update (d := d) (r := ⟨⟨1, 0, none⟩, [], []⟩)
      · have hentry : (P.gSysiostates d).semMut = 0 := congrArg (fun r : Record => r.semMut) hrec
        rw [Nucleus.records_release, hrec, hentry, hone, hP.records hsq, Function.update_idem]
      · intro e he
        show P.hw e = _
        rw [hhw, Function.update_of_ne he]
      · apply Record.Serving.idle rfl
        show P.hw d = _
        rw [hhw, Function.update_self]
    · rintro e M (he | ⟨P, p, l, c, hP, rfl, -, hM⟩)
      · exact .inl he
      · rcases hq with hq | hq
        · cases hmq.symm.trans hq
        · have hcur : P.gCurrentProcess = some c := hM.current
          rw [hP.eq] at hcur
          have := (Nucleus.touch_complete N w (regAddr d)).current.symm.trans hcur
          cases hq.symm.trans this

end Runs

theorem serveLine_orderly {s : Kernel} (hs : s.Refines N) (hN : N.Orderly L)
    (hd : ∀ d, s.Serves d → s.hw d = .done ∧
      (s.waiters (L.addr (.semMut d)) = [] ∨ s.gCurrentProcess = none)) :
    Runs (serveLine L) N (fun _ M => M.Orderly L) fun e M => e = .fault ∨ M.Orderly L := by
  by_cases h : ∃ d, s.Serves d
  · obtain ⟨d, h⟩ := h
    obtain ⟨hdone, hq⟩ := hd d h
    rw [hs.globals, hs.waiters] at hq
    rw [hs.globals] at hdone
    apply Runs.serveLine_serves hs h
    intro bit ty hf hne hres
    obtain ⟨ha, h34⟩ := regAddr_of_serves (firstLine_range hf) hne hres
    rw [ha]
    exact Runs.serveDevice_orderly (hN.quiet (N.quiet_clear bit)) h34 hdone hq
  · apply (serveLine_moves hs (offDevices_allows fun d hd => h ⟨d, hd⟩)).mono
    · exact fun _ M hM => hM.1.orderly hN
    · exact fun e M hM => .inr (hM.orderly hN)

end

namespace Machine
variable {L : Layout} {m : Machine} {N : Nucleus} {t : Trap} {d : Dev}

/-- Devices interrupt only when they have finished a command. -/
def Commanded (L : Layout) (m : Machine) : Event → Prop
  | .exception t => excCode (t.old 1) = 0 → ∀ u, Pass L (m.trapped t).charged u →
      ∀ d, u.Serves d → u.hw d = .done
  | .wake => True

/-- No process in I/O is terminated, `DOIO` commands the device that it names
and no other, and no process is current when a device interrupts that others
wait for. -/
def Undisturbed (L : Layout) (m : Machine) : Event → Prop
  | .exception t =>
    (∀ p, m.Terminates L t p → m.kernel.nucleus.SparesIo p) ∧
    (t.Calls 5 → ∀ d : Dev, resolveDeviceAddress (t.old 8) = d.val → commanded (t.old 8) = [d]) ∧
    (excCode (t.old 1) = 0 → ∀ u, Pass L (m.trapped t).charged u → ∀ d, u.Serves d →
      u.waiters (L.addr (.semMut d)) = [] ∨ u.gCurrentProcess = none)
  | .wake => True

/-- A system call or a trap that is no `DOIO` for a device. -/
theorem Undisturbed.covers (hS : m.Sound N) (he : m.Enabled (.exception t))
    (hok : m.UserSemaphores L (.exception t)) (hun : m.Undisturbed L (.exception t))
    (h0 : excCode (t.old 1) ≠ 0)
    (hio : t.Calls 5 → ∀ d : Dev, resolveDeviceAddress (t.old 8) ≠ d.val) :
    (offDevices L).Covers L (m.trapped t) := by
  apply hS.covers he
  · exact fun h => absurd h h0
  · exact fun _ => trivial
  · intro h _
    have huser := hok h
    exact ⟨fun d => ⟨L.user_ne_addr huser _, L.user_ne_addr huser _⟩, Scope.writes_user huser⟩
  · exact fun _ => ⟨trivial, offDevices_clock⟩
  · exact fun h5 d hd => absurd hd (hio h5 d)
  · exact fun _ _ _ _ => trivial
  · intro p hp M hM q hq e hw
    rw [hM.sysiostates] at hw
    have hbelow : q = p ∨ N.Below p q := by
      rw [Nucleus.Below, hM.pChild] at hq
      exact hq
    have hspare := hun.1 p hp
    rw [hS.refines.nucleus_eq] at hspare
    exact hspare q hbelow e hw

/-- One exception keeps the devices in order, unless it makes the kernel fail. -/
theorem Sound.orderly_step (hS : m.Sound N) (hN : N.Orderly L) (he : m.Enabled (.exception t))
    (hok : m.UserSemaphores L (.exception t)) (hcmd : m.Commanded L (.exception t))
    (hun : m.Undisturbed L (.exception t)) :
    ∃ e s' M, m.step L (.exception t) = ⟨s', resume m.mode s'.pcbs e⟩ ∧ s'.Refines M ∧
      (e = .fault ∨ M.Orderly L) := by
  have hT : (N.trapped t (decide (m.mode = .waiting))).Orderly L := by
    apply hN.trapped
    have := he.2
    rwa [hS.refines.globals] at this
  by_cases h0 : excCode (t.old 1) = 0
  · apply interrupt_keeps (I := fun M => M.Orderly L) hS.refines h0 (hT.of_eq rfl rfl)
    · intro u M hu hM hI
      exact serveLine_orderly hM hI (fun d hd => ⟨hcmd h0 u hu d hd, hun.2.2 h0 u hu d hd⟩) u hM
    · exact fun _ _ _ hI => .inr hI
  obtain ⟨c, hc⟩ := he.1.resolve_right fun hw => h0 hw.2
  by_cases hio : t.Calls 5 ∧ ∃ d : Dev, resolveDeviceAddress (t.old 8) = d.val
  · obtain ⟨h5, d, hd⟩ := hio
    apply step_syscall hS.refines h5.1
    rw [syscall_doIo h5.2]
    apply (Runs.sysDoIo_orderly (hT.quiet (Nucleus.quiet_skip _)) (hS.running c hc).1 hd
      (hun.2.1 h5 d hd)).mono
    · exact fun _ _ => False.elim
    · exact fun _ _ => .inr
  · have hcov := Undisturbed.covers hS he hok hun h0 fun h5 d hd => hio ⟨h5, d, hd⟩
    obtain ⟨e, s', M, hstep, hM, hend⟩ := step_exception hS.refines hcov
    exact ⟨e, s', M, hstep, hM, .inr (hend.orderly hT)⟩

/-- All devices are in order in every run that is not disturbed. -/
theorem Reachable.orderly
    (h : Reachable L (fun m e => m.UserSemaphores L e ∧ m.Commanded L e ∧ m.Undisturbed L e) m) :
    ∃ N, m.Sound N ∧ (m.mode = .stuck ∨ N.Orderly L) := by
  apply h.invariant_or_stuck (I := fun N => N.Orderly L)
  · exact fun _ hb _ => .idle (Nucleus.record_booted hb) (congrFun hb.hw _)
  · exact fun hN hI => hI.schedule hN
  · exact fun hS hN he ⟨hok, hcmd, hun⟩ => hS.orderly_step hN he hok hcmd hun

/-- What is known of a device when a process executes or the scheduler waits. -/
structure DeviceInOrder (L : Layout) (m : Machine) (d : Dev) : Prop where
  waiting : ∀ w, (m.kernel.gSysiostates d).waitingProcess = some w →
    w ∉ m.kernel.free ∧ w ∈ m.kernel.waiters (L.addr (.semSync d))
  single : (m.kernel.waiters (L.addr (.semSync d))).length ≤ 1
  free : m.kernel.hw d = .idle → (m.kernel.gSysiostates d).semMut = 1
  busy : m.kernel.hw d ≠ .idle → (m.kernel.gSysiostates d).semMut = 0
  queued : m.kernel.waiters (L.addr (.semMut d)) ≠ [] → (m.kernel.gSysiostates d).semMut = 0

/-- Every device is in order in every run that is not disturbed. -/
theorem device_in_order
    (h : Reachable L (fun m e => m.UserSemaphores L e ∧ m.Commanded L e ∧ m.Undisturbed L e) m)
    (hm : (∃ p, m.mode = .running p) ∨ m.mode = .waiting) (d : Dev) : m.DeviceInOrder L d := by
  obtain ⟨N, hS, hI⟩ := h.orderly
  have hN : N.Orderly L := by
    apply hI.resolve_left
    intro hs
    rcases hm with ⟨p, hp⟩ | hw
    · cases hp.symm.trans hs
    · cases hw.symm.trans hs
  have hsys : m.kernel.gSysiostates = N.gSysiostates := by rw [hS.refines.globals]
  have hhw : m.kernel.hw = N.hw := by rw [hS.refines.globals]
  cases hN d with
  | idle hr hidle =>
    obtain ⟨hentry, hmut, hsync⟩ := Nucleus.of_record hr
    constructor
    · intro w hw
      rw [hsys, hentry] at hw
      cases hw
    · rw [hS.refines.waiters, hsync]
      simp
    · intro _
      rw [hsys, hentry]
    · intro hbusy
      exact absurd (hhw ▸ hidle) hbusy
    · intro hq
      rw [hS.refines.waiters] at hq
      exact absurd hmut hq
  | @busy w q hr hbusy =>
    obtain ⟨hentry, hmut, hsync⟩ := Nucleus.of_record hr
    have hzero : (m.kernel.gSysiostates d).semMut = 0 := by rw [hsys, hentry]
    constructor
    · intro w' hw
      rw [hsys, hentry] at hw
      obtain rfl := Option.some.inj hw
      have hblocked : w ∈ N.waiters (L.addr (.semSync d)) := by simp [hsync]
      rw [hS.refines.waiters, hS.refines.free]
      exact ⟨(hS.refines.valid.waiter_apart hblocked).1, hblocked⟩
    · rw [hS.refines.waiters, hsync]
      simp
    · intro hidle
      exact absurd (hhw ▸ hidle) hbusy
    · exact fun _ => hzero
    · exact fun _ => hzero

/-- Two processes ask for a disk and a third executes. -/
theorem device_in_order_contended : (sampleBoot.run sampleLayout
    [call 1 0x20060000 0 0, call 1 0x20060000 0 0, call 5 0x10000054 0x20070000 0,
      call 5 0x10000054 0x20070000 0]).DeviceInOrder sampleLayout 0 := by
  have calls : ∀ {m : Machine} {t : Trap}, excCode (t.old 1) = 8 →
      ¬t.Calls 2 ∧ ¬t.PassesUp → (t.Calls 5 → t.old 8 = 0x10000054) →
      m.Commanded sampleLayout (.exception t) ∧ m.Undisturbed sampleLayout (.exception t) := by
    intro m t h8 hterm hio
    have h0 : excCode (t.old 1) ≠ 0 := fun h => by cases h8.symm.trans h
    refine ⟨fun h => absurd h h0, fun p hp => absurd hp (not_terminates hterm.1 hterm.2),
      fun h5 d hd => ?_, fun h => absurd h h0⟩
    rw [hio h5] at hd ⊢
    have hall : ∀ d : Dev, resolveDeviceAddress 0x10000054 = d.val →
        commanded 0x10000054 = [d] := by decide +kernel
    exact hall d hd
  apply device_in_order
  · apply Reachable.run (.boot _ _ _)
    exact ⟨⟨by decide +kernel, by decide +kernel, calls rfl (by decide) (by decide)⟩,
      ⟨by decide +kernel, by decide +kernel, calls rfl (by decide) (by decide)⟩,
      ⟨by decide +kernel, by decide +kernel, calls rfl (by decide) (by decide)⟩,
      ⟨by decide +kernel, by decide +kernel, calls rfl (by decide) (by decide)⟩, trivial⟩
  · exact .inl ⟨17, by decide +kernel⟩

/-- A process in I/O is terminated by its brother. -/
def abandoned : Script :=
  [call 1 0x20060000 0 0, call 1 0x20060000 0 0, call 3 0x20060000 0 0, call 4 0x20060000 0 0,
    call 5 0x10000054 0x20070000 0, call 2 0x20031200 0 0]

/-- The device still answers to the terminated process. -/
theorem device_out_of_order : ¬∀ (L : Layout) (m : Machine) (d : Dev),
    Reachable L (fun m e => m.Lawful L e ∧ m.Commanded L e) m →
    (∃ p, m.mode = .running p) ∨ m.mode = .waiting → m.DeviceInOrder L d := by
  intro h
  have commanded : ∀ {m : Machine} {t : Trap}, excCode (t.old 1) = 8 →
      m.Commanded sampleLayout (.exception t) := fun h8 h => by cases h8.symm.trans h
  have hr : Reachable sampleLayout (fun m e => m.Lawful sampleLayout e ∧ m.Commanded sampleLayout e)
      (sampleBoot.run sampleLayout abandoned) := by
    apply Reachable.run (.boot _ _ _)
    exact ⟨⟨by decide +kernel, by decide +kernel, commanded rfl⟩,
      ⟨by decide +kernel, by decide +kernel, commanded rfl⟩,
      ⟨by decide +kernel, by decide +kernel, commanded rfl⟩,
      ⟨by decide +kernel, by decide +kernel, commanded rfl⟩,
      ⟨by decide +kernel, by decide +kernel, commanded rfl⟩,
      ⟨by decide +kernel, by decide +kernel, commanded rfl⟩, trivial⟩
  have hd := h sampleLayout _ 0 hr (.inl ⟨19, by decide +kernel⟩)
  obtain ⟨hlive, -⟩ := hd.waiting 18 (by decide +kernel)
  exact absurd hlive (by decide +kernel)

end Machine

end Pandos
