import Pandos.Frames
import Pandos.Passes

/-!
# The record of a device

The semaphores of a device with their queues and `waiting_process`, and what the
operations on them do to it. Whatever else an exception does leaves it alone,
unless it terminates somebody in a queue.
-/

namespace Pandos
open Intrusive Outcome

/-- What the kernel keeps of a device. -/
structure Record extends SysiostateT where
  mutQueue : List Pcb
  syncQueue : List Pcb

namespace Nucleus

def record (L : Layout) (N : Nucleus) (d : Dev) : Record :=
  ⟨N.gSysiostates d, N.waiters (L.addr (.semMut d)), N.waiters (L.addr (.semSync d))⟩

variable {L : Layout} {N M : Nucleus} {d : Dev} {p c : Pcb} {v : Word} {l : List Pcb}

theorem record_eq (hq : M.queue = N.queue) (hs : M.gSysiostates = N.gSysiostates) :
    M.record L d = N.record L d := by
  simp only [record, hs, Queues.waiters, hq]

theorem Touch.record (h : N.Touch M) (hs : M.gSysiostates = N.gSysiostates) :
    M.record L d = N.record L d := record_eq h.queue hs

theorem of_record {r : Record} (h : N.record L d = r) :
    N.gSysiostates d = r.toSysiostateT ∧ N.waiters (L.addr (.semMut d)) = r.mutQueue ∧
      N.waiters (L.addr (.semSync d)) = r.syncQueue := by
  subst h
  exact ⟨rfl, rfl, rfl⟩

theorem record_complete {a : Word} :
    (((N.finish p).answer p a).ack a).record L d = N.record L d :=
  (N.touch_complete p a).record complete_gSysiostates

theorem record_booted {mem : Word → Word} (h : Booted mem p N) :
    N.record L d = ⟨⟨1, 0, none⟩, [], []⟩ := by
  rw [record, congrFun h.devices d, Queues.waiters, h.queue _ (by simp), Queues.waiters,
    h.queue _ (by simp)]

theorem record_put_sync : (N.put L (L.addr (.semSync d)) v).record L d =
    { N.record L d with semSync := v } := by
  simp [record, put, Globals.setWord, Globals.modDev]

theorem record_put_mut : (N.put L (L.addr (.semMut d)) v).record L d =
    { N.record L d with semMut := v } := by
  simp [record, put, Globals.setWord, Globals.modDev]

theorem record_start : (N.start d p).record L d =
    { N.record L d with waitingProcess := some p } := by
  have hsys : (N.start d p).gSysiostates =
      Function.update N.gSysiostates d { N.gSysiostates d with waitingProcess := some p } := by
    rw [start, Globals.submit_eq]
    rfl
  simp only [record, hsys, Function.update_self]
  rfl

theorem record_release : (N.release d).record L d =
    { N.record L d with waitingProcess := none, semMut := (N.gSysiostates d).semMut + 1 } := by
  simp [record, release, Globals.modDev]

theorem waiters_wakeUp (hN : N.Placed) {a b : Word} (hw : N.waiters a = p :: l) :
    (N.wakeUp p).waiters b = if b = a then l else N.waiters b := by
  rw [Queues.waiters, queue_wakeUp, if_neg (by simp)]
  split
  · next h => exact h ▸ hN.apart.unlink_cons hw
  · next h =>
    apply hN.apart.unlink_other (show p ∈ N.waiters a by simp [hw])
    exact fun he => h (Place.sem.inj he)

theorem record_wakeUp (hN : N.Placed) (hw : N.waiters (L.addr (.semSync d)) = p :: l) :
    (N.wakeUp p).record L d = { N.record L d with syncQueue := l } := by
  have hne : L.addr (.semMut d) ≠ L.addr (.semSync d) := by simp
  simp only [record, waiters_wakeUp hN hw, hne, if_true, if_false]
  rfl

theorem record_take (hN : N.Placed) (hw : N.waiters (L.addr (.semMut d)) = p :: l) :
    record L ⟨N.toQueues.wake p, N.toGlobals⟩ d = { N.record L d with mutQueue := l } := by
  have hne : Place.sem (L.addr (.semSync d)) ≠ .sem (L.addr (.semMut d)) := fun h => by
    cases L.addr_injective (Place.sem.inj h)
  have hmut : (N.toQueues.wake p).waiters (L.addr (.semMut d)) = l := hN.apart.unlink_cons hw
  have hsync : (N.toQueues.wake p).waiters (L.addr (.semSync d)) = N.waiters (L.addr (.semSync d)) :=
    hN.apart.unlink_other (show p ∈ N.waiters (L.addr (.semMut d)) by simp [hw]) hne
  simp only [record, hmut, hsync]

theorem record_suspend_sync (hv : N.Valid) (hc : N.gCurrentProcess = some c) :
    (N.suspend (L.addr (.semSync d)) c).record L d =
      { N.record L d with syncQueue := (N.record L d).syncQueue ++ [c] } := by
  have hne : L.addr (.semMut d) ≠ L.addr (.semSync d) := by simp
  simp only [record, waiters_suspend hv hc, hne, if_true, if_false]
  rfl

theorem record_suspend_mut (hv : N.Valid) (hc : N.gCurrentProcess = some c) :
    (N.suspend (L.addr (.semMut d)) c).record L d =
      { N.record L d with mutQueue := (N.record L d).mutQueue ++ [c] } := by
  have hne : L.addr (.semSync d) ≠ L.addr (.semMut d) := by simp
  simp only [record, waiters_suspend hv hc, hne, if_true, if_false]
  rfl

theorem record_suspend_ne (hv : N.Valid) (hc : N.gCurrentProcess = some c) {a : Word}
    (hm : a ≠ L.addr (.semMut d)) (hs : a ≠ L.addr (.semSync d)) :
    (N.suspend a c).record L d = N.record L d := by
  simp only [record, waiters_suspend hv hc, if_neg hm.symm, if_neg hs.symm]
  rfl

theorem record_preempt (hv : N.Valid) (hc : N.gCurrentProcess = some c) :
    (N.preempt c).record L d = N.record L d := by
  simp only [record, waiters_preempt hv hc]
  rfl

theorem record_schedule (hN : N.Placed) : N.schedule.2.record L d = N.record L d := by
  have hsys : N.schedule.2.gSysiostates = N.gSysiostates := by rw [globals_schedule]
  simp only [record, waiters_schedule hN, hsys]

end Nucleus

/-! ## Other work -/

/-- Anything but the semaphores and the interrupt of device `d`. -/
def elsewhere (L : Layout) (d : Dev) : Scope :=
  { anyScope with
    sem := fun a => a ≠ L.addr (.semMut d) ∧ a ≠ L.addr (.semSync d)
    device := (· ≠ d) }

section
variable {L : Layout} {N M : Nucleus} {d : Dev}

/-- Moves that do not deal with the device. -/
theorem Moves.record_frame {B : Scope} (h : Moves L B N M) (hm : ¬B.sem (L.addr (.semMut d)))
    (hs : ¬B.sem (L.addr (.semSync d))) (hd : ¬B.device d) : M.record L d = N.record L d := by
  simp only [Nucleus.record, h.sysiostate hd, h.waiters hm, h.waiters hs]

theorem Moves.record (h : Moves L (elsewhere L d) N M) : M.record L d = N.record L d :=
  h.record_frame (fun ha => ha.1 rfl) (fun ha => ha.2 rfl) fun hd => hd rfl

/-- Processes `S` are terminated, and the one that the device has in I/O is
among them if `io`. -/
def Record.reap (r : Record) (S : List Pcb) (io : Prop) [Decidable io] : Record where
  semMut := r.semMut
  semSync := if io then -1 else r.semSync
  waitingProcess := r.waitingProcess
  mutQueue := r.mutQueue.filter (· ∉ S)
  syncQueue := r.syncQueue.filter (· ∉ S)

open Classical in
theorem Ending.record {e : Exit} (h : Ending L (elsewhere L d) N e M) :
    M.record L d = N.record L d ∨ ∃ (S : List Pcb) (io : Prop), (∀ q ∈ S, q ∈ M.free) ∧
      (io → ∃ q ∈ S, (N.gSysiostates d).waitingProcess = some q) ∧
      M.record L d = (N.record L d).reap S io := by
  obtain ⟨N', hmv, hl⟩ := h
  have hN' := hmv.record
  have hsys : N'.gSysiostates d = N.gSysiostates d := hmv.sysiostate fun hd => hd rfl
  cases hl with
  | stay => exact .inl hN'
  | @block a c hv ha _ hc hp =>
    left
    rw [Nucleus.record_schedule hp, Nucleus.record_suspend_ne hv hc ha.1 ha.2, hN']
  | @preempt c hv _ hc hp =>
    left
    rw [Nucleus.record_schedule hp, Nucleus.record_preempt hv hc, hN']
  | @kill P S q _ _ hr _ hp =>
    right
    refine ⟨S, ∃ q ∈ S, N'.ioDevice L q = some d, fun q hq => ?_, ?_, ?_⟩
    · rw [Nucleus.free_schedule hp]
      exact hr.mem_free hq
    · rintro ⟨q, hq, hio⟩
      exact ⟨q, hq, hsys ▸ Nucleus.ioDevice_waiting hio⟩
    · rw [Nucleus.record_schedule hp, ← hN', Nucleus.record, hr.sync, hr.waiters, hr.waiters]
      split
      · next h => simp only [Record.reap, Nucleus.record, if_pos h]
      · next h => simp only [Record.reap, Nucleus.record, if_neg h]

end

/-! ## What holds of every device -/

/-- A device is free and nobody waits; or it has a request, and at most one
process waits for its end; or the process that it answers to is gone. -/
inductive Record.Tended (r : Record) : Prop
  | idle : r.semMut = 1 → r.waitingProcess = none → r.semSync = 0 ∨ r.semSync = 1 →
      r.mutQueue = [] → r.syncQueue = [] → Tended r
  | busy : r.semMut = 0 → r.semSync = 0 → r.syncQueue.length ≤ 1 → Tended r
  | stale : r.semMut = 0 → r.semSync = -1 → Tended r

theorem Record.Tended.reap {r : Record} {S : List Pcb} {io : Prop} [Decidable io] (h : r.Tended)
    (hio : io → r.waitingProcess ≠ none) : (r.reap S io).Tended := by
  by_cases hi : io
  · have hsync : (r.reap S io).semSync = -1 := if_pos hi
    cases h with
    | idle _ hw => exact absurd hw (hio hi)
    | busy hm | stale hm => exact .stale hm hsync
  · have hsync : (r.reap S io).semSync = r.semSync := if_neg hi
    cases h with
    | idle hm hw hs hmq hsq =>
      have nil : ∀ l : List Pcb, l = [] → l.filter (· ∉ S) = [] := fun l hl => by rw [hl]; rfl
      exact .idle hm hw (hsync.symm ▸ hs) (nil _ hmq) (nil _ hsq)
    | busy hm hs hl => exact .busy hm (hsync.trans hs) ((List.length_filter_le _ _).trans hl)
    | stale hm hs => exact .stale hm (hsync.trans hs)

namespace Runs
variable {L : Layout} {N : Nucleus} {d : Dev} {p c : Pcb} {a : Word}

/-- A request that finds nobody waiting for the end of another. -/
theorem beginIo_tended (hm : (N.record L d).semMut = 0)
    (hs : (N.record L d).semSync = 0 ∨ (N.record L d).semSync = 1)
    (hq : (N.record L d).syncQueue = []) :
    Runs (Pandos.beginIo L d p) N (fun _ M => (M.record L d).Tended)
      fun _ M => (M.record L d).Tended := by
  have hr := N.record_start (L := L) (d := d) (p := p)
  apply beginIo
  generalize N.start d p = P at hr
  have hload : P.load L (L.addr (.semSync d)) = (P.record L d).semSync := Globals.load_addr
  apply sound
  intro hv
  apply semOp (L.addr_ne_zero _)
  · intro _ q l hw
    have : (P.record L d).syncQueue = q :: l := hw
    rw [hr] at this
    cases hq.symm.trans this
  · intro hl _
    have hzero : (1 : Word) + -1 = 0 := by decide
    rw [Nucleus.record_put_sync, hl, hzero, hr]
    exact .busy hm rfl (by simp [hq])
  · intro hl c hc hp
    rw [hload, hr] at hl
    rw [Nucleus.record_schedule hp, Nucleus.record_suspend_sync hv hc, hr]
    exact .busy hm (hs.resolve_right hl) (by simp [hq])
  · intro hl _
    rw [hload, hr] at hl
    rw [hr]
    exact .busy hm (hs.resolve_right hl) (by simp [hq])

theorem passDevice_tended (hm : (N.record L d).semMut = 0)
    (hs : (N.record L d).semSync = 0 ∨ (N.record L d).semSync = 1)
    (hq : (N.record L d).syncQueue = []) :
    Runs (Pandos.passDevice L d) N (fun _ M => (M.record L d).Tended)
      fun _ M => (M.record L d).Tended := by
  apply sound
  intro hv
  apply passDevice
  · intro hw
    rw [Nucleus.record_release]
    refine .idle ?_ rfl hs hw hq
    show (N.record L d).semMut + 1 = 1
    rw [hm]
    rfl
  · intro q l hw
    have hr := Nucleus.record_take (L := L) hv.placed hw
    exact beginIo_tended (by rw [hr]; exact hm) (by rw [hr]; exact hs) (by rw [hr]; exact hq)

theorem serveDevice_tended (h : (N.record L d).Tended) :
    Runs (Pandos.serveDevice L d a) N (fun _ M => (M.record L d).Tended)
      fun _ M => (M.record L d).Tended := by
  -- the `VERHOGEN` and what follows it
  have tail : ∀ P : Nucleus, P.record L d = N.record L d →
      ((N.record L d).semSync ≠ -1 → (N.record L d).waitingProcess ≠ none) →
      Runs (sysVerhogen L (L.addr (.semSync d))) P
        (fun _ N' => Runs (Pandos.passDevice L d) N' (fun _ M => (M.record L d).Tended)
          fun _ M => (M.record L d).Tended) fun _ M => (M.record L d).Tended := by
    intro P hP hio
    rw [← hP] at h hio
    have hload : P.load L (L.addr (.semSync d)) = (P.record L d).semSync := Globals.load_addr
    obtain ⟨hm, hs⟩ : (P.record L d).semMut = 0 ∧ ((P.record L d).semSync = 0 ∧
        (P.record L d).syncQueue.length ≤ 1 ∨ (P.record L d).semSync = -1) := by
      cases h with
      | idle _ hwait hs =>
        refine absurd hwait (hio ?_)
        rcases hs with hs | hs <;> rw [hs] <;> decide
      | busy hm hs hl => exact ⟨hm, .inl ⟨hs, hl⟩⟩
      | stale hm hs => exact ⟨hm, .inr hs⟩
    have live : P.load L (L.addr (.semSync d)) = 0 → (P.record L d).semSync = 0 ∧
        (P.record L d).syncQueue.length ≤ 1 := by
      intro hl
      refine hs.resolve_right fun hn => ?_
      rw [hload, hn] at hl
      exact absurd hl (by decide)
    apply sound
    intro hv
    apply semOp (L.addr_ne_zero _)
    · intro hl q l hw
      obtain ⟨hzero, hlen⟩ := live hl
      have hw' : (P.record L d).syncQueue = q :: l := hw
      have hr := Nucleus.record_wakeUp (L := L) hv.placed hw
      rw [hw', List.length_cons] at hlen
      have hnil : l = [] := List.eq_nil_of_length_eq_zero (by omega)
      apply passDevice_tended <;> rw [hr]
      · exact hm
      · exact .inl hzero
      · exact hnil
    · intro hl hw
      have hone : (0 : Word) + 1 = 1 := by decide
      rw [hl, hone]
      apply passDevice_tended <;> rw [Nucleus.record_put_sync]
      · exact hm
      · exact .inr rfl
      · exact hw
    · intro hl c hc hp
      rw [hload] at hl
      rw [Nucleus.record_schedule hp, Nucleus.record_suspend_sync hv hc]
      exact .stale hm (hs.resolve_left fun h => hl h.1)
    · exact fun _ _ => h
  apply serveDevice
  · intro hs
    apply tail _ (N.touch_ack a |>.record Nucleus.ack_gSysiostates)
    exact fun hn => absurd hs hn
  · intro p _ hw
    apply tail
    · exact Nucleus.record_complete
    · exact fun _ => by rw [show (N.record L d).waitingProcess = some p from hw]; simp
  · exact fun _ _ => h

theorem sysDoIo_tended {cmdAddr cmdValues : Word} (h : (N.record L d).Tended)
    (hc : N.gCurrentProcess = some c) (hd : resolveDeviceAddress cmdAddr = d.val) :
    Runs (Pandos.sysDoIo L cmdAddr cmdValues) N (fun _ M => (M.record L d).Tended)
      fun _ M => (M.record L d).Tended := by
  refine sysDoIo hc (fun hn => absurd (hn.symm.trans hd) (by omega)) fun d' hd' => ?_
  obtain rfl : d = d' := Fin.ext (by exact_mod_cast hd.symm.trans hd')
  have hr : (N.request c cmdAddr cmdValues).record L d = N.record L d :=
    (N.quiet_request c cmdAddr cmdValues hc).toTouch.record rfl
  have hcP : (N.request c cmdAddr cmdValues).gCurrentProcess = some c := hc
  generalize N.request c cmdAddr cmdValues = P at hr hcP
  have hload : P.load L (L.addr (.semMut d)) = (P.record L d).semMut := Globals.load_addr
  rw [← hr] at h
  apply sound
  intro hv
  apply semOp (L.addr_ne_zero _)
  · intro hl q l hw
    rw [hload] at hl
    have hw' : (P.record L d).mutQueue = q :: l := hw
    cases h with
    | idle _ _ _ hmq => cases hmq.symm.trans hw'
    | busy hm | stale hm => exact absurd (hm.symm.trans hl) (by decide)
  · intro hl _
    rw [hload] at hl
    have hzero : (1 : Word) + -1 = 0 := by decide
    rw [hload, hl, hzero]
    refine ⟨c, ?_, ?_⟩
    · simp [Nucleus.put, Globals.setWord, Globals.modDev, hcP]
    cases h with
    | idle _ _ hs _ hsq => apply beginIo_tended <;> rw [Nucleus.record_put_mut] <;> assumption
    | busy hm | stale hm => exact absurd (hm.symm.trans hl) (by decide)
  · intro hl c' hc' hp
    rw [hload] at hl
    rw [Nucleus.record_schedule hp, Nucleus.record_suspend_mut hv hc']
    cases h with
    | idle hm => exact absurd hm hl
    | busy hm hs hlen => exact .busy hm hs hlen
    | stale hm hs => exact .stale hm hs
  · exact fun _ _ => h

end Runs

section
variable {L : Layout} {s u : Kernel} {N M : Nucleus} {d : Dev}

theorem elsewhere_clock : (elsewhere L d).sem (L.addr .clock) := by
  simp [elsewhere]

theorem elsewhere_device {e : Dev} (he : e ≠ d) : (elsewhere L d).device e ∧
    (elsewhere L d).sem (L.addr (.semMut e)) ∧ (elsewhere L d).sem (L.addr (.semSync e)) := by
  simp [elsewhere, he]

/-- A pass that serves another device, or none. -/
theorem elsewhere_allows (hd : ¬s.Serves d) : (elsewhere L d).Allows L s where
  clock _ _ := ⟨trivial, elsewhere_clock⟩
  preempt _ _ := trivial
  device e he := by
    apply elsewhere_device
    rintro rfl
    exact hd he
  stale _ _ _ _ := trivial
  pass _ _ _ _ _ := trivial

end

/-- `I` holds when the first process starts, and nothing that happens to the
device or elsewhere breaks it. -/
structure DeviceInvariant (L : Layout) (d : Dev) (I : Nucleus → Prop) : Prop where
  boot : ∀ {mem : Word → Word} {p : Pcb} {N : Nucleus}, Booted mem p N → I N
  trap : ∀ {N : Nucleus} (t : Trap) (waiting : Bool), I N → I (N.trapped t waiting)
  schedule : ∀ {N : Nucleus}, N.Placed → I N → I N.schedule.2
  moves : ∀ {N M : Nucleus}, N.Valid → Moves L (elsewhere L d) N M → I N → I M
  ending : ∀ {N M : Nucleus} {e : Exit}, N.Valid → Ending L (elsewhere L d) N e M → I N → I M
  serve : ∀ {N : Nucleus} (a : Word), I N →
    Runs (serveDevice L d a) N (fun _ M => I M) fun _ M => I M
  doIo : ∀ {N : Nucleus} {c : Pcb} {cmdAddr cmdValues : Word}, I N → N.gCurrentProcess = some c →
    resolveDeviceAddress cmdAddr = d.val →
    Runs (sysDoIo L cmdAddr cmdValues) N (fun _ M => I M) fun _ M => I M

namespace DeviceInvariant
variable {L : Layout} {d : Dev} {I : Nucleus → Prop} {s u : Kernel} {N M : Nucleus}

theorem quiet (h : DeviceInvariant L d I) (hv : N.Valid) (hq : N.Quiet M) (hI : I N) : I M :=
  h.moves hv (.single (.quiet hq)) hI

theorem serveLine (h : DeviceInvariant L d I) (hs : s.Refines N) (hI : I N) :
    Ends (serveLine L) s (fun _ s' => ∃ M, s'.Refines M ∧ I M) fun _ s' => ∃ M, s'.Refines M ∧ I M := by
  by_cases hd : s.Serves d
  · exact Runs.serveLine_serves hs hd (fun bit ty _ _ _ =>
      h.serve _ (h.quiet hs.valid (N.quiet_clear bit) hI)) s hs
  · apply (serveLine_moves hs (elsewhere_allows hd) s hs).mono
    · rintro - s' ⟨M, hM, hmv, -⟩
      exact ⟨M, hM, h.moves hs.valid hmv hI⟩
    · rintro e s' ⟨M, hM, hend⟩
      exact ⟨M, hM, h.ending hs.valid hend hI⟩

/-- What every pass of an interrupt finds. -/
theorem pass (h : DeviceInvariant L d I) (hu : Pass L s u) (hs : s.Refines N) (hI : I N) :
    ∃ M, u.Refines M ∧ I M := by
  apply hu.keeps hs hI
  intro t t' M hr _ ht hM
  exact (ends_of_ok hr).mp (h.serveLine ht hM)

end DeviceInvariant

namespace Machine
variable {L : Layout} {m : Machine} {N : Nucleus} {t : Trap} {d : Dev}

/-- The semaphores of processes are outside the kernel's data. -/
def UserSemaphores (L : Layout) : Machine → Event → Prop
  | _, .exception t => t.Calls 3 ∨ t.Calls 4 → ¬L.KernelData (t.old 8)
  | _, .wake => True

instance (m : Machine) : (e : Event) → Decidable (m.UserSemaphores L e)
  | .exception _ => inferInstanceAs (Decidable (_ → _))
  | .wake => inferInstanceAs (Decidable True)

/-- A system call or a trap that is no `DOIO` for `d`. -/
theorem UserSemaphores.covers (hS : m.Sound N) (he : m.Enabled (.exception t))
    (hok : m.UserSemaphores L (.exception t)) (h0 : excCode (t.old 1) ≠ 0)
    (hio : t.Calls 5 → resolveDeviceAddress (t.old 8) ≠ d.val) :
    (elsewhere L d).Covers L (m.trapped t) := by
  refine hS.covers he (fun h => absurd h h0) (fun _ => trivial) ?_ ?_ ?_ (fun _ _ _ _ => trivial)
    fun _ _ _ _ => trivial
  · intro h _
    have huser := hok h
    exact ⟨⟨L.user_ne_addr huser _, L.user_ne_addr huser _⟩, Scope.writes_user huser⟩
  · exact fun _ => ⟨trivial, elsewhere_clock⟩
  · intro h5 e he
    apply elsewhere_device
    rintro rfl
    exact hio h5 he

/-- What is kept of a device holds in every run that leaves its semaphores alone. -/
theorem Reachable.device {ok : Machine → Event → Prop} {I : Nucleus → Prop}
    (hI : DeviceInvariant L d I) (h : Reachable L ok m) (hok : ∀ m e, ok m e → m.UserSemaphores L e) :
    ∃ N, m.Sound N ∧ I N := by
  apply h.invariant (I := fun _ N => I N)
  · exact hI.boot
  · exact hI.schedule
  · intro m N t hS hN he hlaw
    have ht : I (N.trapped t (decide (m.mode = .waiting))) := hI.trap t _ hN
    have hv : (N.trapped t (decide (m.mode = .waiting))).Valid := (trapped_refines hS.refines t).valid
    by_cases h0 : excCode (t.old 1) = 0
    · apply interrupt_keeps hS.refines h0 (hI.moves hv (.single .charge) ht)
      · exact fun u M _ hu hM => hI.serveLine hu hM
      · exact fun u M hu hM => hI.moves hu.valid (.single (.restart trivial)) hM
    by_cases hio : t.Calls 5 ∧ resolveDeviceAddress (t.old 8) = d.val
    · obtain ⟨c, hc⟩ := he.1.resolve_right fun hw => h0 hw.2
      apply step_syscall hS.refines hio.1.1
      rw [syscall_doIo hio.1.2]
      have hskip := hI.quiet hv (Nucleus.quiet_skip _) ht
      have hrun : Runs (sysDoIo L (t.old 8) (t.old 9)) (N.trapped t _).skip (fun _ M => I M)
          fun _ M => I M := hI.doIo hskip (hS.running c hc).1 hio.2
      exact hrun.keeps_valid.mono (fun v M hM => hI.quiet hM.1 (M.quiet_mem M.mem _ rfl) hM.2) fun _ _ hM => hM.2
    · obtain ⟨e, s', M, hstep, hM, hend⟩ := step_exception hS.refines
        ((hok m _ hlaw).covers hS he h0 fun h5 hd => hio ⟨h5, hd⟩)
      exact ⟨e, s', M, hstep, hM, hI.ending hv hend ht⟩

end Machine

theorem tended_invariant (L : Layout) (d : Dev) :
    DeviceInvariant L d fun N => (N.record L d).Tended where
  boot {_ _ N} hb := by
    rw [Nucleus.record_booted hb]
    exact .idle rfl rfl (.inl rfl) rfl rfl
  trap _ _ h := h
  schedule hN h := by rwa [Nucleus.record_schedule hN]
  moves _ hmv h := by rwa [hmv.record]
  ending {N M e} _ hend h := by
    rcases hend.record with heq | ⟨S, io, -, hio, heq⟩
    · rwa [heq]
    · classical
      rw [heq]
      apply h.reap
      intro hi
      obtain ⟨q, -, hq⟩ := hio hi
      rw [show (N.record L d).waitingProcess = some q from hq]
      simp
  serve _ h := Runs.serveDevice_tended h
  doIo h hc hd := Runs.sysDoIo_tended h hc hd

end Pandos
