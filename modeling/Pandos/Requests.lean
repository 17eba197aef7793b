import Pandos.DeviceRecord

/-!
# Requests and completions

What the functions of `devices.c` do to the records of all devices, and what a
`DOIO` or an interrupt ends in.
-/

namespace Pandos
open Intrusive Outcome

namespace Nucleus
variable {L : Layout} {N M : Nucleus} {d : Dev} {p c x : Pcb} {v : Word} {l : List Pcb}

theorem addr_semMut_ne {e : Dev} : L.addr (.semMut e) ≠ L.addr (.semSync d) := by
  simp

/-- Only the record of `d` changes. -/
theorem Touch.records (h : N.Touch M) (hs : ∀ e, e ≠ d → M.gSysiostates e = N.gSysiostates e) :
    M.record L = Function.update (N.record L) d (M.record L d) := by
  funext e
  by_cases he : e = d
  · rw [he, Function.update_self]
  · rw [Function.update_of_ne he]
    simp only [Nucleus.record, Queues.waiters, h.queue, hs e he]

theorem records_put_mut : (N.put L (L.addr (.semMut d)) v).record L =
    Function.update (N.record L) d { N.record L d with semMut := v } := by
  rw [(N.touch_put L _ v).records (d := d), record_put_mut]
  intro e he
  simp [put, Globals.setWord, Globals.modDev, he]

theorem records_start : (N.start d p).record L =
    Function.update (N.record L) d { N.record L d with waitingProcess := some p } := by
  rw [(N.touch_start p d).records (d := d), record_start]
  intro e he
  rw [start, Globals.submit_eq]
  exact Function.update_of_ne he _ _

theorem records_release : (N.release d).record L =
    Function.update (N.record L) d
      { N.record L d with waitingProcess := none, semMut := (N.gSysiostates d).semMut + 1 } := by
  rw [(N.touch_release d).records (d := d), record_release]
  intro e he
  exact Function.update_of_ne he _ _

theorem records_wakeUp (hN : N.Placed) (hw : N.waiters (L.addr (.semSync d)) = x :: l) :
    (N.wakeUp x).record L = Function.update (N.record L) d { N.record L d with syncQueue := l } := by
  funext e
  by_cases he : e = d
  · rw [he, Function.update_self, record_wakeUp hN hw]
  · have hsync : L.addr (.semSync e) ≠ L.addr (.semSync d) := by
      simpa using he
    simp only [Function.update_of_ne he, record, waiters_wakeUp hN hw, if_neg addr_semMut_ne,
      if_neg hsync]
    rfl

theorem records_take (hN : N.Placed) (hw : N.waiters (L.addr (.semMut d)) = x :: l) :
    record L ⟨N.toQueues.wake x, N.toGlobals⟩ =
      Function.update (N.record L) d { N.record L d with mutQueue := l } := by
  funext e
  by_cases he : e = d
  · rw [he, Function.update_self, record_take hN hw]
  · have other : ∀ a, a ≠ L.addr (.semMut d) → (N.toQueues.wake x).waiters a = N.waiters a := by
      intro a ha
      exact hN.apart.unlink_other (show x ∈ N.waiters (L.addr (.semMut d)) by simp [hw])
        fun h => ha (Place.sem.inj h)
    have hmut : L.addr (.semMut e) ≠ L.addr (.semMut d) := by
      simpa using he
    rw [Function.update_of_ne he]
    simp only [record, other _ hmut, other _ addr_semMut_ne.symm]

theorem records_suspend_sync (hv : N.Valid) (hc : N.gCurrentProcess = some c) :
    (N.suspend (L.addr (.semSync d)) c).record L = Function.update (N.record L) d
      { N.record L d with syncQueue := (N.record L d).syncQueue ++ [c] } := by
  funext e
  by_cases he : e = d
  · rw [he, Function.update_self, record_suspend_sync hv hc]
  · have hsync : L.addr (.semSync e) ≠ L.addr (.semSync d) := by
      simpa using he
    simp only [Function.update_of_ne he, record, waiters_suspend hv hc, if_neg addr_semMut_ne,
      if_neg hsync]
    rfl

theorem records_suspend_mut (hv : N.Valid) (hc : N.gCurrentProcess = some c) :
    (N.suspend (L.addr (.semMut d)) c).record L = Function.update (N.record L) d
      { N.record L d with mutQueue := (N.record L d).mutQueue ++ [c] } := by
  funext e
  by_cases he : e = d
  · rw [he, Function.update_self, record_suspend_mut hv hc]
  · have hmut : L.addr (.semMut e) ≠ L.addr (.semMut d) := by
      simpa using he
    simp only [Function.update_of_ne he, record, waiters_suspend hv hc,
      if_neg addr_semMut_ne.symm, if_neg hmut]
    rfl

theorem records_schedule (hN : N.Placed) : N.schedule.2.record L = N.record L :=
  funext fun _ => record_schedule hN

/-- A request of `p` is made and `c` waits for its end. -/
structure Enters (L : Layout) (N : Nucleus) (d : Dev) (p c : Pcb) (M : Nucleus) : Prop where
  current : N.gCurrentProcess = some c
  valid : (N.start d p).Valid
  placed : ((N.start d p).suspend (L.addr (.semSync d)) c).Placed
  eq : M = ((N.start d p).suspend (L.addr (.semSync d)) c).schedule.2

/-- `c` waits for a device that has a request. -/
structure Joins (L : Layout) (N : Nucleus) (d : Dev) (c : Pcb) (M : Nucleus) : Prop where
  current : N.gCurrentProcess = some c
  valid : N.Valid
  placed : (N.suspend (L.addr (.semMut d)) c).Placed
  eq : M = (N.suspend (L.addr (.semMut d)) c).schedule.2

theorem start_current : (N.start d p).gCurrentProcess = N.gCurrentProcess :=
  (N.touch_start p d).current

theorem Enters.records (h : N.Enters L d p c M) : M.record L = Function.update (N.record L) d
    { N.record L d with
      waitingProcess := some p, syncQueue := (N.record L d).syncQueue ++ [c] } := by
  rw [h.eq, records_schedule h.placed, records_suspend_sync h.valid (start_current.trans h.current),
    records_start, Function.update_self, Function.update_idem]

theorem Joins.records (h : N.Joins L d c M) : M.record L = Function.update (N.record L) d
    { N.record L d with mutQueue := (N.record L d).mutQueue ++ [c] } := by
  rw [h.eq, records_schedule h.placed, records_suspend_mut h.valid h.current]

/-- The process in I/O is answered, the one that waits for its end is woken. -/
structure Finishes (L : Layout) (N : Nucleus) (d : Dev) (w x : Pcb) (a : Word) (M : Nucleus) : Prop where
  valid : (((N.finish w).answer w a).ack a).Valid
  woken : ∃ l, (((N.finish w).answer w a).ack a).waiters (L.addr (.semSync d)) = x :: l
  eq : M = (((N.finish w).answer w a).ack a).wakeUp x

theorem records_complete (N : Nucleus) (w : Pcb) (a : Word) :
    (((N.finish w).answer w a).ack a).record L = N.record L :=
  funext fun _ => record_complete

theorem Finishes.records {w : Pcb} {a : Word} (h : N.Finishes L d w x a M)
    (hq : (N.record L d).syncQueue = [x]) :
    M.record L = Function.update (N.record L) d { N.record L d with syncQueue := [] } := by
  have hw : (((N.finish w).answer w a).ack a).waiters (L.addr (.semSync d)) = [x] := by
    rw [← hq, ← records_complete N w a]
    rfl
  rw [h.eq, records_wakeUp h.valid.placed hw, records_complete]

end Nucleus

namespace Runs
variable {L : Layout} {N : Nucleus} {d : Dev} {p c w x : Pcb} {a v : Word} {q : List Pcb}

/-- The `PASSEREN` of `beginIo` blocks whoever is current. -/
theorem beginIo_enters (hs : (N.record L d).semSync = 0) :
    Runs (Pandos.beginIo L d p) N (fun _ _ => False) fun e M =>
      e = .fault ∧ N.gCurrentProcess = none ∨ ∃ c, N.Enters L d p c M := by
  have hload : (N.start d p).load L (L.addr (.semSync d)) ≠ 1 := by
    have hrec := N.record_start (L := L) (d := d) (p := p)
    rw [Globals.load_addr, show (N.start d p).word (.semSync d) = (N.record L d).semSync from
      congrArg (fun r : Record => r.semSync) hrec, hs]
    decide
  apply beginIo
  apply semOp_blocks (L.addr_ne_zero _) hload
  · intro hv c hc hp
    exact .inr ⟨c, Nucleus.start_current.symm.trans hc, hv, hp, rfl⟩
  · exact fun hn => .inl ⟨rfl, Nucleus.start_current.symm.trans hn⟩

section
variable {cmdAddr cmdValues : Word}

/-- `DOIO` on a free device. -/
theorem sysDoIo_enters (hr : N.record L d = ⟨⟨1, 0, none⟩, [], []⟩)
    (hc : N.gCurrentProcess = some c) (hd : resolveDeviceAddress cmdAddr = d.val) :
    Runs (Pandos.sysDoIo L cmdAddr cmdValues) N (fun _ _ => False) fun _ M =>
      ((N.request c cmdAddr cmdValues).put L (L.addr (.semMut d)) 0).Enters L d c c M := by
  refine sysDoIo hc (fun hn => absurd (hn.symm.trans hd) (by omega)) fun d' hd' => ?_
  obtain rfl : d = d' := Fin.ext (by exact_mod_cast hd.symm.trans hd')
  obtain ⟨P, hP, hrP, hcP⟩ : ∃ P, N.request c cmdAddr cmdValues = P ∧
      P.record L d = ⟨⟨1, 0, none⟩, [], []⟩ ∧ P.gCurrentProcess = some c := by
    refine ⟨_, rfl, ?_, hc⟩
    rw [← hr]
    exact (N.quiet_request c cmdAddr cmdValues hc).toTouch.record rfl
  rw [hP]
  have hmut : P.load L (L.addr (.semMut d)) = 1 := by
    rw [Globals.load_addr]
    exact congrArg (fun r : Record => r.semMut) hrP
  have hnobody : P.waiters (L.addr (.semMut d)) = [] := congrArg Record.mutQueue hrP
  apply semOp_changes (L.addr_ne_zero _) hmut hnobody
  have hzero : (1 : Word) + -1 = 0 := by decide
  rw [hzero]
  have hcQ : (P.put L (L.addr (.semMut d)) 0).gCurrentProcess = some c :=
    (P.touch_put L _ 0).current.trans hcP
  have hsync : ((P.put L (L.addr (.semMut d)) 0).record L d).semSync = 0 := by
    rw [Nucleus.record_put_mut, hrP]
  refine ⟨c, hcQ, (beginIo_enters hsync).mono (fun _ _ => False.elim) ?_⟩
  rintro e M (⟨-, hn⟩ | ⟨c', hM⟩)
  · cases hcQ.symm.trans hn
  · obtain rfl := Option.some.inj (hcQ.symm.trans hM.current)
    exact hM

/-- `DOIO` on a device that has a request. -/
theorem sysDoIo_joins (hm : (N.record L d).semMut = 0) (hc : N.gCurrentProcess = some c)
    (hd : resolveDeviceAddress cmdAddr = d.val) :
    Runs (Pandos.sysDoIo L cmdAddr cmdValues) N (fun _ _ => False) fun _ M =>
      (N.request c cmdAddr cmdValues).Joins L d c M := by
  refine sysDoIo hc (fun hn => absurd (hn.symm.trans hd) (by omega)) fun d' hd' => ?_
  obtain rfl : d = d' := Fin.ext (by exact_mod_cast hd.symm.trans hd')
  have hmut : (N.request c cmdAddr cmdValues).load L (L.addr (.semMut d)) ≠ 1 := by
    have hne : (0 : Word) ≠ 1 := by decide
    have hword : (N.request c cmdAddr cmdValues).word (.semMut d) = 0 := hm
    rwa [Globals.load_addr, hword]
  have hcP : (N.request c cmdAddr cmdValues).gCurrentProcess = some c := hc
  apply semOp_blocks (L.addr_ne_zero _) hmut
  · intro hv c' hc' hp
    obtain rfl := Option.some.inj (hcP.symm.trans hc')
    exact ⟨hcP, hv, hp, rfl⟩
  · intro hn
    cases hcP.symm.trans hn

end

/-- The device is handed to the first process that waits for it, or released. -/
theorem passDevice_enters (hs : (N.record L d).semSync = 0) :
    Runs (Pandos.passDevice L d) N (fun _ M => (N.record L d).mutQueue = [] ∧ M = N.release d)
      fun e M => e = .fault ∨ ∃ p l c, (N.record L d).mutQueue = p :: l ∧ N.Valid ∧
        Nucleus.Enters L ⟨N.toQueues.wake p, N.toGlobals⟩ d p c M := by
  refine sound fun hv => passDevice (fun hw => ⟨hw, rfl⟩) fun p l hw => ?_
  have hsync : (Nucleus.record L ⟨N.toQueues.wake p, N.toGlobals⟩ d).semSync = 0 := hs
  apply (beginIo_enters hsync).mono
  · exact fun _ _ => False.elim
  · rintro e M (⟨he, -⟩ | ⟨c, hM⟩)
    · exact .inl he
    · exact .inr ⟨p, l, c, hw, hv, hM⟩

/-- The interrupt of a device that has a request. -/
theorem serveDevice_finishes (hr : N.record L d = ⟨⟨0, 0, some w⟩, q, [x]⟩) :
    Runs (Pandos.serveDevice L d a) N
      (fun _ M => ∃ P, N.Finishes L d w x a P ∧ q = [] ∧ M = P.release d)
      fun e M => e = .fault ∨ ∃ P p l c, N.Finishes L d w x a P ∧ q = p :: l ∧ P.Valid ∧
        Nucleus.Enters L ⟨P.toQueues.wake p, P.toGlobals⟩ d p c M := by
  have hentry : N.gSysiostates d = ⟨0, 0, some w⟩ := congrArg Record.toSysiostateT hr
  have hlive : (N.gSysiostates d).semSync ≠ -1 := by
    have hzero : (0 : Word) ≠ -1 := by decide
    rwa [hentry]
  refine serveDevice (fun hs => absurd hs hlive) ?_ ?_
  · intro w' _ hw'
    obtain rfl : w = w' := by
      rw [hentry] at hw'
      exact Option.some.inj hw'
    have hrP := congrFun (Nucleus.records_complete (L := L) N w a) d
    rw [hr] at hrP
    have hload : (((N.finish w).answer w a).ack a).load L (L.addr (.semSync d)) = 0 := by
      rw [Globals.load_addr]
      exact congrArg (fun r : Record => r.semSync) hrP
    have hwait : (((N.finish w).answer w a).ack a).waiters (L.addr (.semSync d)) = [x] :=
      congrArg Record.syncQueue hrP
    apply semOp_wakes (L.addr_ne_zero _) hload hwait
    intro hv
    have hF : N.Finishes L d w x a ((((N.finish w).answer w a).ack a).wakeUp x) :=
      ⟨hv, ⟨_, hwait⟩, rfl⟩
    have hrec := congrFun (hF.records (congrArg Record.syncQueue hr)) d
    rw [Function.update_self, hr] at hrec
    have hsync := congrArg (fun r : Record => r.semSync) hrec
    have hmutq := congrArg Record.mutQueue hrec
    apply (passDevice_enters hsync).mono
    · rintro - M ⟨hq, hM⟩
      exact ⟨_, hF, hmutq.symm.trans hq, hM⟩
    · rintro e M (he | ⟨p, l, c, hq, hP, hM⟩)
      · exact .inl he
      · exact .inr ⟨_, p, l, c, hF, hmutq.symm.trans hq, hP, hM⟩
  · exact fun _ _ => .inl rfl

end Runs

end Pandos
