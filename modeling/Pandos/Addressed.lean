import Pandos.DeviceRecord

/-!
# Whose requests wait

The processes that wait for a device or for the end of its command have asked
for that device.
-/

namespace Pandos
open Intrusive Outcome

namespace Nucleus

/-- The processes in the queues of device `d` have asked for `d`. -/
structure Addressed (L : Layout) (d : Dev) (N : Nucleus) : Prop where
  queued : ∀ q ∈ N.waiters (L.addr (.semMut d)), resolveDeviceAddress (N.asked q).1 = d.val
  awaited : ∀ w, (N.gSysiostates d).waitingProcess = some w → (N.gSysiostates d).semSync ≠ -1 →
    w ∈ N.waiters (L.addr (.semSync d)) → resolveDeviceAddress (N.asked w).1 = d.val

variable {L : Layout} {N M : Nucleus} {d : Dev} {p : Pcb}

/-- Queues that only lose processes, whose requests stay. -/
theorem Addressed.mono (h : N.Addressed L d)
    (hm : ∀ q ∈ M.waiters (L.addr (.semMut d)), q ∈ N.waiters (L.addr (.semMut d)))
    (hs : (M.gSysiostates d).semSync ≠ -1 → M.gSysiostates d = N.gSysiostates d ∧
      ∀ q ∈ M.waiters (L.addr (.semSync d)), q ∈ N.waiters (L.addr (.semSync d)))
    (ha : ∀ a q, q ∈ N.waiters a → M.asked q = N.asked q) : M.Addressed L d := by
  constructor
  · intro q hq
    rw [ha _ q (hm q hq)]
    exact h.queued q (hm q hq)
  · intro w hw hn hq
    obtain ⟨he, hsub⟩ := hs hn
    rw [ha _ w (hsub w hq)]
    exact h.awaited w (he ▸ hw) (he ▸ hn) (hsub w hq)

theorem Addressed.of_record (h : N.Addressed L d) (hr : M.record L d = N.record L d)
    (ha : ∀ a q, q ∈ N.waiters a → M.asked q = N.asked q) : M.Addressed L d := by
  have hmut : M.waiters (L.addr (.semMut d)) = N.waiters (L.addr (.semMut d)) :=
    congrArg Record.mutQueue hr
  have hsync : M.waiters (L.addr (.semSync d)) = N.waiters (L.addr (.semSync d)) :=
    congrArg Record.syncQueue hr
  apply h.mono
  · exact fun q hq => hmut ▸ hq
  · exact fun _ => ⟨congrArg Record.toSysiostateT hr, fun q hq => hsync ▸ hq⟩
  · exact ha

/-- The process that the device answers to has asked for it. -/
theorem addressed_of_waiting (hw : (M.gSysiostates d).waitingProcess = some p)
    (hp : resolveDeviceAddress (N.asked p).1 = d.val)
    (hm : ∀ q ∈ M.waiters (L.addr (.semMut d)), resolveDeviceAddress (N.asked q).1 = d.val)
    (ha : ∀ q, M.asked q = N.asked q) : M.Addressed L d := by
  constructor
  · intro q hq
    rw [ha q]
    exact hm q hq
  · intro w hw' _ _
    obtain rfl : p = w := Option.some.inj (hw.symm.trans hw')
    rwa [ha p]

theorem asked_wakeUp {q : Pcb} : (N.wakeUp p).asked q = N.asked q := by
  rw [asked, pcbs_wakeUp]
  split <;> rfl

theorem asked_take {q : Pcb} : asked ⟨N.toQueues.wake p, N.toGlobals⟩ q = N.asked q := by
  by_cases hq : q = p
  · simp [asked, Queues.wake, Queues.unlink, Queues.modPcb, hq]
  · simp [asked, Queues.wake, Queues.unlink, Queues.modPcb, hq]

end Nucleus

namespace Runs
variable {L : Layout} {N : Nucleus} {d : Dev} {p c : Pcb} {a : Word}

theorem beginIo_addressed
    (hm : ∀ q ∈ N.waiters (L.addr (.semMut d)), resolveDeviceAddress (N.asked q).1 = d.val)
    (hp : resolveDeviceAddress (N.asked p).1 = d.val) :
    Runs (Pandos.beginIo L d p) N (fun _ M => M.Addressed L d) fun _ M => M.Addressed L d := by
  have hne : L.addr (.semMut d) ≠ L.addr (.semSync d) := by simp
  have hr := N.record_start (L := L) (d := d) (p := p)
  have ha : ∀ q, (N.start d p).asked q = N.asked q := fun _ => rfl
  apply beginIo
  generalize N.start d p = S at hr ha
  have hw : (S.gSysiostates d).waitingProcess = some p :=
    congrArg (fun r : Record => r.waitingProcess) hr
  have hmut : S.waiters (L.addr (.semMut d)) = N.waiters (L.addr (.semMut d)) :=
    congrArg Record.mutQueue hr
  rw [← hmut] at hm
  apply sound
  intro hv
  apply semOp (L.addr_ne_zero _)
  · intro _ q l hq
    have hw' : ((S.wakeUp q).gSysiostates d).waitingProcess = some p := hw
    apply Nucleus.addressed_of_waiting hw' hp
    · rw [Nucleus.waiters_wakeUp hv.placed hq, if_neg hne]
      exact hm
    · exact fun x => Nucleus.asked_wakeUp.trans (ha x)
  · intro _ _
    refine Nucleus.addressed_of_waiting ?_ hp hm ha
    simp [Nucleus.put, Globals.setWord, Globals.modDev, hw]
  · intro _ c hc hpl
    have hw' : ((S.suspend (L.addr (.semSync d)) c).schedule.2.gSysiostates d).waitingProcess =
        some p := by
      rw [Nucleus.globals_schedule]
      exact hw
    apply Nucleus.addressed_of_waiting hw' hp
    · rw [Nucleus.waiters_schedule hpl, Nucleus.waiters_suspend hv hc, if_neg hne]
      exact hm
    · intro q
      rw [Nucleus.asked_schedule, Nucleus.asked_suspend, ha]
  · exact fun _ _ => Nucleus.addressed_of_waiting hw hp hm ha

theorem passDevice_addressed
    (hm : ∀ q ∈ N.waiters (L.addr (.semMut d)), resolveDeviceAddress (N.asked q).1 = d.val) :
    Runs (Pandos.passDevice L d) N (fun _ M => M.Addressed L d) fun _ M => M.Addressed L d := by
  apply sound
  intro hv
  apply passDevice
  · intro hw
    refine ⟨hm, fun w hn => ?_⟩
    simp [Nucleus.release, Globals.modDev] at hn
  · intro p l hw
    have hq : p ∈ N.waiters (L.addr (.semMut d)) := by simp [hw]
    apply beginIo_addressed
    · intro q hq
      rw [Nucleus.asked_take]
      exact hm q (Lists.mem_unlink.mp hq).1
    · rw [Nucleus.asked_take]
      exact hm p hq

theorem serveDevice_addressed (ht : (N.record L d).Tended) (h : N.Addressed L d) :
    Runs (Pandos.serveDevice L d a) N (fun _ M => M.Addressed L d) fun _ M => M.Addressed L d := by
  have hne : L.addr (.semMut d) ≠ L.addr (.semSync d) := by simp
  have tail : ∀ P : Nucleus, P.record L d = N.record L d → (∀ q, P.asked q = N.asked q) →
      ((N.record L d).semSync ≠ -1 → (N.record L d).waitingProcess ≠ none) →
      Runs (sysVerhogen L (L.addr (.semSync d))) P
        (fun _ N' => Runs (Pandos.passDevice L d) N' (fun _ M => M.Addressed L d)
          fun _ M => M.Addressed L d) fun _ M => M.Addressed L d := by
    intro P hP ha hio
    have h := h.of_record hP fun _ q _ => ha q
    rw [← hP] at ht hio
    apply sound
    intro hv
    apply semOp (L.addr_ne_zero _)
    · intro _ q l hw
      apply passDevice_addressed
      rw [Nucleus.waiters_wakeUp hv.placed hw, if_neg hne]
      intro x hx
      rw [Nucleus.asked_wakeUp]
      exact h.queued x hx
    · exact fun _ _ => passDevice_addressed h.queued
    · intro hl c hc hp
      have hstale : (P.record L d).semSync = -1 := by
        rw [Globals.load_addr] at hl
        cases ht with
        | idle _ hwait hs =>
          refine absurd hwait (hio ?_)
          rcases hs with hs | hs <;> rw [hs] <;> decide
        | busy _ hs => exact absurd hs hl
        | stale _ hs => exact hs
      apply h.mono
      · rw [Nucleus.waiters_schedule hp, Nucleus.waiters_suspend hv hc, if_neg hne]
        exact fun _ => id
      · intro hn
        rw [Nucleus.globals_schedule] at hn
        exact absurd hstale hn
      · intro _ q _
        rw [Nucleus.asked_schedule, Nucleus.asked_suspend]
    · exact fun _ _ => h
  apply serveDevice
  · intro hs
    apply tail _ (N.touch_ack a |>.record Nucleus.ack_gSysiostates)
    · intro q
      rw [Nucleus.asked, Nucleus.ack_toQueues]
      rfl
    · exact fun hn => absurd hs hn
  · intro p _ hw
    apply tail
    · exact Nucleus.record_complete
    · exact fun _ => Nucleus.asked_complete
    · exact fun _ => by rw [show (N.record L d).waitingProcess = some p from hw]; simp
  · exact fun _ _ => h

theorem sysDoIo_addressed {cmdAddr cmdValues : Word} (h : N.Addressed L d)
    (hc : N.gCurrentProcess = some c) (hd : resolveDeviceAddress cmdAddr = d.val) :
    Runs (Pandos.sysDoIo L cmdAddr cmdValues) N (fun _ M => M.Addressed L d)
      fun _ M => M.Addressed L d := by
  refine sound fun hvN => sysDoIo hc (fun hn => absurd (hn.symm.trans hd) (by omega)) fun d' hd' => ?_
  obtain rfl : d = d' := Fin.ext (by exact_mod_cast hd.symm.trans hd')
  have hne : L.addr (.semSync d) ≠ L.addr (.semMut d) := by simp
  obtain ⟨P, hP, hcP, hask, h⟩ : ∃ P, N.request c cmdAddr cmdValues = P ∧
      P.gCurrentProcess = some c ∧ resolveDeviceAddress (P.asked c).1 = d.val ∧
      P.Addressed L d := by
    refine ⟨_, rfl, hc, ?_, h.of_record ?_ ?_⟩
    · simp [Nucleus.asked, Nucleus.request, Queues.modPcb, hd]
    · exact (N.quiet_request c cmdAddr cmdValues hc).toTouch.record rfl
    · intro a q hq
      have hqc : q ≠ c := by
        rintro rfl
        exact (hvN.waiter_apart hq).2 hc
      simp [Nucleus.asked, Nucleus.request, Queues.modPcb, hqc]
  rw [hP]
  apply sound
  intro hv
  apply semOp (L.addr_ne_zero _)
  · intro _ q l hw
    refine ⟨c, hcP, beginIo_addressed ?_ ?_⟩
    · rw [Nucleus.waiters_wakeUp hv.placed hw, if_pos rfl]
      intro x hx
      rw [Nucleus.asked_wakeUp]
      exact h.queued x (by rw [hw]; exact List.mem_cons_of_mem q hx)
    · rw [Nucleus.asked_wakeUp]
      exact hask
  · intro _ _
    refine ⟨c, ?_, beginIo_addressed h.queued hask⟩
    simp [Nucleus.put, Globals.setWord, Globals.modDev, hcP]
  · intro _ c' hc' hp
    obtain rfl : c = c' := Option.some.inj (hcP.symm.trans hc')
    have ha : ∀ q, (P.suspend (L.addr (.semMut d)) c).schedule.2.asked q = P.asked q := by
      intro q
      rw [Nucleus.asked_schedule, Nucleus.asked_suspend]
    constructor
    · rw [Nucleus.waiters_schedule hp, Nucleus.waiters_suspend hv hc', if_pos rfl]
      intro q hq
      rw [ha]
      rcases List.mem_append.mp hq with hq | hq
      · exact h.queued q hq
      · exact List.mem_singleton.mp hq ▸ hask
    · rw [Nucleus.waiters_schedule hp, Nucleus.waiters_suspend hv hc', if_neg hne,
        Nucleus.globals_schedule]
      intro w hw hn hq
      rw [ha]
      exact h.awaited w hw hn hq
  · exact fun _ _ => h

end Runs

theorem addressed_invariant (L : Layout) (d : Dev) :
    DeviceInvariant L d fun N => (N.record L d).Tended ∧ N.Addressed L d where
  boot hb := by
    refine ⟨(tended_invariant L d).boot hb, fun q hq => ?_, fun w _ _ hq => ?_⟩
    · rw [Queues.waiters, hb.queue _ (by simp)] at hq
      cases hq
    · rw [Queues.waiters, hb.queue _ (by simp)] at hq
      cases hq
  trap _ _ h := ⟨h.1, h.2.queued, h.2.awaited⟩
  schedule hN h := ⟨(tended_invariant L d).schedule hN h.1,
    h.2.of_record (Nucleus.record_schedule hN) fun _ _ _ => Nucleus.asked_schedule⟩
  moves hv hmv h := by
    refine ⟨(tended_invariant L d).moves hv hmv h.1, h.2.of_record hmv.record fun a q hq => ?_⟩
    obtain ⟨hp, hc⟩ := hv.waiter_apart hq
    exact hmv.asked hp hc
  ending {N M e} hv hend h := by
    refine ⟨(tended_invariant L d).ending hv hend h.1, ?_⟩
    have ha : ∀ a q, q ∈ N.waiters a → M.asked q = N.asked q := fun a q hq =>
      hend.asked (hv.waiter_apart hq).1 (hv.waiter_apart hq).2
    rcases hend.record with heq | ⟨S, io, -, -, heq⟩
    · exact h.2.of_record heq ha
    · classical
      have hmut : M.waiters (L.addr (.semMut d)) = (N.waiters (L.addr (.semMut d))).filter (· ∉ S) :=
        congrArg Record.mutQueue heq
      have hsync : M.waiters (L.addr (.semSync d)) =
          (N.waiters (L.addr (.semSync d))).filter (· ∉ S) := congrArg Record.syncQueue heq
      have hentry := congrArg Record.toSysiostateT heq
      refine h.2.mono ?_ (fun hn => ?_) ha
      · rw [hmut]
        exact fun q hq => (List.mem_filter.mp hq).1
      · have hio : ¬io := by
          intro hi
          apply hn
          rw [show M.gSysiostates d = _ from hentry]
          exact if_pos hi
        rw [hsync]
        refine ⟨?_, fun q hq => (List.mem_filter.mp hq).1⟩
        rw [show M.gSysiostates d = _ from hentry]
        simp [Record.reap, Nucleus.record, hio]
  serve _ h := (Runs.serveDevice_tended h.1).and (Runs.serveDevice_addressed h.1 h.2)
  doIo h hc hd := (Runs.sysDoIo_tended h.1 hc hd).and (Runs.sysDoIo_addressed h.2 hc hd)

end Pandos
