import Pandos.Conservation
import Pandos.Current
import Pandos.Requests

/-!
# The soft-block count

`g_soft_block_count` is the number of processes that wait for the clock or for
the end of an I/O operation, as long as `CLOCKWAIT` waits and the processes that
`terminateProcess` takes to be in I/O are those that are.
-/

namespace Pandos
open Intrusive Outcome

namespace Nucleus
variable (L : Layout)

/-- `p` waits for the clock or for the end of an I/O operation. -/
def Soft (N : Nucleus) (p : Pcb) : Prop :=
  (N.pcbs p).pSemAdd = L.addr .clock ∨ ∃ d, (N.pcbs p).pSemAdd = L.addr (.semSync d)

instance (N : Nucleus) : DecidablePred (N.Soft L) := fun _ => inferInstanceAs (Decidable (_ ∨ _))

/-- By how much the count is too high. -/
def surplus (N : Nucleus) : Int := N.gSoftBlockCount - (Finset.univ.filter (N.Soft L)).card

variable {L} {N M : Nucleus} {d : Dev} {p c x : Pcb} {a : Word} {S : List Pcb}

theorem not_soft (h : (N.pcbs p).pSemAdd = 0) : ¬N.Soft L p := by
  rintro (hs | ⟨d, hs⟩)
  · exact L.addr_ne_zero _ (hs.symm.trans h)
  · exact L.addr_ne_zero _ (hs.symm.trans h)

theorem soft_of_semAdd (h : (M.pcbs p).pSemAdd = (N.pcbs p).pSemAdd) : M.Soft L p ↔ N.Soft L p := by
  rw [Soft, Soft, h]

theorem Still.soft (h : N.Still M) (p : Pcb) : M.Soft L p ↔ N.Soft L p := soft_of_semAdd (h.semAdd p)

/-- Nobody begins or ceases to wait. -/
theorem surplus_same (hn : M.gSoftBlockCount = N.gSoftBlockCount)
    (h : ∀ p, M.Soft L p ↔ N.Soft L p) : M.surplus L = N.surplus L := by
  rw [surplus, surplus, hn, Finset.filter_congr fun p _ => h p]

/-- Process `c` begins to wait. -/
theorem surplus_enter (hn : M.gSoftBlockCount = N.gSoftBlockCount + 1) (hc : ¬N.Soft L c)
    (h : ∀ p, M.Soft L p ↔ N.Soft L p ∨ p = c) : M.surplus L = N.surplus L := by
  have hset : Finset.univ.filter (M.Soft L) = insert c (Finset.univ.filter (N.Soft L)) := by
    ext p
    simp [h p, or_comm]
  rw [surplus, surplus, hn, hset, Finset.card_insert_of_notMem (by simp [hc])]
  push_cast
  omega

/-- The processes in `S` cease to wait. -/
theorem surplus_leave (hS : S.Nodup)
    (hn : M.gSoftBlockCount = N.gSoftBlockCount - S.countP (N.Soft L ·))
    (h : ∀ p, M.Soft L p ↔ N.Soft L p ∧ p ∉ S) : M.surplus L = N.surplus L := by
  have hset : Finset.univ.filter (N.Soft L) =
      Finset.univ.filter (M.Soft L) ∪ (S.filter (N.Soft L ·)).toFinset := by
    ext p
    simp only [Finset.mem_filter, Finset.mem_univ, true_and, Finset.mem_union, List.mem_toFinset,
      List.mem_filter, decide_eq_true_eq, h p]
    by_cases hp : p ∈ S <;> simp [hp]
  have hdisj : Disjoint (Finset.univ.filter (M.Soft L)) (S.filter (N.Soft L ·)).toFinset := by
    rw [Finset.disjoint_left]
    intro p hp hm
    have hp' := ((h p).mp (Finset.mem_filter.mp hp).2).2
    exact hp' (List.mem_filter.mp (List.mem_toFinset.mp hm)).1
  rw [surplus, surplus, hn, hset, Finset.card_union_of_disjoint hdisj,
    List.toFinset_card_of_nodup (hS.filter _), ← List.countP_eq_length_filter]
  push_cast
  omega

theorem surplus_schedule : N.schedule.2.surplus L = N.surplus L := by
  apply surplus_same
  · rw [globals_schedule]
  · exact fun p => soft_of_semAdd (by rw [pcbs_schedule])

/-- Process `p` ceases to wait for something else. -/
theorem surplus_wake (hN : N.Placed) (ha : a ≠ L.addr .clock) (hs : ∀ d, a ≠ L.addr (.semSync d))
    (hp : p ∈ N.waiters a) (hn : M.gSoftBlockCount = N.gSoftBlockCount)
    (hq : ∀ q, (M.pcbs q).pSemAdd = if q = p then 0 else (N.pcbs q).pSemAdd) :
    M.surplus L = N.surplus L := by
  refine surplus_same hn fun q => ?_
  by_cases h : q = p
  · have hsem := ((hN.waiting a p).mp hp).2
    apply iff_of_false
    · apply not_soft
      rw [hq, if_pos h]
    · rintro (h' | ⟨d, h'⟩)
      · exact ha (hsem.symm.trans (h ▸ h'))
      · exact hs d (hsem.symm.trans (h ▸ h'))
  · exact soft_of_semAdd (by rw [hq, if_neg h])

theorem surplus_create {r : PcbT} (hN : N.Placed) (hp : p ∈ N.free) (hr : r.pSemAdd = 0) :
    (N.create c p r).surplus L = N.surplus L := by
  refine surplus_same rfl fun q => ?_
  by_cases hq : q = p
  · apply iff_of_false
    · apply not_soft
      rw [pcbs_create, if_pos hq]
      exact hr
    · exact not_soft (hq ▸ hN.semAdd_of_free hp)
  · exact soft_of_semAdd (by rw [pcbs_create, if_neg hq])

theorem surplus_suspend (hc : (N.pcbs c).pSemAdd = 0) (ha : a ≠ L.addr .clock)
    (hs : ∀ d, a ≠ L.addr (.semSync d)) : (N.suspend a c).surplus L = N.surplus L := by
  refine surplus_same rfl fun q => ?_
  by_cases hq : q = c
  · apply iff_of_false
    · rw [Soft, semAdd_suspend, if_pos hq]
      rintro (h | ⟨d, h⟩)
      · exact ha h
      · exact hs d h
    · exact not_soft (hq ▸ hc)
  · exact soft_of_semAdd (by rw [semAdd_suspend, if_neg hq])

theorem surplus_preempt : (N.preempt c).surplus L = N.surplus L := by
  refine surplus_same rfl fun q => ?_
  apply soft_of_semAdd
  rw [pcbs_preempt]
  split <;> rfl

/-- A process begins to wait and is counted. -/
theorem surplus_block (hn : M.gSoftBlockCount = N.gSoftBlockCount + 1) (hq : M.pcbs = N.pcbs)
    (hc : (N.pcbs c).pSemAdd = 0) (ha : a = L.addr .clock ∨ ∃ d, a = L.addr (.semSync d)) :
    (M.suspend a c).surplus L = N.surplus L := by
  refine surplus_enter hn (not_soft hc) fun q => ?_
  rw [Soft, semAdd_suspend, hq]
  by_cases h : q = c
  · simp only [h, or_true, iff_true]
    exact ha
  · simp only [h, or_false]
    exact Iff.rfl

/-! ## The test of `terminateProcess` -/

theorem ioDevice_sync (h : (N.pcbs p).pSemAdd = L.addr (.semSync d)) :
    N.ioDevice L p = if (N.gSysiostates d).waitingProcess = some p then some d else none := by
  obtain ⟨hdev, hres⟩ := resolve_semSync L d
  have hd : 0 ≤ (d.val : Int) ∧ (d.val : Int) < deviceNumber := by omega
  rw [ioDevice, h, if_pos ⟨L.addr_ne_zero _, hdev⟩, hres, Globals.waitsOn, dif_pos hd]
  rfl

theorem ioDevice_clock (h : (N.pcbs p).pSemAdd = L.addr .clock) : N.ioDevice L p = none := by
  rw [ioDevice, h, isDeviceSemaphore_clock]
  simp

/-- Somebody who waits and is taken to be in I/O waits for the device. -/
theorem Soft.waits (h : N.Soft L p) (hio : N.ioDevice L p = some d) :
    (N.pcbs p).pSemAdd = L.addr (.semSync d) ∧ (N.gSysiostates d).waitingProcess = some p := by
  refine ⟨?_, ioDevice_waiting hio⟩
  rcases h with hs | ⟨e, hs⟩
  · rw [ioDevice_clock hs] at hio
    cases hio
  · rw [ioDevice_sync hs] at hio
    split at hio
    · rw [hs, Option.some.inj hio]
    · cases hio

/-- Process `p` is alive, and `terminateProcess` takes it and those below it to
be in I/O if and only if they are counted. -/
def Accountable (L : Layout) (N : Nucleus) (p : Pcb) : Prop :=
  p ∉ N.free ∧ ∀ q, q = p ∨ N.Below p q → (N.Soft L q ↔ (N.ioDevice L q).isSome)

theorem Accountable.quiet (h : N.Accountable L p) (hq : N.Quiet M) : M.Accountable L p := by
  rw [Accountable, hq.free]
  refine ⟨h.1, fun q hb => ?_⟩
  rw [hq.toStill.soft, hq.ioDevice]
  apply h.2
  rwa [Below, hq.pChild] at hb

end Nucleus

/-! ## The invariant -/

/-- A device is free; or it has a request, and somebody waits for its end; or the
process that it answers to is gone. -/
inductive Record.Manned (r : Record) : Prop
  | idle : r = ⟨⟨1, 0, none⟩, [], []⟩ → Manned r
  | busy {w x : Pcb} {q : List Pcb} : r = ⟨⟨0, 0, some w⟩, q, [x]⟩ → Manned r
  | stale {w : Pcb} {q : List Pcb} : r = ⟨⟨0, -1, some w⟩, q, []⟩ → Manned r

/-- All who wait are counted. -/
structure Nucleus.Accounted (L : Layout) (N : Nucleus) : Prop where
  surplus : N.surplus L = 0
  counted : N.Counted
  records : ∀ d, (N.record L d).Manned

namespace Nucleus.Accounted
variable {L : Layout} {N M : Nucleus} {d : Dev} {p c x : Pcb} {a : Word} {S : List Pcb}

theorem schedule (h : N.Accounted L) (hN : N.Placed) : N.schedule.2.Accounted L where
  surplus := surplus_schedule.trans h.surplus
  counted := h.counted.schedule hN
  records d := by
    rw [record_schedule hN]
    exact h.records d

theorem quiet (h : N.Accounted L) (hq : N.Quiet M) : M.Accounted L where
  surplus := (surplus_same hq.soft hq.toStill.soft).trans h.surplus
  counted := h.counted.keep hq.count hq.free
  records d := by
    rw [hq.toTouch.record hq.sysiostates]
    exact h.records d

/-- The record of one device changes. -/
theorem update {r : Record} (h : N.Accounted L) (hs : M.surplus L = N.surplus L) (hc : M.Counted)
    (hr : M.record L = Function.update (N.record L) d r) (hd : r.Manned) : M.Accounted L where
  surplus := hs.trans h.surplus
  counted := hc
  records := by
    rw [hr, Function.forall_update_iff (N.record L) fun _ r => r.Manned]
    exact ⟨hd, fun e _ => h.records e⟩

/-- To terminate processes whose waiting is known. -/
theorem reap (h : N.Accounted L) (hN : N.Placed) (hr : Reaped L S N M)
    (hS : ∀ q ∈ S, q ∉ N.free ∧ (N.Soft L q ↔ (N.ioDevice L q).isSome)) : M.Accounted L where
  surplus := by
    rw [← h.surplus]
    apply surplus_leave hr.nodup
    · rw [hr.soft]
      congr 2
      apply List.countP_congr
      intro q hq
      simp [(hS q hq).2]
    · intro q
      rw [Soft, hr.pcbs]
      by_cases hq : q ∈ S
      · simp only [hq, not_true_eq_false, and_false, iff_false]
        rintro (hs | ⟨d, hs⟩)
        · exact L.addr_ne_zero _ hs.symm
        · exact L.addr_ne_zero _ hs.symm
      · simp only [hq, not_false_eq_true, and_true]
        exact Iff.rfl
  counted := h.counted.reap hr fun q hq => (hS q hq).1
  records d := by
    have hrec : M.record L d = ⟨M.gSysiostates d, (N.record L d).mutQueue.filter (· ∉ S),
        (N.record L d).syncQueue.filter (· ∉ S)⟩ := by
      rw [record, hr.waiters, hr.waiters]
      rfl
    have hentry : ∀ {r}, N.record L d = r → N.gSysiostates d = r.toSysiostateT := fun h =>
      (of_record h).1
    rw [hrec, hr.sync]
    cases h.records d with
    | idle hd =>
      rw [if_neg]
      · exact .idle (by rw [hd, hentry hd]; rfl)
      · rintro ⟨q, -, hio⟩
        have := ioDevice_waiting hio
        rw [hentry hd] at this
        cases this
    | @busy w x q hd =>
      have hx : x ∈ N.waiters (L.addr (.semSync d)) := by
        have hq : N.waiters (L.addr (.semSync d)) = [x] := congrArg Record.syncQueue hd
        simp [hq]
      have hsem := ((hN.waiting _ x).mp hx).2
      split
      · next hio =>
        obtain ⟨y, hy, hio⟩ := hio
        have hsoft : N.Soft L y := (hS y hy).2.mpr (by rw [hio]; rfl)
        have hyw := (hN.waiting _ y).mpr ⟨L.addr_ne_zero _, (hsoft.waits hio).1⟩
        have hyx : y = x := by
          have hq : N.waiters (L.addr (.semSync d)) = [x] := congrArg Record.syncQueue hd
          rw [hq] at hyw
          exact List.mem_singleton.mp hyw
        subst hyx
        exact .stale (w := w) (q := q.filter (· ∉ S)) (by rw [hd, hentry hd]; simp [hy])
      · next hio =>
        have hxS : x ∉ S := by
          intro hm
          obtain ⟨e, he⟩ := Option.isSome_iff_exists.mp ((hS x hm).2.mp (.inr ⟨d, hsem⟩))
          have hed : e = d := by
            rw [ioDevice_sync hsem] at he
            split at he
            · exact (Option.some.inj he).symm
            · cases he
          exact hio ⟨x, hm, hed ▸ he⟩
        exact .busy (w := w) (x := x) (q := q.filter (· ∉ S)) (by rw [hd, hentry hd]; simp [hxS])
    | @stale w q hd =>
      apply Record.Manned.stale (w := w) (q := q.filter (· ∉ S))
      rw [hd, hentry hd]
      split <;> rfl

end Nucleus.Accounted

/-! ## Requests and completions -/

namespace Nucleus
variable {L : Layout} {N M : Nucleus} {d : Dev} {p c x w : Pcb} {a : Word}

theorem Enters.surplus (h : N.Enters L d p c M) : M.surplus L = N.surplus L := by
  have hc : ((N.start d p).pcbs c).pSemAdd = 0 :=
    (h.valid.current c (start_current.trans h.current)).2
  rw [h.eq, surplus_schedule]
  exact surplus_block rfl rfl hc (.inr ⟨d, rfl⟩)

theorem Enters.counted (h : N.Enters L d p c M) (hN : N.Counted) (hc : c ∉ N.free) : M.Counted := by
  have hs : (N.start d p).Counted := hN.keep (N.touch_start p d).count rfl
  have hc' : c ∉ (N.start d p).free := hc
  rw [h.eq]
  exact (hs.suspend hc').schedule h.placed

theorem Joins.surplus (h : N.Joins L d c M) : M.surplus L = N.surplus L := by
  rw [h.eq, surplus_schedule]
  apply surplus_suspend (h.valid.current c h.current).2
  · simp
  · simp

theorem Joins.counted (h : N.Joins L d c M) (hN : N.Counted) (hc : c ∉ N.free) : M.Counted := by
  rw [h.eq]
  exact (hN.suspend hc).schedule h.placed

theorem Finishes.surplus (h : N.Finishes L d w x a M) : M.surplus L = N.surplus L := by
  obtain ⟨l, hl⟩ := h.woken
  have ht := touch_complete N w a
  have hsem := ((h.valid.placed.waiting _ x).mp (by rw [hl]; exact List.mem_cons_self)).2
  rw [ht.semAdd] at hsem
  have hx : N.Soft L x := .inr ⟨d, hsem⟩
  rw [h.eq]
  apply surplus_leave (List.nodup_singleton x)
  · rw [List.countP_singleton, decide_eq_true hx, if_pos rfl]
    show (((N.finish w).answer w a).ack a).gSoftBlockCount = _
    rw [ack_gSoftBlockCount]
    rfl
  · intro q
    rw [List.mem_singleton]
    by_cases hq : q = x
    · apply iff_of_false
      · apply not_soft
        rw [pcbs_wakeUp, if_pos hq]
      · exact fun hn => hn.2 hq
    · rw [and_iff_left hq]
      apply soft_of_semAdd
      rw [pcbs_wakeUp, if_neg hq, ht.semAdd]

theorem Finishes.free (h : N.Finishes L d w x a M) : M.free = N.free := by
  obtain ⟨l, hl⟩ := h.woken
  rw [h.eq, Queues.free, queue_wakeUp, if_neg (by simp), free_unlink_waiter h.valid.placed hl]
  exact (touch_complete N w a).free

theorem Finishes.current (h : N.Finishes L d w x a M) : M.gCurrentProcess = N.gCurrentProcess := by
  rw [h.eq]
  exact (touch_complete N w a).current

theorem Finishes.counted (h : N.Finishes L d w x a M) (hN : N.Counted) : M.Counted := by
  apply hN.keep _ h.free
  rw [h.eq]
  exact (touch_complete N w a).count

/-- The clock ticks. -/
theorem Accounted.tick (h : N.Accounted L) (hN : N.Placed) : (N.tick L).Accounted L where
  surplus := by
    rw [← h.surplus]
    apply surplus_leave (hN.apart.nodup (.sem (L.addr .clock)))
    · have hall : (N.waiters (L.addr .clock)).countP (N.Soft L ·) =
          (N.waiters (L.addr .clock)).length := by
        apply List.countP_eq_length.mpr
        intro q hq
        exact decide_eq_true (.inl ((hN.waiting _ q).mp hq).2)
      rw [hall]
      rfl
    · intro q
      by_cases hq : q ∈ N.waiters (L.addr .clock)
      · apply iff_of_false
        · apply not_soft
          show (if q ∈ N.waiters (L.addr .clock) then _ else N.pcbs q).pSemAdd = 0
          rw [if_pos hq]
        · exact fun hn => hn.2 hq
      · refine Iff.trans (soft_of_semAdd ?_) (and_iff_left hq).symm
        show (if q ∈ N.waiters (L.addr .clock) then _ else N.pcbs q).pSemAdd = _
        rw [if_neg hq]
  counted := h.counted.keep rfl rfl
  records d := by
    have other : ∀ b, b ≠ L.addr .clock → (N.tick L).waiters b = N.waiters b := by
      intro b hb
      show (if Place.sem b = .ready then N.ready ++ N.waiters (L.addr .clock)
        else if Place.sem b = .sem (L.addr .clock) then [] else N.queue (.sem b)) = _
      rw [if_neg (by simp), if_neg fun he => hb (Place.sem.inj he)]
    have hrec : (N.tick L).record L d = N.record L d := by
      simp only [record, other (L.addr (.semMut d)) (by simp), other (L.addr (.semSync d)) (by simp)]
      rfl
    rw [hrec]
    exact h.records d

theorem Accounted.preempt (h : N.Accounted L) (hv : N.Valid) (hc : N.gCurrentProcess = some c)
    (hf : c ∉ N.free) : (N.preempt c).Accounted L where
  surplus := surplus_preempt.trans h.surplus
  counted := h.counted.preempt hf
  records d := by
    rw [record_preempt hv hc]
    exact h.records d

/-- The device is free after the end of its last request. -/
theorem Accounted.release {P : Nucleus} (h : N.Accounted L)
    (hr : N.record L d = ⟨⟨0, 0, some w⟩, [], [x]⟩) (hP : N.Finishes L d w x a P) :
    (P.release d).Accounted L := by
  have hsq : (N.record L d).syncQueue = [x] := by rw [hr]
  have hone : (0 : Word) + 1 = 1 := by decide
  have hrec : P.record L d = ⟨⟨0, 0, some w⟩, [], []⟩ := by
    rw [hP.records hsq, Function.update_self, hr]
  have hzero : (P.gSysiostates d).semMut = 0 := congrArg (fun r : Record => r.semMut) hrec
  have ht := P.touch_release d
  apply h.update (d := d) (r := ⟨⟨1, 0, none⟩, [], []⟩)
  · rw [← hP.surplus]
    exact Nucleus.surplus_same rfl ht.toStill.soft
  · exact (hP.counted h.counted).keep ht.count ht.free
  · rw [Nucleus.records_release, hrec, hzero, hone, hP.records hsq, Function.update_idem]
  · exact .idle rfl

/-- Otherwise the next process is in I/O, on which whoever is current waits. -/
theorem Accounted.pass {P : Nucleus} {l : List Pcb} (h : N.Accounted L)
    (hr : N.record L d = ⟨⟨0, 0, some w⟩, p :: l, [x]⟩) (hP : N.Finishes L d w x a P)
    (hv : P.Valid) (hM : Nucleus.Enters L ⟨P.toQueues.wake p, P.toGlobals⟩ d p c M)
    (hf : c ∉ N.free) : M.Accounted L := by
  have hsq : (N.record L d).syncQueue = [x] := by rw [hr]
  have hrec : P.record L d = ⟨⟨0, 0, some w⟩, p :: l, []⟩ := by
    rw [hP.records hsq, Function.update_self, hr]
  have hw : P.waiters (L.addr (.semMut d)) = p :: l := congrArg Record.mutQueue hrec
  have hfree : (P.toQueues.wake p).free = P.free := Nucleus.free_unlink_waiter hv.placed hw
  apply h.update (d := d) (r := ⟨⟨0, 0, some p⟩, l, [c]⟩)
  · rw [hM.surplus, ← hP.surplus]
    apply Nucleus.surplus_wake hv.placed (a := L.addr (.semMut d)) (p := p)
    · simp
    · simp
    · simp [hw]
    · rfl
    · intro q
      by_cases hq : q = p
      · simp [Queues.wake, Queues.unlink, Queues.modPcb, hq]
      · simp [Queues.wake, Queues.unlink, Queues.modPcb, hq]
  · apply hM.counted ((hP.counted h.counted).keep rfl hfree)
    rwa [hfree, hP.free]
  · rw [hM.records, Nucleus.records_take hv.placed hw, hrec, hP.records hsq,
      Function.update_self, Function.update_idem, Function.update_idem]
    rfl
  · exact .busy rfl

end Nucleus

namespace Runs
variable {L : Layout} {N : Nucleus} {d : Dev} {c : Pcb} {a v : Word}

theorem sysDoIo_accounted (h : N.Accounted L) (hc : N.gCurrentProcess = some c) (hf : c ∉ N.free)
    (hd : resolveDeviceAddress a = d.val) :
    Runs (Pandos.sysDoIo L a v) N (fun _ _ => False) fun _ M => M.Accounted L := by
  have hq := N.quiet_request c a v hc
  have hreq := h.quiet hq
  have hrec := hq.toTouch.record (L := L) (d := d) hq.sysiostates
  have joins : ∀ {u w q l}, N.record L d = ⟨⟨0, u, w⟩, q, l⟩ →
      Record.Manned ⟨⟨0, u, w⟩, q ++ [c], l⟩ →
      Runs (Pandos.sysDoIo L a v) N (fun _ _ => False) fun _ M => M.Accounted L := by
    intro u w q l hr hm
    have h0 : (N.record L d).semMut = 0 := by rw [hr]
    apply (sysDoIo_joins h0 hc hd).mono (fun _ _ => id)
    intro _ M hM
    apply hreq.update hM.surplus (hM.counted hreq.counted hf) hM.records
    rw [hrec, hr]
    exact hm
  cases h.records d with
  | idle hr =>
    apply (sysDoIo_enters hr hc hd).mono (fun _ _ => id)
    intro _ M hM
    have hput := (N.request c a v).touch_put L (L.addr (.semMut d)) 0
    have hsoft : ((N.request c a v).put L (L.addr (.semMut d)) 0).gSoftBlockCount =
        (N.request c a v).gSoftBlockCount := by
      rw [Nucleus.put, Globals.store_eq]
    apply hreq.update (d := d) (r := ⟨⟨0, 0, some c⟩, [], [c]⟩)
    · exact hM.surplus.trans (Nucleus.surplus_same hsoft hput.toStill.soft)
    · exact hM.counted (hreq.counted.keep hput.count hput.free) hf
    · rw [hM.records, Nucleus.records_put_mut, hrec, hr, Function.update_self,
        Function.update_idem]
      rfl
    · exact .busy rfl
  | busy hr => exact joins hr (.busy rfl)
  | stale hr => exact joins hr (.stale rfl)

theorem sysClockWait_accounted (h : N.Accounted L) (hk : N.gPseudoClock ≠ 1)
    (hf : ∀ c, N.gCurrentProcess = some c → c ∉ N.free) :
    Runs (Pandos.sysClockWait L) N (fun _ _ => False) fun e M => e = .fault ∨ M.Accounted L := by
  apply sysClockWait
  obtain ⟨P, hP⟩ : ∃ P : Nucleus,
      (⟨N.toQueues, { N.toGlobals with gSoftBlockCount := N.gSoftBlockCount + 1 }⟩ : Nucleus) = P :=
    ⟨_, rfl⟩
  rw [hP]
  have hload : P.load L (L.addr .clock) ≠ 1 := by
    rw [Globals.load_addr, ← hP]
    exact hk
  apply semOp_blocks (L.addr_ne_zero _) hload
  · intro hv c hc hp
    right
    apply Nucleus.Accounted.schedule _ hp
    subst hP
    constructor
    · rw [← h.surplus]
      exact Nucleus.surplus_block rfl rfl (hv.current c hc).2 (.inl rfl)
    · exact Nucleus.Counted.suspend (h.counted.keep rfl rfl) (hf c hc)
    · intro d
      rw [Nucleus.record_suspend_ne hv hc]
      · exact h.records d
      · simp
      · simp
  · exact fun _ => .inl rfl

/-- The interrupt of a device blocks nobody but a live process, and that only
when it passes the device on. -/
theorem serveDevice_accounted (h : N.Accounted L)
    (hstale : (N.gSysiostates d).semSync = -1 → N.gCurrentProcess = none)
    (hlive : ∀ c, N.gCurrentProcess = some c → c ∈ N.free → (N.gSysiostates d).Answers →
      N.waiters (L.addr (.semMut d)) = [] ∨ N.waiters (L.addr (.semSync d)) = []) :
    Runs (Pandos.serveDevice L d a) N (fun _ M => M.Accounted L)
      fun e M => e = .fault ∨ M.Accounted L := by
  cases h.records d with
  | idle hr =>
    obtain ⟨hentry, -, -⟩ := Nucleus.of_record hr
    have hne : (0 : Word) ≠ -1 := by decide
    apply serveDevice
    · intro hs
      rw [hentry] at hs
      exact absurd hs hne
    · intro p _ hp
      rw [hentry] at hp
      cases hp
    · exact fun _ _ => .inl rfl
  | @busy w x q hr =>
    obtain ⟨hentry, hmut, hsync⟩ := Nucleus.of_record hr
    apply (serveDevice_finishes hr).mono
    · rintro - M ⟨P, hP, rfl, rfl⟩
      exact h.release hr hP
    · rintro e M (he | ⟨P, p, l, c, hP, rfl, hv, hM⟩)
      · exact .inl he
      · right
        have hcur : N.gCurrentProcess = some c := hP.current.symm.trans hM.current
        apply h.pass hr hP hv hM
        intro hf
        rcases hlive c hcur hf (.inr (by rw [hentry]; nofun)) with hn | hn
        · cases hmut.symm.trans hn
        · cases hsync.symm.trans hn
  | @stale w q hr =>
    obtain ⟨hentry, -, -⟩ := Nucleus.of_record hr
    have hs : (N.gSysiostates d).semSync = -1 := by rw [hentry]
    have hnone := hstale hs
    apply serveDevice
    · intro _
      have hload : (N.ack a).load L (L.addr (.semSync d)) ≠ 0 := by
        have hne : (-1 : Word) ≠ 0 := by decide
        rw [Globals.load_addr]
        show ((N.ack a).gSysiostates d).semSync ≠ 0
        rwa [Nucleus.ack_gSysiostates, hs]
      apply semOp_blocks (L.addr_ne_zero _) hload
      · intro _ c hc
        cases ((N.touch_ack a).current.symm.trans hc).symm.trans hnone
      · exact fun _ => .inl rfl
    · exact fun _ hn => absurd hs hn
    · exact fun hn => absurd hs hn

/-- A pass of an interrupt. -/
theorem serveLine_accounted {s : Kernel} (hs : s.Refines N) (h : N.Accounted L)
    (hstale : ∀ d, s.Serves d → (s.gSysiostates d).semSync = -1 → s.gCurrentProcess = none)
    (hlive : ∀ c, N.gCurrentProcess = some c → c ∈ N.free →
      (∀ bit, firstLine s.gOldState.cause ≠ some (bit, .localTimer)) ∧
      ∀ d, s.Serves d → (s.gSysiostates d).Answers →
        s.waiters (L.addr (.semMut d)) = [] ∨ s.waiters (L.addr (.semSync d)) = []) :
    Runs (Pandos.serveLine L) N (fun _ M => M.Accounted L) fun e M => e = .fault ∨ M.Accounted L := by
  by_cases hd : ∃ d, s.Serves d
  · obtain ⟨d, hd⟩ := hd
    apply Runs.serveLine_serves hs hd
    intro bit ty _ _ _
    apply serveDevice_accounted (h.quiet (N.quiet_clear bit))
    · have := hstale d hd
      rwa [hs.globals] at this
    · intro c hc hf
      have := (hlive c hc hf).2 d hd
      rwa [hs.globals, hs.waiters, hs.waiters] at this
  apply serveLine
  · exact fun _ => h
  intro bit line hf
  have hc := h.quiet (N.quiet_clear bit)
  cases line with
  | localTimer =>
    refine sound fun hv => handleLocalTimer (fun c hcur hp => .inr ?_) fun _ => .inl rfl
    apply (hc.preempt hv hcur _).schedule hp
    intro hfree
    rw [← hs.globals] at hf
    exact (hlive c hcur hfree).1 bit hf
  | sysTimer => exact sound fun hv => handleSysTimer (hc.tick hv.placed)
  | device ty =>
    apply handleDeviceInt
    · exact fun _ => hc
    · exact fun _ => .inl rfl
    · intro d hne hres
      exact absurd ⟨d, .of_line hs hf hne hres⟩ hd

end Runs

/-! ## Other work -/

/-- Anything but the semaphores of the kernel and interrupts. -/
def offKernel (L : Layout) : Scope where
  sem a := ∀ w, a ≠ L.addr w
  device _ := False
  clock := False
  create _ := True
  target N p := N.Accountable L p
  block := True
  preempt := False
  interrupt := False

section
variable {L : Layout} {N M : Nucleus} {e : Exit}

theorem Move.accounted (h : Move L (offKernel L) N M) (hN : N.Accounted L) : M.Accounted L := by
  have hrec : ∀ d, (M.record L d).Manned := by
    intro d
    have hmv : Moves L (offKernel L) N M := .single h
    rw [hmv.record_frame (fun ha => ha _ rfl) (fun ha => ha _ rfl) id]
    exact hN.records d
  cases h with
  | quiet h => exact hN.quiet h
  | device h => exact absurd h id
  | clock h => exact absurd h id
  | restart h => exact absurd h id
  | charge =>
    have hs := N.still_charge
    have hn : N.charge.gSoftBlockCount = N.gSoftBlockCount := rfl
    exact ⟨(Nucleus.surplus_same hn hs.soft).trans hN.surplus, hN.counted.keep hs.count hs.free, hrec⟩
  | @wake a p l hv ha hw =>
    have hp : p ∈ N.waiters a := by simp [hw]
    refine ⟨Eq.trans ?_ hN.surplus, hN.counted.keep rfl ?_, hrec⟩
    · refine Nucleus.surplus_wake hv.placed (ha _) (fun d => ha _) hp rfl fun q => ?_
      rw [Nucleus.pcbs_wakeUp]
      split <;> rfl
    · rw [Queues.free, Nucleus.queue_wakeUp, if_neg (by simp),
        Nucleus.free_unlink_waiter hv.placed hw]
  | take _ hs => exact absurd rfl (hs _)
  | create hv _ _ _ hf _ hr =>
    refine ⟨Eq.trans ?_ hN.surplus, hN.counted.create hv.placed hf, hrec⟩
    exact Nucleus.surplus_create hv.placed (by simp [hf]) hr

theorem Moves.accounted (h : Moves L (offKernel L) N M) (hN : N.Accounted L) : M.Accounted L := by
  induction h with
  | refl => exact hN
  | tail _ h ih => exact h.accounted ih

theorem Ending.accounted (h : Ending L (offKernel L) N e M) (hN : N.Accounted L)
    (hlive : ∀ c, N.gCurrentProcess = some c → c ∉ N.free) : M.Accounted L := by
  obtain ⟨N', hmv, hl⟩ := h
  have hN' := hmv.accounted hN
  cases hl with
  | stay => exact hN'
  | @block a c hv ha _ hc hp =>
    apply Nucleus.Accounted.schedule _ hp
    have hf : c ∉ N'.free := fun hf => hlive c (hmv.current ▸ hc) (hmv.free hf)
    refine ⟨Eq.trans ?_ hN'.surplus, hN'.counted.suspend hf, fun d => ?_⟩
    · exact Nucleus.surplus_suspend (hv.current c hc).2 (ha _) fun d => ha _
    · rw [Nucleus.record_suspend_ne hv hc (ha _) (ha _)]
      exact hN'.records d
  | preempt _ hb => exact absurd hb id
  | @kill _ S p hv ht hr hS hp =>
    apply Nucleus.Accounted.schedule _ hp
    apply hN'.reap hv.placed hr
    intro q hq
    have hq' := (hS q).mp hq
    refine ⟨?_, ht.2 q hq'⟩
    rcases hq' with rfl | hb
    · exact ht.1
    · exact (hb.live hv.tree).2

end

namespace Machine
variable {L : Layout} {m : Machine} {N : Nucleus} {t : Trap}

/-- `CLOCKWAIT` waits, `terminateProcess` finds the processes that are counted,
and the interrupt of a device whose process is gone blocks nobody. -/
def Accountable (L : Layout) (m : Machine) : Event → Prop
  | .exception t =>
    (t.Calls 7 → m.kernel.gPseudoClock ≠ 1) ∧
    (∀ p, m.Terminates L t p → m.kernel.nucleus.Accountable L p) ∧
    (excCode (t.old 1) = 0 → ∀ u, Pass L (m.trapped t).charged u → ∀ d, u.Serves d →
      (u.gSysiostates d).semSync = -1 → u.gCurrentProcess = none)
  | .wake => True

/-- A system call or a trap that is no `DOIO` for a device and no `CLOCKWAIT`. -/
theorem Accountable.covers (hS : m.Sound N) (he : m.Enabled (.exception t))
    (hok : m.UserSemaphores L (.exception t)) (ha : m.Accountable L (.exception t))
    (h0 : excCode (t.old 1) ≠ 0)
    (hio : t.Calls 5 → ∀ d : Dev, resolveDeviceAddress (t.old 8) ≠ d.val) (h7 : ¬t.Calls 7) :
    (offKernel L).Covers L (m.trapped t) := by
  apply hS.covers he
  · exact fun h => absurd h h0
  · exact fun _ => trivial
  · intro h _
    have huser := hok h
    exact ⟨fun w => L.user_ne_addr huser w, Scope.writes_user huser⟩
  · exact fun h => absurd h h7
  · exact fun h5 d hd => absurd hd (hio h5 d)
  · exact fun _ _ _ _ => trivial
  · intro p hp M hM
    have hacc := ha.2.1 p hp
    rw [hS.refines.nucleus_eq] at hacc
    exact Nucleus.Accountable.quiet (N := N.trapped t (decide (m.mode = .waiting))) hacc hM

/-- One exception keeps all who wait counted, unless it makes the kernel fail. -/
theorem Sound.accounted_step (hS : m.Sound N) (hN : N.Accounted L) (he : m.Enabled (.exception t))
    (hok : m.UserSemaphores L (.exception t)) (hspare : m.Sparing L (.exception t))
    (hacc : m.Accountable L (.exception t)) :
    ∃ e s' M, m.step L (.exception t) = ⟨s', resume m.mode s'.pcbs e⟩ ∧ s'.Refines M ∧
      (e = .fault ∨ M.Accounted L) := by
  have hT : (N.trapped t (decide (m.mode = .waiting))).Accounted L :=
    ⟨hN.surplus, hN.counted, hN.records⟩
  by_cases h0 : excCode (t.old 1) = 0
  · obtain ⟨-, href⟩ := updateProcessTime_ok (trapped_refines hS.refines t)
    apply interrupt_keeps (I := fun M => M.Accounted L) hS.refines h0
    · exact (Move.charge (B := offKernel L)).accounted hT
    · intro u M hu hM hI
      obtain ⟨M', hM', hmv, -⟩ := hu.sound href
      obtain rfl := hM.unique hM'
      apply Runs.serveLine_accounted hM hI (hacc.2.2 h0 u hu) _ u hM
      intro c hc hf
      have hc' : m.kernel.gCurrentProcess = some c := by
        rw [hS.refines.globals]
        exact hmv.current.symm.trans hc
      have hf' : c ∈ m.kernel.free := by
        rw [hS.refines.free]
        exact hmv.free hf
      obtain ⟨hlocal, hserve⟩ := hspare ⟨c, hc', hf'⟩ h0 u hu
      exact ⟨hlocal, fun d hd ha => (hserve d hd ha).2⟩
    · exact fun u M _ hI => .inr ⟨hI.surplus, hI.counted, hI.records⟩
  obtain ⟨c, hc⟩ := he.1.resolve_right fun hw => h0 hw.2
  obtain ⟨hcur, hf⟩ := hS.running c hc
  have hskip := hT.quiet (Nucleus.quiet_skip _)
  by_cases hio : t.Calls 5 ∧ ∃ d : Dev, resolveDeviceAddress (t.old 8) = d.val
  · obtain ⟨h5, d, hd⟩ := hio
    apply step_syscall hS.refines h5.1
    rw [syscall_doIo h5.2]
    apply (Runs.sysDoIo_accounted hskip hcur hf hd).mono
    · exact fun _ _ => False.elim
    · exact fun _ _ => .inr
  by_cases h7 : t.Calls 7
  · apply step_syscall hS.refines h7.1
    rw [syscall_clockWait h7.2]
    have hk : N.gPseudoClock ≠ 1 := by
      have := hacc.1 h7
      rwa [hS.refines.globals] at this
    apply Runs.bind
    apply (Runs.sysClockWait_accounted hskip hk _).mono
    · exact fun _ _ => False.elim
    · exact fun _ _ => id
    · exact fun c' hc' => Option.some.inj (hcur.symm.trans hc') ▸ hf
  · have hcov := Accountable.covers hS he hok hacc h0 (fun h5 d hd => hio ⟨h5, d, hd⟩) h7
    obtain ⟨e, s', M, hstep, hM, hend⟩ := step_exception hS.refines hcov
    refine ⟨e, s', M, hstep, hM, .inr (hend.accounted hT ?_)⟩
    exact fun c' hc' => Option.some.inj (hcur.symm.trans hc') ▸ hf

/-- All who wait are counted in every run that is accountable. -/
theorem Reachable.accounted
    (h : Reachable L (fun m e => m.UserSemaphores L e ∧ m.Sparing L e ∧ m.Accountable L e) m) :
    ∃ N, m.Sound N ∧ (m.mode = .stuck ∨ N.Accounted L) := by
  apply h.invariant_or_stuck (I := fun N => N.Accounted L)
  · intro mem p N hN hb
    refine ⟨?_, (booted_kept hb).held.count, fun d => .idle ?_⟩
    · have hsem : ∀ q, (N.pcbs q).pSemAdd = 0 := by
        intro q
        by_contra h0
        have hq := (hN.waiting _ q).mpr ⟨h0, rfl⟩
        rw [Queues.waiters, hb.queue _ (by simp)] at hq
        cases hq
      rw [Nucleus.surplus, hb.soft, Finset.filter_false_of_mem fun q _ => Nucleus.not_soft (hsem q)]
      rfl
    · exact Nucleus.record_booted hb
  · exact fun hN hI => hI.schedule hN
  · exact fun hS hN he hok => hS.accounted_step hN he hok.1 hok.2.1 hok.2.2

end Machine

/-- A live process is blocked on the clock or on the `sem_sync` of a device. -/
def Kernel.Awaits (L : Layout) (s : Kernel) (p : Pcb) : Prop :=
  p ∉ s.free ∧ (p ∈ s.waiters (L.addr .clock) ∨ ∃ d, p ∈ s.waiters (L.addr (.semSync d)))

/-- The count is right, and so is the choice that the scheduler makes by it. -/
structure Kernel.SoftBlockLaw (L : Layout) (s : Kernel) : Prop where
  count : s.gSoftBlockCount =
    ((Finset.univ.filter fun p => p ∉ s.free ∧ p ∈ s.waiters (L.addr .clock)).card +
      (Finset.univ.filter fun p => p ∉ s.free ∧ ∃ d, p ∈ s.waiters (L.addr (.semSync d))).card : Nat)
  nonneg : 0 ≤ s.gSoftBlockCount
  choice : s.ready = [] → (∃ p, p ∉ s.free) → ∃ s',
    scheduler s = .error .wait s' ∧ (∃ p, s.Awaits L p) ∨
    scheduler s = .error .panic s' ∧ ¬∃ p, s.Awaits L p

namespace Nucleus
variable {L : Layout} {N : Nucleus} {p : Pcb}

theorem soft_iff (hN : N.Placed) : N.Soft L p ↔
    p ∈ N.waiters (L.addr .clock) ∨ ∃ d, p ∈ N.waiters (L.addr (.semSync d)) := by
  simp only [hN.waiting, Soft, and_iff_right (L.addr_ne_zero _)]

theorem Accounted.soft_eq (h : N.Accounted L) :
    N.gSoftBlockCount = (Finset.univ.filter (N.Soft L)).card := by
  have := h.surplus
  rw [Nucleus.surplus] at this
  omega

/-- Somebody alive is counted. -/
theorem Counted.pos (h : N.Counted) (hN : N.Placed) (hp : p ∉ N.free) : 0 < N.gProcessCount := by
  have hd : (p :: N.free).Nodup := List.nodup_cons.mpr ⟨hp, hN.apart.nodup .free⟩
  have hle := hd.length_le_card
  rw [List.length_cons, Fintype.card_fin] at hle
  rw [Counted] at h
  omega

theorem Accounted.idleExit (h : N.Accounted L) (hN : N.Placed) (hp : p ∉ N.free) :
    N.idleExit = .wait ∧ (∃ q, N.Soft L q) ∨ N.idleExit = .panic ∧ ¬∃ q, N.Soft L q := by
  have hpos := h.counted.pos hN hp
  have hsoft := h.soft_eq
  by_cases hq : ∃ q, N.Soft L q
  · left
    obtain ⟨q, hq⟩ := hq
    have hcard : 0 < (Finset.univ.filter (N.Soft L)).card :=
      Finset.card_pos.mpr ⟨q, by simpa using hq⟩
    refine ⟨?_, q, hq⟩
    rw [Nucleus.idleExit, if_neg (by omega), if_pos ⟨hpos, by omega⟩]
  · right
    have hcard : (Finset.univ.filter (N.Soft L)).card = 0 := by
      rw [Finset.card_eq_zero, Finset.filter_eq_empty_iff]
      exact fun q _ hs => hq ⟨q, hs⟩
    refine ⟨?_, hq⟩
    rw [Nucleus.idleExit, if_neg (by omega), if_neg (by omega), if_pos ⟨hpos, by omega⟩]

end Nucleus

namespace Machine
variable {L : Layout} {m : Machine} {N : Nucleus} {t : Trap}

theorem Sound.awaits_iff (hS : m.Sound N) (p : Pcb) : m.kernel.Awaits L p ↔ N.Soft L p := by
  rw [Kernel.Awaits, hS.refines.free, Nucleus.soft_iff hS.refines.placed]
  simp only [hS.refines.waiters]
  apply and_iff_right_of_imp
  rintro (hp | ⟨d, hp⟩)
  · exact (hS.refines.valid.waiter_apart hp).1
  · exact (hS.refines.valid.waiter_apart hp).1

/-- `g_soft_block_count` is right in every run that is accountable. -/
theorem soft_block_law
    (h : Reachable L (fun m e => m.UserSemaphores L e ∧ m.Sparing L e ∧ m.Accountable L e) m)
    (hm : m.mode ≠ .stuck) : m.kernel.SoftBlockLaw L := by
  obtain ⟨N, hS, hI⟩ := h.accounted
  have hN := hI.resolve_left hm
  have hplaced := hS.refines.placed
  have hcount : m.kernel.gSoftBlockCount = (Finset.univ.filter (N.Soft L)).card := by
    rw [hS.refines.globals, hN.soft_eq]
  constructor
  · rw [hcount, ← Finset.card_union_of_disjoint]
    · congr 2
      ext p
      simp only [Finset.mem_filter, Finset.mem_univ, true_and, Finset.mem_union, ← and_or_left]
      exact (hS.awaits_iff p).symm
    · rw [Finset.disjoint_filter]
      rintro p - ⟨-, hclock⟩ ⟨-, d, hsync⟩
      rw [hS.refines.waiters] at hclock hsync
      cases L.addr_injective (Place.sem.inj (hplaced.apart.unique hclock hsync))
  · rw [hcount]
    exact Int.natCast_nonneg _
  · rintro hready ⟨p, hp⟩
    obtain ⟨s', hleft, -⟩ := scheduler_left hS.refines
    rw [hS.refines.ready] at hready
    rw [hS.refines.free] at hp
    rw [Nucleus.schedule_nil hready] at hleft
    refine ⟨s', ?_⟩
    simp only [hleft, hS.awaits_iff]
    rcases hN.idleExit hplaced hp with ⟨he, hw⟩ | ⟨he, hw⟩
    · exact .inl ⟨by rw [he], hw⟩
    · exact .inr ⟨by rw [he], hw⟩

/-- One process waits for the clock, another one for a disk. -/
theorem soft_block_law_both : (sampleBoot.run sampleLayout [interrupt 0x400 [] [],
    call 1 0x20060000 0 0, call 7 0 0 0, call 5 0x10000054 0x20070000 0]).kernel.SoftBlockLaw
      sampleLayout := by
  have calls : ∀ {m : Machine} {t : Trap}, excCode (t.old 1) = 8 →
      ¬t.Calls 2 ∧ ¬t.PassesUp → (t.Calls 7 → m.kernel.gPseudoClock ≠ 1) →
      m.Sparing sampleLayout (.exception t) ∧ m.Accountable sampleLayout (.exception t) := by
    intro m t h8 hterm hk
    have h0 : excCode (t.old 1) ≠ 0 := fun h => by cases h8.symm.trans h
    exact ⟨fun _ h => absurd h h0, hk, fun p hp => absurd hp (not_terminates hterm.1 hterm.2),
      fun h => absurd h h0⟩
  have hboot : Reachable sampleLayout (fun m e => m.UserSemaphores sampleLayout e ∧
      m.Sparing sampleLayout e ∧ m.Accountable sampleLayout e) sampleBoot := .boot _ _ _
  apply soft_block_law
  · apply hboot.run
    refine ⟨⟨by decide +kernel, by decide +kernel, ?_, ?_⟩,
      ⟨by decide +kernel, by decide +kernel, calls rfl (by decide) (by decide)⟩,
      ⟨by decide +kernel, by decide +kernel, calls rfl (by decide) (by decide +kernel)⟩,
      ⟨by decide +kernel, by decide +kernel, calls rfl (by decide) (by decide)⟩, trivial⟩
    · exact fun hc => absurd hc (by decide +kernel)
    · obtain ⟨N, hS⟩ := hboot.sound
      have htimers : sampleBoot.Timers (interruptTrap 0x400 [] [] sampleBoot) := by
        unfold Timers
        decide +kernel
      refine ⟨fun h => absurd h.1 (by decide), fun p hp => ?_, fun h0 u hu d hd => ?_⟩
      · exact absurd hp (not_terminates (by decide) (by decide))
      · exact absurd hd (htimers.not_serves hS h0 hu d)
  · decide +kernel

/-- The first `CLOCKWAIT` of all is counted and does not wait. -/
theorem soft_block_miscounted : ¬∀ (L : Layout) (m : Machine),
    Reachable L (UserSemaphores L) m → m.mode ≠ .stuck → m.kernel.SoftBlockLaw L := by
  intro h
  have hr : Reachable sampleLayout (UserSemaphores sampleLayout)
      (sampleBoot.run sampleLayout [call 7 0 0 0]) := .run (.boot _ _ _) (by decide +kernel)
  have hs := h sampleLayout _ hr (by decide +kernel)
  exact absurd hs.count (by decide +kernel)

end Machine

end Pandos
