import Mathlib.Logic.Relation
import Mathlib.Data.Fintype.Card
import Pandos.Phase2.Effects

/-!
# What termination does

`terminateProcess` frees a process and everything below it. `Reaped` says what
becomes of the rest of the kernel, in terms of the list of processes freed.
-/

namespace Pandos
open Intrusive Outcome

namespace Nucleus
variable (L : Layout)

/-- `q` is a proper descendant of `p`. -/
def Below (N : Nucleus) (p q : Pcb) : Prop := Relation.TransGen (fun a b => b ∈ N.pChild a) p q

/-- The device for whose I/O `terminateProcess` would take `p` to wait. -/
def ioDevice (N : Nucleus) (p : Pcb) : Option Dev :=
  if (N.pcbs p).pSemAdd ≠ 0 ∧ isDeviceSemaphore L (N.pcbs p).pSemAdd = true then
    N.waitsOn (resolveSemAddr L (N.pcbs p).pSemAdd) p
  else none

/-- `S` has been terminated, in this order. -/
structure Reaped (S : List Pcb) (N M : Nucleus) : Prop where
  nodup : S.Nodup
  free : M.free = S.reverse ++ N.free.filter (· ∉ S)
  ready : M.ready = N.ready.filter (· ∉ S)
  waiters : ∀ a, M.waiters a = (N.waiters a).filter (· ∉ S)
  pcbs : ∀ p, M.pcbs p = if p ∈ S then { N.pcbs p with pSemAdd := 0 } else N.pcbs p
  pChild : ∀ p, M.pChild p = (N.pChild p).filter (· ∉ S)
  count : M.gProcessCount = N.gProcessCount - S.length
  soft : M.gSoftBlockCount = N.gSoftBlockCount - S.countP fun p => (N.ioDevice L p).isSome
  sync : ∀ d, M.gSysiostates d =
    if ∃ p ∈ S, N.ioDevice L p = some d then { N.gSysiostates d with semSync := -1 }
    else N.gSysiostates d
  rest : M.toGlobals = { N.toGlobals with
    gProcessCount := M.gProcessCount
    gSoftBlockCount := M.gSoftBlockCount
    gSysiostates := M.gSysiostates }

/-- The first part of `terminateProcess`. -/
def unblock (N : Nucleus) (p : Pcb) : Nucleus :=
  if (N.pcbs p).pSemAdd ≠ 0 then
    match N.ioDevice L p with
    | some d => ⟨N.toQueues.wake p,
      { N.toGlobals with gSoftBlockCount := N.gSoftBlockCount - 1 }.modDev d
        ({ · with semSync := -1 })⟩
    | none => ⟨N.toQueues.wake p, N.toGlobals⟩
  else N

/-- The last part. -/
def discard (N : Nucleus) (p : Pcb) : Nucleus :=
  ⟨N.toQueues.moveFirst .free p, { N.toGlobals with gProcessCount := N.gProcessCount - 1 }⟩

def detach (N : Nucleus) (c : Pcb) : Nucleus := ⟨N.toQueues.orphan c, N.toGlobals⟩

end Nucleus

/-! ## The steps -/

section
variable {L : Layout} {s : Kernel} {N : Nucleus} {p c : Pcb}

theorem current_wake (hc : N.Current) {g : Globals} (hg : g.gCurrentProcess = N.gCurrentProcess)
    (p : Pcb) : Nucleus.Current ⟨N.toQueues.wake p, g⟩ := by
  intro c hcur
  obtain ⟨hr, h0⟩ := hc c (hg.symm.trans hcur)
  refine ⟨fun hm => hr (Lists.mem_unlink.mp hm).1, ?_⟩
  by_cases hp : c = p
  · simp [Queues.wake, Queues.unlink, Queues.modPcb, hp]
  · simpa [Queues.wake, Queues.unlink, Queues.modPcb, hp] using h0

theorem unblock_refines (hs : s.Refines N) (p : Pcb) : (s.unblock L p).Refines (N.unblock L p) := by
  by_cases h0 : (N.pcbs p).pSemAdd = 0
  · have h0' : (s.pcbs p).pSemAdd = 0 := by rw [hs.pcbs, h0]
    simpa [Kernel.unblock, Nucleus.unblock, h0, h0'] using hs
  · have h0' : (s.pcbs p).pSemAdd ≠ 0 := by rwa [hs.pcbs]
    obtain ⟨t', ht', hq, he⟩ := Tables.outBlocked_blocked hs.queued h0'
    have hw (g : Globals) (hg : g.gCurrentProcess = N.gCurrentProcess) :
        Kernel.Refines ⟨t', g⟩ ⟨N.toQueues.wake p, g⟩ :=
      ⟨hq, by rw [he, hs.queues], rfl, hs.tree.wake p, current_wake hs.current hg p⟩
    have hsem : (s.pcbs p).pSemAdd = (N.pcbs p).pSemAdd := by rw [hs.pcbs]
    simp only [Kernel.unblock, Nucleus.unblock, h0, ht', ne_eq, not_false_eq_true, if_true,
      Nucleus.ioDevice, hsem, hs.globals, true_and]
    cases hd : isDeviceSemaphore L (N.pcbs p).pSemAdd with
    | false => simpa using hw N.toGlobals rfl
    | true =>
      cases hdev : N.waitsOn (resolveSemAddr L (N.pcbs p).pSemAdd) p with
      | none => simpa [hdev] using hw N.toGlobals rfl
      | some d =>
        simp only [if_true]
        exact hw _ rfl

theorem detach_refines (hs : s.Refines N) (c : Pcb) :
    ({ s with pChild := s.pChild.unlink c } : Kernel).Refines (N.detach c) := by
  refine ⟨hs.queued.relink hs.queued.apart (fun _ => rfl) rfl rfl rfl fun _ => rfl, ?_, hs.globals,
    hs.tree.orphan c, hs.current⟩
  show ({ s.toTables with pChild := s.pChild.unlink c } : Tables).queues = _
  rw [Nucleus.detach, ← hs.queues]
  rfl

theorem discard_refines (hs : s.Refines N) (h0 : (N.pcbs p).pSemAdd = 0)
    (hp : ∀ d, p ∉ N.pChild d) (hn : N.pChild p = []) : (s.discard p).Refines (N.discard p) := by
  have h0' : (s.pcbs p).pSemAdd = 0 := by rw [hs.pcbs, h0]
  refine ⟨Tables.freePcb_queued hs.queued h0', ?_, ?_, hs.tree.release hp hn, ?_⟩
  · show (s.toTables.freePcb p).queues = _
    rw [Tables.freePcb_queues hs.queued h0', hs.queues]
    rfl
  · simp only [Kernel.discard, Nucleus.discard, hs.globals]
  · intro c hc
    obtain ⟨hr, hs0⟩ := hs.current c hc
    refine ⟨fun hm => hr ?_, hs0⟩
    simp only [Nucleus.discard, Queues.ready, Queues.queue_moveFirst] at hm
    exact (Lists.mem_unlink.mp hm).1

end

/-! ## What the steps change -/

namespace Nucleus
variable {L : Layout} {N M : Nucleus} {p q : Pcb}

theorem ioDevice_eq_none (h0 : (N.pcbs p).pSemAdd = 0) : N.ioDevice L p = none := by
  simp [ioDevice, h0]

theorem ioDevice_waiting {d : Dev} (h : N.ioDevice L q = some d) :
    (N.gSysiostates d).waitingProcess = some q := by
  unfold ioDevice at h
  split at h
  · unfold Globals.waitsOn at h
    split at h
    · dsimp only at h
      split at h
      · next hw => exact Option.some.inj h ▸ hw
      · cases h
    · cases h
  · cases h

theorem unblock_free (hp : N.Placed) : (N.unblock L p).free = N.free := by
  have hq : (N.pcbs p).pSemAdd ≠ 0 → N.queue.unlink p .free = N.free := fun h0 =>
    Lists.unlink_of_not_mem fun hm => h0 (hp.semAdd_of_free hm)
  unfold unblock
  split_ifs with h0
  · split <;> exact hq h0
  · rfl

theorem unblock_ready (hp : N.Placed) : (N.unblock L p).ready = N.ready := by
  have hq : (N.pcbs p).pSemAdd ≠ 0 → N.queue.unlink p .ready = N.ready := fun h0 =>
    Lists.unlink_of_not_mem fun hm => h0 (hp.semAdd_of_ready hm)
  unfold unblock
  split_ifs with h0
  · split <;> exact hq h0
  · rfl

theorem unblock_waiters (hp : N.Placed) (a : Word) :
    (N.unblock L p).waiters a = (N.waiters a).filter (· ≠ p) := by
  unfold unblock
  split_ifs with h0
  · split <;> rfl
  · exact (Lists.unlink_of_not_mem (hp.not_waiting (not_not.mp h0))).symm

theorem unblock_pcbs (q : Pcb) : (N.unblock L p).pcbs q =
    if q = p then { N.pcbs q with pSemAdd := 0 } else N.pcbs q := by
  have hw : (N.toQueues.wake p).pcbs q =
      if q = p then { N.pcbs q with pSemAdd := 0 } else N.pcbs q := by
    by_cases hq : q = p
    · subst hq
      simp [Queues.wake, Queues.unlink, Queues.modPcb]
    · simp [Queues.wake, Queues.unlink, Queues.modPcb, hq]
  unfold unblock
  by_cases h0 : (N.pcbs p).pSemAdd = 0
  · rw [if_neg (not_not.mpr h0)]
    by_cases hq : q = p
    · subst hq
      rw [if_pos rfl, ← h0]
    · rw [if_neg hq]
  · rw [if_pos h0]
    split <;> exact hw

theorem unblock_pChild : (N.unblock L p).pChild = N.pChild := by
  unfold unblock
  split_ifs
  · split <;> rfl
  · rfl

theorem unblock_soft : (N.unblock L p).gSoftBlockCount =
    N.gSoftBlockCount - if (N.ioDevice L p).isSome then 1 else 0 := by
  unfold unblock
  split_ifs with h0 hd hd
  · split <;> simp_all [Globals.modDev]
  · split <;> simp_all
  · simp [ioDevice_eq_none (not_not.mp h0)] at hd
  · simp

theorem unblock_sync (d : Dev) : (N.unblock L p).gSysiostates d =
    if N.ioDevice L p = some d then { N.gSysiostates d with semSync := -1 }
    else N.gSysiostates d := by
  unfold unblock
  split_ifs with h0 hd hd
  · rw [hd]
    simp [Globals.modDev]
  · split
    · next e he =>
      have : d ≠ e := fun h => hd (h ▸ he)
      simp [Globals.modDev, this]
    · rfl
  · simp [ioDevice_eq_none (not_not.mp h0)] at hd
  · rfl

theorem unblock_rest : (N.unblock L p).toGlobals = { N.toGlobals with
    gSoftBlockCount := (N.unblock L p).gSoftBlockCount
    gSysiostates := (N.unblock L p).gSysiostates } := by
  unfold unblock
  split_ifs
  · split <;> rfl
  · rfl

theorem unblock_ioDevice (hq : q ≠ p) : (N.unblock L p).ioDevice L q = N.ioDevice L q := by
  have hw : ∀ d, ((N.unblock L p).gSysiostates d).waitingProcess =
      (N.gSysiostates d).waitingProcess := by
    intro d
    rw [unblock_sync]
    split <;> rfl
  have hs : ∀ i, (N.unblock L p).waitsOn i q = N.waitsOn i q := by
    intro i
    simp only [Globals.waitsOn, hw]
  simp only [ioDevice, unblock_pcbs, if_neg hq, hs]

end Nucleus

/-! ## Putting steps together -/

namespace Nucleus.Reaped
variable {L : Layout} {S T : List Pcb} {N M P : Nucleus} {p c : Pcb}

theorem waitsOn (h : Reaped L S N M) (i : Int) (p : Pcb) : M.waitsOn i p = N.waitsOn i p := by
  have hw : ∀ d, (M.gSysiostates d).waitingProcess = (N.gSysiostates d).waitingProcess := by
    intro d
    rw [h.sync d]
    split <;> rfl
  simp only [Globals.waitsOn, hw]

theorem ioDevice (h : Reaped L S N M) (p : Pcb) :
    M.ioDevice L p = if p ∈ S then none else N.ioDevice L p := by
  simp only [Nucleus.ioDevice, h.pcbs p, h.waitsOn]
  split <;> simp

theorem filter_filter (l : List Pcb) (S T : List Pcb) :
    (l.filter (· ∉ S)).filter (· ∉ T) = l.filter (· ∉ S ++ T) := by
  rw [List.filter_filter]
  apply List.filter_congr
  intro p _
  simp [List.mem_append, not_or, Bool.and_comm]

theorem nil : Reaped L [] N N := by
  constructor <;> simp

theorem trans (h : Reaped L S N M) (k : Reaped L T M P) (hd : ∀ p ∈ T, p ∉ S) :
    Reaped L (S ++ T) N P where
  nodup := List.nodup_append.mpr ⟨h.nodup, k.nodup, fun p hp q hq e => hd q hq (e ▸ hp)⟩
  free := by
    have hS : S.reverse.filter (· ∉ T) = S.reverse := by
      apply List.filter_eq_self.mpr
      intro p hp
      have : p ∉ T := fun hm => hd p hm (List.mem_reverse.mp hp)
      simpa using this
    rw [k.free, h.free, List.filter_append, filter_filter, hS, List.reverse_append,
      List.append_assoc]
  ready := by rw [k.ready, h.ready, filter_filter]
  waiters a := by rw [k.waiters, h.waiters, filter_filter]
  pcbs p := by
    rw [k.pcbs, h.pcbs]
    by_cases hS : p ∈ S <;> by_cases hT : p ∈ T <;> simp [hS, hT]
  pChild p := by rw [k.pChild, h.pChild, filter_filter]
  count := by
    rw [k.count, h.count, List.length_append]
    omega
  soft := by
    have hT : (T.countP fun p => (M.ioDevice L p).isSome) =
        T.countP fun p => (N.ioDevice L p).isSome := by
      apply List.countP_congr
      intro p hp
      rw [h.ioDevice, if_neg (hd p hp)]
    rw [k.soft, h.soft, hT, List.countP_append]
    omega
  sync d := by
    have hT : (∃ p ∈ T, M.ioDevice L p = some d) ↔ ∃ p ∈ T, N.ioDevice L p = some d := by
      constructor <;> rintro ⟨p, hp, hi⟩ <;> refine ⟨p, hp, ?_⟩
      · rwa [h.ioDevice, if_neg (hd p hp)] at hi
      · rwa [h.ioDevice, if_neg (hd p hp)]
    rw [k.sync, h.sync]
    simp only [hT, List.mem_append, or_and_right, exists_or]
    by_cases hs : ∃ p ∈ S, N.ioDevice L p = some d <;>
      by_cases ht : ∃ p ∈ T, N.ioDevice L p = some d <;> simp [hs, ht]
  rest := by
    rw [k.rest, h.rest]

/-- A process taken off its parent before it is terminated. -/
theorem detach (h : Reaped L S (N.detach c) M) (hc : c ∈ S) : Reaped L S N M where
  nodup := h.nodup
  free := h.free
  ready := h.ready
  waiters := h.waiters
  pcbs := h.pcbs
  pChild p := by
    rw [h.pChild p]
    show ((N.pChild p).filter (· ≠ c)).filter (· ∉ S) = _
    rw [List.filter_filter]
    apply List.filter_congr
    intro q _
    have : q ∉ S → q ≠ c := fun hq e => hq (e ▸ hc)
    simpa using this
  count := h.count
  soft := h.soft
  sync := h.sync
  rest := h.rest

/-- A process goes off its semaphore first and to the free list last. -/
theorem root (hN : N.Placed) (horphan : ∀ q, p ∉ N.pChild q)
    (h : Reaped L S (N.unblock L p) M) (hp : p ∉ S) :
    Reaped L (S ++ [p]) N (M.discard p) := by
  have hne : ∀ l : List Pcb, (l.filter (· ∉ S)).filter (· ≠ p) = l.filter (· ∉ S ++ [p]) := by
    intro l
    rw [← filter_filter]
    simp
  have hS : S.filter (· ≠ p) = S := by
    apply List.filter_eq_self.mpr
    intro q hq
    have : q ≠ p := fun e => hp (e ▸ hq)
    simpa using this
  have hio : ∀ q ∈ S, (N.unblock L p).ioDevice L q = N.ioDevice L q := fun q hq =>
    unblock_ioDevice fun e => hp (e ▸ hq)
  refine ⟨?_, ?_, ?_, ?_, ?_, ?_, ?_, ?_, ?_, ?_⟩
  · have hd : ∀ q ∈ S, q ≠ p := fun q hq e => hp (e ▸ hq)
    exact List.nodup_append.mpr ⟨h.nodup, by simp, by simpa using hd⟩
  · rw [Nucleus.discard, Queues.free, Queues.queue_moveFirst, if_pos rfl]
    show p :: (M.free).filter (· ≠ p) = _
    rw [h.free, unblock_free hN, List.filter_append, hne, List.filter_reverse, hS]
    simp
  · rw [Nucleus.discard, Queues.ready, Queues.queue_moveFirst, if_neg (by simp)]
    show (M.ready).filter (· ≠ p) = _
    rw [h.ready, unblock_ready hN, hne]
  · intro a
    rw [Nucleus.discard, Queues.waiters, Queues.queue_moveFirst, if_neg (by simp)]
    show (M.waiters a).filter (· ≠ p) = _
    rw [h.waiters, unblock_waiters hN, hne, List.filter_filter]
    apply List.filter_congr
    intro q _
    by_cases hq : q = p <;> simp [hq]
  · intro q
    show M.pcbs q = _
    rw [h.pcbs, unblock_pcbs]
    by_cases hq : q = p
    · subst hq
      simp [hp]
    · simp [hq]
  · intro q
    show M.pChild q = _
    have hq : (N.pChild q).filter (· ≠ p) = N.pChild q := by
      apply List.filter_eq_self.mpr
      intro c hc
      have : c ≠ p := fun e => horphan q (e ▸ hc)
      simpa using this
    rw [h.pChild, unblock_pChild, ← hne, List.filter_filter]
    conv_lhs => rw [← hq, List.filter_filter]
    simp only [Bool.and_comm]
  · have hc : (N.unblock L p).gProcessCount = N.gProcessCount := by rw [unblock_rest]
    show M.gProcessCount - 1 = _
    rw [h.count, hc, List.length_append, List.length_singleton]
    omega
  · show M.gSoftBlockCount = _
    have hc : (S.countP fun q => ((N.unblock L p).ioDevice L q).isSome) =
        S.countP fun q => (N.ioDevice L q).isSome :=
      List.countP_congr fun q hq => by rw [hio q hq]
    rw [h.soft, unblock_soft, hc, List.countP_append, List.countP_singleton]
    split <;> omega
  · intro d
    show M.gSysiostates d = _
    have hS' : (∃ q ∈ S, (N.unblock L p).ioDevice L q = some d) ↔
        ∃ q ∈ S, N.ioDevice L q = some d := by
      constructor <;> rintro ⟨q, hq, hi⟩ <;> refine ⟨q, hq, ?_⟩
      · rwa [hio q hq] at hi
      · rwa [hio q hq]
    rw [h.sync, unblock_sync]
    simp only [hS', List.mem_append, List.mem_singleton, or_and_right, exists_or, exists_eq_left]
    by_cases hs : ∃ q ∈ S, N.ioDevice L q = some d <;>
      by_cases hd : N.ioDevice L p = some d <;> simp [hs, hd]
  · show ({ M.toGlobals with gProcessCount := M.gProcessCount - 1 } : Globals) = _
    rw [h.rest, unblock_rest]
    rfl

end Nucleus.Reaped

/-! ## The recursion -/

namespace Nucleus
variable {L : Layout} {N M : Nucleus} {S : List Pcb} {p q c : Pcb}

theorem Below.mono (hc : ∀ a b, b ∈ M.pChild a → b ∈ N.pChild a) (h : M.Below p q) : N.Below p q :=
  Relation.TransGen.mono (fun a b => hc a b) _ _ h

theorem Below.parent (h : N.Below p q) : ∃ a, q ∈ N.pChild a := by
  cases h with
  | single h => exact ⟨_, h⟩
  | tail _ h => exact ⟨_, h⟩

theorem not_below_of_leaf (hp : N.pChild p = []) : ¬N.Below p q := by
  intro h
  obtain ⟨b, hb, -⟩ := Relation.TransGen.head'_iff.mp h
  rw [hp] at hb
  cases hb

/-- Only live processes have ancestors and descendants. -/
theorem Below.live (h : N.Below p q) (ht : N.Tree) : p ∉ N.free ∧ q ∉ N.free := by
  constructor
  · obtain ⟨b, hb, -⟩ := Relation.TransGen.head'_iff.mp h
    exact ht.liveParent p b hb
  · obtain ⟨a, ha⟩ := h.parent
    exact ht.liveChild a q ha

theorem Reaped.child (h : Reaped L S N M) {a b : Pcb} (hb : b ∈ M.pChild a) : b ∈ N.pChild a := by
  rw [h.pChild] at hb
  exact (List.mem_filter.mp hb).1

theorem Reaped.mem_free (h : Reaped L S N M) (hp : p ∈ S) : p ∈ M.free := by
  rw [h.free]
  exact List.mem_append_left _ (List.mem_reverse.mpr hp)

/-- A freed process has no children left, so all of them were freed with it. -/
theorem Reaped.closed (h : Reaped L S N M) (ht : M.Tree) {a b : Pcb} (ha : a ∈ S)
    (hb : b ∈ N.pChild a) : b ∈ S := by
  have hfree := h.mem_free ha
  by_contra hn
  have hm : b ∈ M.pChild a := by
    rw [h.pChild]
    exact List.mem_filter.mpr ⟨hb, by simpa using hn⟩
  rw [ht.no_child_of_free hfree] at hm
  cases hm

theorem Reaped.mem_iff (h : Reaped L S N M) (ht : M.Tree) (hp : p ∈ S)
    (hS : ∀ q ∈ S, q = p ∨ N.Below p q) (q : Pcb) : q ∈ S ↔ q = p ∨ N.Below p q := by
  refine ⟨hS q, ?_⟩
  rintro (rfl | hb)
  · exact hp
  · induction hb with
    | single hb => exact h.closed ht hp hb
    | tail _ hb ih => exact h.closed ht ih hb

/-- How many processes have a parent. -/
def links (N : Nucleus) : Nat := (Finset.univ.filter fun c => ∃ p, c ∈ N.pChild p).card

theorem links_le (hc : ∀ a b, b ∈ M.pChild a → b ∈ N.pChild a) : M.links ≤ N.links := by
  apply Finset.card_le_card
  intro c hm
  obtain ⟨p, hp⟩ := (Finset.mem_filter.mp hm).2
  exact Finset.mem_filter.mpr ⟨Finset.mem_univ c, p, hc p c hp⟩

theorem links_detach (hc : c ∈ N.pChild p) : (N.detach c).links < N.links := by
  apply Finset.card_lt_card
  refine Finset.ssubset_iff_of_subset ?_ |>.mpr ⟨c, by simpa using ⟨p, hc⟩, ?_⟩
  · intro d hm
    obtain ⟨q, hq⟩ := (Finset.mem_filter.mp hm).2
    exact Finset.mem_filter.mpr ⟨Finset.mem_univ d, q, (Lists.mem_unlink.mp hq).1⟩
  · simp [detach, Queues.orphan]

theorem links_le_maxProc (N : Nucleus) : N.links ≤ maxProc := by
  apply (Finset.card_le_univ _).trans
  simp

end Nucleus

section
variable {L : Layout}

/-- The outcome `r` of a call that terminates exactly `S` and leaves `p` childless. -/
def Terminates (L : Layout) (p : Pcb) (N : Nucleus) (S : List Pcb) (r : Option Kernel) : Prop :=
  ∃ s' M, r = some s' ∧ s'.Refines M ∧ Nucleus.Reaped L S N M ∧ M.pChild p = []

theorem terminate_step (fuel : Nat) :
    (∀ (s : Kernel) (N : Nucleus) (p : Pcb), s.Refines N → (∀ d, p ∉ N.pChild d) →
      2 * N.links + 2 ≤ fuel → ∃ S, (∀ q ∈ S, N.Below p q) ∧
        Terminates L p N (S ++ [p]) (terminateProcess L fuel s p)) ∧
    ∀ (s : Kernel) (N : Nucleus) (p : Pcb), s.Refines N → 2 * N.links + 1 ≤ fuel →
      ∃ S, (∀ q ∈ S, N.Below p q) ∧ Terminates L p N S (terminateChildren L fuel s p) := by
  induction fuel with
  | zero =>
    constructor
    · intro s N p _ _ hf
      omega
    · intro s N p _ hf
      omega
  | succ fuel ih =>
    obtain ⟨ihp, ihc⟩ := ih
    constructor
    · intro s N p hs horphan hf
      have hl : (N.unblock L p).links = N.links := by
        simp only [Nucleus.links, Nucleus.unblock_pChild]
      obtain ⟨S, hS, s', M, hs', hM, hr, hn⟩ := ihc _ _ p (unblock_refines (L := L) hs p) (by omega)
      have hbelow : ∀ q ∈ S, N.Below p q := fun q hq =>
        (hS q hq).mono fun a b hb => by rwa [Nucleus.unblock_pChild] at hb
      have hp : p ∉ S := by
        intro hp
        obtain ⟨a, ha⟩ := (hbelow p hp).parent
        exact horphan a ha
      have hM0 : (M.pcbs p).pSemAdd = 0 := by
        rw [hr.pcbs, if_neg hp, Nucleus.unblock_pcbs, if_pos rfl]
      have horphan' : ∀ d, p ∉ M.pChild d := by
        intro d hd
        have := hr.child hd
        rw [Nucleus.unblock_pChild] at this
        exact horphan d this
      refine ⟨S, hbelow, s'.discard p, M.discard p, ?_, discard_refines hM hM0 horphan' hn,
        hr.root hs.placed horphan hp, hn⟩
      simp [terminateProcess, hs']
    · intro s N p hs hf
      cases hc : N.pChild p with
      | nil =>
        refine ⟨[], by simp, s, N, ?_, hs, .nil, hc⟩
        simp [terminateChildren, Tables.removeChild, hs.pChild, hc]
      | cons c l =>
        have hmem : c ∈ N.pChild p := by simp [hc]
        have hlt := Nucleus.links_detach hmem
        obtain ⟨S, hS, s₁, M₁, hs₁, hM₁, hr₀, -⟩ := ihp _ _ c (detach_refines hs c)
          (fun d hd => (Lists.mem_unlink.mp hd).2 rfl) (by omega)
        have hle := Nucleus.links_le fun a b => hr₀.child
        have hr₁ := hr₀.detach (by simp)
        obtain ⟨T, hT, s₂, M₂, hs₂, hM₂, hr₂, hn⟩ := ihc s₁ M₁ p hM₁ (by omega)
        have hfree : ∀ q ∈ T, q ∉ S ++ [c] := by
          intro q hq hmem
          obtain ⟨a, ha⟩ := (hT q hq).parent
          apply hM₁.tree.liveChild a q ha
          rw [hr₁.free]
          exact List.mem_append_left _ (List.mem_reverse.mpr hmem)
        refine ⟨(S ++ [c]) ++ T, ?_, s₂, M₂, ?_, hM₂, hr₁.trans hr₂ hfree, hn⟩
        · intro q hq
          rcases List.mem_append.mp hq with hq | hq
          · rcases List.mem_append.mp hq with hq | hq
            · exact Relation.TransGen.head hmem
                ((hS q hq).mono fun a b hb => (Lists.mem_unlink.mp hb).1)
            · exact List.mem_singleton.mp hq ▸ .single hmem
          · exact (hT q hq).mono fun a b => hr₁.child
        · have hrem : s.removeChild p = (some c, { s.toTables with pChild := s.pChild.unlink c }) := by
            simp [Tables.removeChild, hs.pChild, hc]
          simp only [terminateChildren, hrem, hs₁, Option.bind_some, hs₂]

/-- `terminateProcess` ends, and frees the process and exactly what is below it. -/
theorem terminateProcess_reaps {s : Kernel} {N : Nucleus} {p : Pcb} (hs : s.Refines N)
    (horphan : ∀ d, p ∉ N.pChild d) : ∃ s' M S,
      terminateProcess L terminateFuel s p = some s' ∧ s'.Refines M ∧ Nucleus.Reaped L S N M ∧
      ∀ q, q ∈ S ↔ q = p ∨ N.Below p q := by
  have hf : 2 * N.links + 2 ≤ terminateFuel := by
    have := N.links_le_maxProc
    simp only [terminateFuel]
    omega
  obtain ⟨S, hS, s', M, hs', hM, hr, -⟩ := (terminate_step terminateFuel).1 s N p hs horphan hf
  refine ⟨s', M, S ++ [p], hs', hM, hr, hr.mem_iff hM.tree (by simp) fun q hq => ?_⟩
  rcases List.mem_append.mp hq with hq | hq
  · exact Or.inr (hS q hq)
  · exact Or.inl (List.mem_singleton.mp hq)

end

/-! ## `sysTerminateProcess` -/

namespace Runs
variable {L : Layout} {N : Nucleus} {E : Exit → Nucleus → Prop} {p c : Pcb}

theorem outChild_eq {t : Tables} (ht : t.queues.Tree) (c : Pcb) :
    (t.outChild c).2 = { t with pChild := t.pChild.unlink c } := by
  by_cases hc : ∃ d, c ∈ t.pChild d
  · obtain ⟨d, hd⟩ := hc
    have hp : (t.pcbs c).pParent = some d := ht.parent d c hd
    simp only [Tables.outChild, hp, hd, if_true]
  · have hu : t.pChild.unlink c = t.pChild := Lists.unlink_of_free fun d hd => hc ⟨d, hd⟩
    rw [hu]
    unfold Tables.outChild
    split
    · rfl
    · rw [if_neg fun hd => hc ⟨_, hd⟩]

theorem outChild {Q : Option Pcb → Nucleus → Prop} (h : ∀ r, Q r (N.detach c)) :
    Runs (K.fromTables (·.outChild c)) N Q E := by
  intro s hs
  have ht : s.toTables.queues.Tree := hs.queues ▸ hs.tree
  refine ⟨N.detach c, ?_, h _⟩
  show Kernel.Refines ⟨(s.toTables.outChild c).2, s.toGlobals⟩ _
  rw [outChild_eq ht]
  exact detach_refines hs c

theorem sysTerminateProcess {pid : Option Pcb} (hp : pid.or N.gCurrentProcess = some p)
    (h : ∀ S M, Nucleus.Reaped L S N M → (∀ q, q ∈ S ↔ q = p ∨ N.Below p q) → M.Placed → M.Tree →
      M.Current → E M.schedule.1 M.schedule.2) :
    Runs (sysTerminateProcess L pid) N (fun _ _ => False) E := by
  have body : Runs (Pandos.sysTerminateProcess L (some p)) N (fun _ _ => False) E := by
    refine Runs.bind (Runs.pure (Runs.bind (outChild fun _ => Runs.get fun s hs => ?_)))
    obtain ⟨s', M, S, hs', hM, hr, hS⟩ := terminateProcess_reaps (L := L) hs
      (p := p) (fun d hd => (Lists.mem_unlink.mp hd).2 rfl)
    have hr' := hr.detach ((hS p).mpr (Or.inl rfl))
    have hS' := hr'.mem_iff hM.tree ((hS p).mpr (Or.inl rfl)) fun q hq =>
      ((hS q).mp hq).imp id (·.mono fun a b hb => (Lists.mem_unlink.mp hb).1)
    rw [hs']
    have := scheduler (N := M) (Q := fun _ _ => False) fun _ =>
      h S M hr' hS' hM.placed hM.tree hM.current
    intro t ht
    exact this s' hM
  cases pid with
  | some q =>
    obtain rfl : q = p := by simpa using hp
    exact body
  | none =>
    refine Runs.bind (current (fun q hq => ?_) fun hn => ?_)
    · obtain rfl : q = p := by simpa [hq] using hp
      exact body
    · simp [hn] at hp

theorem sysTerminateProcess_none (hc : N.gCurrentProcess = none) (h : E .fault N) :
    Runs (Pandos.sysTerminateProcess L none) N (fun _ _ => False) E :=
  Runs.bind (current (fun q hq => by rw [hc] at hq; cases hq) fun _ => h)

end Runs

end Pandos
