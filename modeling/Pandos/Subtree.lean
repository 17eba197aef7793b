import Pandos.Scenario

/-!
# Termination of a subtree

`terminateProcess` frees the subtree of a process and nothing else: the queues
lose its members only, and the semaphores, their descriptors and the other
processes stay as they are.
-/

namespace Pandos
open Intrusive

namespace Kernel
variable {L : Layout} {s s' : Kernel} {c : Option Pcb} {p : Pcb}

/-! ## The current process does not matter -/

def withCurrent (s : Kernel) (c : Option Pcb) : Kernel := { s with gCurrentProcess := c }

theorem unblock_withCurrent (s : Kernel) (c : Option Pcb) (p : Pcb) :
    (s.withCurrent c).unblock L p = (s.unblock L p).withCurrent c := by
  unfold unblock
  by_cases h0 : (s.pcbs p).pSemAdd ≠ 0
  · rw [if_pos h0, if_pos (show ((s.withCurrent c).pcbs p).pSemAdd ≠ 0 from h0)]
    cases hout : s.outBlocked p with
    | mk r t =>
      have hout' : (s.withCurrent c).outBlocked p = (r, t) := hout
      cases r with
      | none =>
        simp only [hout']
        rfl
      | some q =>
        simp only [hout']
        by_cases hdev : isDeviceSemaphore L (s.pcbs p).pSemAdd = true
        · rw [if_pos hdev, if_pos (show isDeviceSemaphore L ((s.withCurrent c).pcbs p).pSemAdd = true from hdev)]
          have hw : { s.withCurrent c with toTables := t }.waitsOn
            (resolveSemAddr L ((s.withCurrent c).pcbs p).pSemAdd) p =
              { s with toTables := t }.waitsOn (resolveSemAddr L (s.pcbs p).pSemAdd) p := rfl
          rw [hw]
          cases { s with toTables := t }.waitsOn (resolveSemAddr L (s.pcbs p).pSemAdd) p <;> rfl
        · rw [if_neg hdev, if_neg (show ¬isDeviceSemaphore L ((s.withCurrent c).pcbs p).pSemAdd = true from hdev)]
          rfl
  · rw [if_neg h0, if_neg (show ¬((s.withCurrent c).pcbs p).pSemAdd ≠ 0 from h0)]

theorem terminate_withCurrent (fuel : Nat) :
    (∀ (s : Kernel) (p : Pcb), terminateProcess L fuel (s.withCurrent c) p =
      (terminateProcess L fuel s p).map (·.withCurrent c)) ∧
    ∀ (s : Kernel) (p : Pcb), terminateChildren L fuel (s.withCurrent c) p =
      (terminateChildren L fuel s p).map (·.withCurrent c) := by
  induction fuel with
  | zero => exact ⟨fun _ _ => rfl, fun _ _ => rfl⟩
  | succ fuel ih =>
    obtain ⟨ihp, ihc⟩ := ih
    constructor
    · intro s p
      rw [terminateProcess, terminateProcess, unblock_withCurrent, ihc]
      cases terminateChildren L fuel (s.unblock L p) p <;> rfl
    · intro s p
      have hrem : (s.withCurrent c).removeChild p = s.removeChild p := rfl
      rw [terminateChildren, terminateChildren, hrem]
      cases hr : s.removeChild p with
      | mk r t =>
        cases r with
        | none => rfl
        | some child =>
          have hstep := ihp { s with toTables := t } child
          show (terminateProcess L fuel (withCurrent { s with toTables := t } c) child).bind _ = _
          rw [hstep]
          show _ = ((terminateProcess L fuel { s with toTables := t } child).bind
            (terminateChildren L fuel · p)).map (·.withCurrent c)
          cases terminateProcess L fuel { s with toTables := t } child with
          | none => rfl
          | some u => exact ihc u p

/-! ## Descriptors -/

/-- Descriptors keep their keys, and none is taken. -/
def KeepsKeys (t t' : Tables) : Prop :=
  t'.sKey = t.sKey ∧ ∀ i ∈ t.semdFreeH, i ∈ t'.semdFreeH

theorem KeepsKeys.trans {t u v : Tables} (h : KeepsKeys t u) (k : KeepsKeys u v) : KeepsKeys t v :=
  ⟨k.1.trans h.1, fun i hi => k.2 i (h.2 i hi)⟩

theorem outBlocked_keepsKeys (t : Tables) (p : Pcb) : KeepsKeys t (t.outBlocked p).2 := by
  unfold Tables.outBlocked
  split
  · exact ⟨rfl, fun _ => id⟩
  · split
    · unfold Tables.freeSemdIfempty
      split
      · exact ⟨rfl, fun i => List.mem_cons_of_mem _⟩
      · exact ⟨rfl, fun _ => id⟩
    · exact ⟨rfl, fun _ => id⟩

theorem unblock_toTables (s : Kernel) (p : Pcb) : (s.unblock L p).toTables =
    if (s.pcbs p).pSemAdd ≠ 0 then (s.outBlocked p).2 else s.toTables := by
  simp only [unblock]
  split
  · cases hout : s.outBlocked p with
    | mk r t =>
      cases r with
      | none => rfl
      | some q =>
        dsimp only
        split
        · split <;> rfl
        · rfl
  · rfl

theorem unblock_keepsKeys (s : Kernel) (p : Pcb) :
    KeepsKeys s.toTables (s.unblock L p).toTables := by
  rw [unblock_toTables]
  split
  · exact outBlocked_keepsKeys s.toTables p
  · exact ⟨rfl, fun _ => id⟩

theorem removeChild_keepsKeys (t : Tables) (p : Pcb) : KeepsKeys t (t.removeChild p).2 := by
  unfold Tables.removeChild
  split <;> exact ⟨rfl, fun _ => id⟩

theorem discard_keepsKeys (s : Kernel) (p : Pcb) : KeepsKeys s.toTables (s.discard p).toTables := by
  show KeepsKeys s.toTables (s.toTables.freePcb p)
  rw [Tables.freePcb_eq]
  exact ⟨rfl, fun _ => id⟩

theorem terminate_keepsKeys (fuel : Nat) :
    (∀ (s : Kernel) (p : Pcb) (s' : Kernel), terminateProcess L fuel s p = some s' →
      KeepsKeys s.toTables s'.toTables) ∧
    ∀ (s : Kernel) (p : Pcb) (s' : Kernel), terminateChildren L fuel s p = some s' →
      KeepsKeys s.toTables s'.toTables := by
  induction fuel with
  | zero =>
    constructor
    · intro s p s' h
      cases h
    · intro s p s' h
      cases h
  | succ fuel ih =>
    obtain ⟨ihp, ihc⟩ := ih
    constructor
    · intro s p s' h
      rw [terminateProcess, Option.map_eq_some_iff] at h
      obtain ⟨u, hu, rfl⟩ := h
      exact ((unblock_keepsKeys s p).trans (ihc _ p u hu)).trans (discard_keepsKeys u p)
    · intro s p s' h
      have hrem := removeChild_keepsKeys s.toTables p
      rw [terminateChildren] at h
      cases hr : s.removeChild p with
      | mk r t =>
        rw [hr] at h hrem
        cases r with
        | none =>
          obtain rfl := Option.some.inj h
          exact hrem
        | some child =>
          obtain ⟨u, hu, h⟩ := Option.bind_eq_some_iff.mp h
          exact (hrem.trans (ihp _ child u hu)).trans (ihc u p s' h)

/-! ## What is left -/

/-- `S` has been terminated, from `s` to `s'`. -/
structure Pruned (s s' : Kernel) (S : List Pcb) : Prop where
  nodup : S.Nodup
  free : s'.free = S.reverse ++ s.free
  count : s'.gProcessCount = s.gProcessCount - S.length
  ready : s'.ready = s.ready.filter (· ∉ S)
  queue : ∀ i, s'.procQ (.sProcq i) = (s.procQ (.sProcq i)).filter (· ∉ S)
  gone : ∀ q ∈ S, q ∉ s'.ready ∧ ∀ i, q ∉ s'.procQ (.sProcq i)
  descriptor : ∀ i, i ∈ s'.semdFreeH ↔ i ∈ s.semdFreeH ∨ ∀ q ∈ s.procQ (.sProcq i), q ∈ S
  bucket : ∀ b i, i ∈ s'.semdH b ↔ i ∈ s.semdH b ∧ i ∉ s'.semdFreeH
  key : s'.sKey = s.sKey
  others : ∀ q, q ∉ S → s'.pcbs q = s.pcbs q ∧ s'.pChild q = s.pChild q
  device : ∀ d, (s'.gSysiostates d).semMut = (s.gSysiostates d).semMut ∧
    (s'.gSysiostates d).waitingProcess = (s.gSysiostates d).waitingProcess
  sync : ∀ d, (∀ q ∈ S, (s.gSysiostates d).waitingProcess ≠ some q) →
    (s'.gSysiostates d).semSync = (s.gSysiostates d).semSync
  rest : s'.toGlobals = { s.toGlobals with
    gProcessCount := s'.gProcessCount
    gSoftBlockCount := s'.gSoftBlockCount
    gSysiostates := s'.gSysiostates }

theorem queue_filter {t t' : Tables} {S : List Pcb} (h : t.Queued) (h' : t'.Queued)
    (hk : KeepsKeys t t') (hw : ∀ a, t'.waiters a = (t.waiters a).filter (· ∉ S)) (i : Semd) :
    t'.procQ (.sProcq i) = (t.procQ (.sProcq i)).filter (· ∉ S) := by
  by_cases hi : t.procQ (.sProcq i) = []
  · rw [hi, List.filter_nil, h'.waiting]
    exact hk.2 i ((h.waiting i).mp hi)
  · rw [← h.waiters_of_key rfl hi, ← hw]
    by_cases hi' : t'.procQ (.sProcq i) = []
    · rw [hi']
      -- no other descriptor has the key, for none had it before
      by_contra hne
      obtain ⟨q, l, hq⟩ := List.exists_cons_of_ne_nil (Ne.symm hne)
      obtain ⟨j, -, hj, hact, hkey⟩ := h'.waiters_cons hq
      have hji : j = i := by
        apply h.keyUnique j i (fun hf => hact (hk.2 j hf)) (fun hf => hi ((h.waiting i).mpr hf))
        rw [← hkey, hk.1]
      rw [hji, hi'] at hj
      cases hj
    · exact (h'.waiters_of_key (congrFun hk.1 i) hi').symm

theorem terminateProcess_current (h : terminateProcess L terminateFuel s p = some s') :
    s'.gCurrentProcess = s.gCurrentProcess := by
  have hw := (terminate_withCurrent (L := L) (c := s.gCurrentProcess) terminateFuel).1 s p
  rw [show s.withCurrent s.gCurrentProcess = s from rfl, h] at hw
  exact congrArg (·.gCurrentProcess) (Option.some.inj hw)

/-- `terminateProcess` ends, and frees exactly the subtree of the process. -/
theorem subtree_terminated (hq : s.Queued) (ht : s.queues.Tree) (hp : p ∉ s.free)
    (horphan : ∀ d, p ∉ s.pChild d) : ∃ s' S, terminateProcess L terminateFuel s p = some s' ∧
      (∀ q, q ∈ S ↔ q = p ∨ s.nucleus.Below p q) ∧ Pruned s s' S := by
  have hs : (s.withCurrent none).Refines (s.withCurrent none).nucleus :=
    ⟨hq, rfl, rfl, ht, fun _ h => by cases h⟩
  obtain ⟨s₁, M, S, hs₁, hM, hr, hS⟩ := terminateProcess_reaps (L := L) (p := p) hs horphan
  rw [(terminate_withCurrent terminateFuel).1, Option.map_eq_some_iff] at hs₁
  obtain ⟨s', hs', rfl⟩ := hs₁
  have hq' : s'.Queued := hM.queued
  have hkeys := (terminate_keepsKeys terminateFuel).1 s p s' hs'
  have hw : ∀ a, s'.waiters a = (s.waiters a).filter (· ∉ S) := fun a =>
    (hM.waiters a).trans (hr.waiters a)
  have hready : s'.ready = s.ready.filter (· ∉ S) := hM.ready.trans hr.ready
  have hqueue := queue_filter hq hq' hkeys hw
  have hdescriptor : ∀ i, i ∈ s'.semdFreeH ↔
      i ∈ s.semdFreeH ∨ ∀ q ∈ s.procQ (.sProcq i), q ∈ S := by
    intro i
    rw [← hq'.waiting, hqueue, List.filter_eq_nil_iff]
    constructor
    · exact fun h => .inr fun q hm => by simpa using h q hm
    · rintro (hi | h) q hm
      · rw [(hq.waiting i).mpr hi] at hm
        cases hm
      · simpa using h q hm
  have hlive : ∀ q ∈ S, q ∉ s.free := by
    intro q hm
    rcases (hS q).mp hm with rfl | hb
    · exact hp
    · exact (hb.live ht).2
  have hcur := terminateProcess_current hs'
  refine ⟨s', S, hs', hS, ⟨hr.nodup, ?_, ?_, hready, hqueue, fun q hm => ⟨?_, fun i => ?_⟩,
    hdescriptor, fun b i => ?_, hkeys.1, fun q hm => ⟨?_, ?_⟩, fun d => ?_, fun d hd => ?_, ?_⟩⟩
  · have hfree : s.free.filter (· ∉ S) = s.free :=
      List.filter_eq_self.mpr fun q hf => by simpa using fun hm => hlive q hm hf
    rw [← hfree]
    exact hM.free.trans hr.free
  · have := hr.count
    rw [← hM.globals] at this
    exact this
  · rw [hready]
    exact fun h => by simpa [hm] using (List.mem_filter.mp h).2
  · rw [hqueue]
    exact fun h => by simpa [hm] using (List.mem_filter.mp h).2
  · rw [hq'.placed, hq.placed, hkeys.1]
    have := hkeys.2 i
    tauto
  · have := hr.pcbs q
    rw [if_neg hm, ← hM.pcbs] at this
    exact this
  · have := hr.pChild q
    rw [← hM.pChild] at this
    refine this.trans (List.filter_eq_self.mpr fun c hc => ?_)
    -- a child of a process outside the subtree is outside, too
    have hcS : c ∉ S := by
      intro hcS
      rcases (hS c).mp hcS with rfl | hb
      · exact horphan q hc
      · obtain ⟨a, ha, hac⟩ := Relation.TransGen.tail'_iff.mp hb
        obtain rfl : a = q := ht.apart.unique hac hc
        apply hm
        rw [hS]
        exact (Relation.reflTransGen_iff_eq_or_transGen.mp ha).imp id id
    simpa using hcS
  · have := hr.sync d
    rw [← hM.globals] at this
    have hd : (s'.gSysiostates d) = _ := this
    rw [hd]
    split <;> exact ⟨rfl, rfl⟩
  · have := hr.sync d
    rw [← hM.globals, if_neg] at this
    · exact congrArg (·.semSync) this
    · rintro ⟨q, hm, hi⟩
      exact hd q hm (Nucleus.ioDevice_waiting hi)
  · have hrest := hr.rest
    rw [← hM.globals] at hrest
    have hself : s'.toGlobals = { s'.toGlobals with gCurrentProcess := s.gCurrentProcess } := by
      rw [← hcur]
    exact hself.trans (congrArg ({ · with gCurrentProcess := s.gCurrentProcess }) hrest)

end Kernel

/-- A child of the root is below nobody else. -/
theorem Nucleus.not_below_brother {N : Nucleus} {p q r : Pcb} (hq : ∀ d, q ∈ N.pChild d → d = r)
    (hr : ∀ d, r ∉ N.pChild d) (hne : p ≠ r) : ¬N.Below p q := by
  intro h
  obtain ⟨d, hpd, hd⟩ := Relation.TransGen.tail'_iff.mp h
  obtain rfl := hq d hd
  rcases Relation.ReflTransGen.cases_tail hpd with rfl | ⟨e, -, he⟩
  · exact hne rfl
  · exact hr e he

/-- The first process has two children and the first child has two. Both children
of the first process and one grandchild wait for one semaphore, the other
grandchild is ready. -/
def familyEvents : Script :=
  [call 1 0x20060000 0 0, call 1 0x20060000 0 0, preempt, call 1 0x20060000 0 0, call 1 0x20060000 0 0,
    preempt, call 3 0x20070000 0 0, preempt, call 3 0x20070000 0 0, preempt, call 3 0x20070000 0 0]

def queuedFamily : Machine := sampleBoot.run sampleLayout familyEvents

/-- The child with children has been taken off its parent. -/
def severed : Kernel :=
  { queuedFamily.kernel with toTables := (queuedFamily.kernel.outChild 18).2 }

/-- The child, the grandchild that waits and the one that is ready are terminated;
the other child waits on. -/
theorem subtree_terminated_child : ∃ s' S,
    terminateProcess sampleLayout terminateFuel severed 18 = some s' ∧
      (∀ q, q ∈ S ↔ q = 18 ∨ severed.nucleus.Below 18 q) ∧ Kernel.Pruned severed s' S ∧
      18 ∈ S ∧ 16 ∈ S ∧ 15 ∈ S ∧ 17 ∉ S := by
  obtain ⟨N, hS⟩ := (Machine.Reachable.run (.boot _ _ _)
    (by decide +kernel : sampleBoot.Follows sampleLayout (Machine.Lawful sampleLayout) familyEvents)).sound
  have hs : queuedFamily.kernel.Refines N := hS.refines
  have ht : queuedFamily.kernel.queues.Tree := hs.queues ▸ hs.tree
  have hsevered : severed.Refines (N.detach 18) := by
    rw [severed, Runs.outChild_eq ht]
    exact detach_refines hs 18
  have htree : severed.queues.Tree := by
    rw [hsevered.queues]
    exact hsevered.tree
  have hlive : (18 : Pcb) ∉ severed.free := by decide +kernel
  have horphan : ∀ d, (18 : Pcb) ∉ severed.pChild d := by decide +kernel
  obtain ⟨s', S, hend, hS, hpruned⟩ := Kernel.subtree_terminated hsevered.queued htree hlive horphan
  have hchildren : severed.nucleus.pChild 18 = [16, 15] := by decide +kernel
  have below : ∀ q ∈ severed.nucleus.pChild 18, q ∈ S := fun q hq => (hS q).mpr (.inr (.single hq))
  rw [hchildren] at below
  have hbrother : ¬severed.nucleus.Below 18 17 :=
    Nucleus.not_below_brother (r := 19) (by decide +kernel) (by decide +kernel) (by decide)
  refine ⟨s', S, hend, hS, hpruned, (hS 18).mpr (.inl rfl), ?_, ?_, fun h => ?_⟩
  · exact below 16 (by decide)
  · exact below 15 (by decide)
  · exact hbrother (((hS 17).mp h).resolve_left (by decide))

end Pandos
