import Pandos.Scenario

/-!
# `CREATEPROCESS`, all or nothing

The whole kernel after `sysCreateProcess`, and what its new pcb owes to the
process that had it before.
-/

namespace Pandos
open Intrusive Outcome

/-- A failed `CREATEPROCESS` cannot be taken for a pid. -/
theorem Layout.pcb_ne_neg_one (L : Layout) (p : Pcb) : L.pcb p ≠ -1 := by
  intro h
  have := L.pcb_aligned p
  rw [h] at this
  revert this
  decide

/-- The kernel after process `c` has made a child of the free pcb `p`. -/
def Kernel.withChild (s : Kernel) (c p : Pcb) (r : PcbT) : Kernel :=
  { s with
    pcbs := Function.update s.pcbs p { r with pParent := some c }
    procQ := Function.update (Function.update s.procQ .pcbFreeH s.free.tail) .gReadyQueue
      (s.ready ++ [p])
    pChild := Function.update s.pChild c (s.pChild c ++ [p])
    gProcessCount := s.gProcessCount + 1 }

/-- `CREATEPROCESS` of process `c` fails when no pcb is free and then does
nothing; otherwise it makes a child and does nothing else. -/
def AllOrNothing (L : Layout) (s : Kernel) (c : Pcb) (statep supportp : Word) (ns : Option Nsd) :
    Prop :=
  ∃ v s', sysCreateProcess L statep supportp ns s = .ok v s' ∧
    (v = -1 ↔ s.free = []) ∧ (v = -1 → s' = s) ∧
    ∀ p l, s.free = p :: l →
      v = L.pcb p ∧ s' = s.withChild c p (s.nucleus.newPcb c statep supportp ns)

/-- Two calls that succeed with the same arguments make the same process. -/
def SameChild (L : Layout) (s u : Kernel) (c d : Pcb) (statep supportp : Word) (ns : Option Nsd) :
    Prop :=
  s.readState statep = u.readState statep → (s.pcbs c).namespaces = (u.pcbs d).namespaces →
  ∀ v s' w u', sysCreateProcess L statep supportp ns s = .ok v s' → v ≠ -1 →
    sysCreateProcess L statep supportp ns u = .ok w u' → w ≠ -1 →
    ∃ p q, v = L.pcb p ∧ w = L.pcb q ∧
      { s'.pcbs p with pParent := none } = { u'.pcbs q with pParent := none } ∧
      s'.pChild p = [] ∧ u'.pChild q = []

section
variable {L : Layout} {s : Kernel} {N : Nucleus} {c p : Pcb} {l : List Pcb} {r : PcbT}
  {statep supportp : Word} {ns : Option Nsd}

/-- A free pcb has no children and no parent to be taken from. -/
theorem insert_new {v : Tables} (hs : s.Refines N) (hf : s.free = p :: l)
    (hv : v = { (s.listDel p).resetPcb p with pcbs := Function.update s.pcbs p r }) :
    ({ s with
      toTables := (v.insertProcQ .gReadyQueue p).insertChild c p
      gProcessCount := s.gProcessCount + 1 } : Kernel) = s.withChild c p r := by
  subst hv
  have hp : p ∈ N.free := by
    rw [← hs.free, hf]
    exact List.mem_cons_self
  have hpcbs : Function.update (Function.update s.pcbs p r) p
      { Function.update s.pcbs p r p with pParent := some c } =
      Function.update s.pcbs p { r with pParent := some c } := by
    rw [Function.update_idem, Function.update_self]
  have hprocQ : (s.procQ.unlink p).unlink p = Function.update s.procQ .pcbFreeH s.free.tail := by
    rw [Lists.unlink_unlink, hs.queued.apart.unlink_eq_update (h := .pcbFreeH)
      (by simp [show s.procQ .pcbFreeH = p :: l from hf]), show s.procQ .pcbFreeH = p :: l from hf, hf]
    simp
  have hchild : Lists.unlink (Function.update s.pChild p []) p = s.pChild := by
    have hleaf : s.pChild p = [] := hs.pChild ▸ hs.tree.no_child_of_free hp
    rw [← hleaf, Function.update_eq_self, Lists.unlink_of_free]
    exact hs.pChild ▸ hs.tree.no_parent_of_free hp
  have htables : ((({ (s.listDel p).resetPcb p with pcbs := Function.update s.pcbs p r } :
      Tables).insertProcQ .gReadyQueue p).insertChild c p) =
      (s.withChild c p r).toTables := by
    apply Tables.eq_of
    · exact hpcbs
    · change ((s.procQ.unlink p).unlink p).append .gReadyQueue p = _
      rw [hprocQ]
      rfl
    · change (Lists.unlink (Function.update s.pChild p []) p).append c p = _
      rw [hchild]
      rfl
    · rfl
    · rfl
    · rfl
  rw [htables]
  rfl

theorem sysCreateProcess_full (hf : s.free = []) :
    sysCreateProcess L statep supportp ns s = .ok (-1) s := by
  refine (bind_of_ok (a := none) (t := s) ?_).trans rfl
  rw [K.fromTables_run, Tables.allocPcb_nil hf]

/-- The end of the call, the same for either kind of namespace. -/
theorem finish_run {v : Tables} (hs : s.Refines N) (hf : s.free = p :: l)
    (hc : s.gCurrentProcess = some c)
    (hv : v = { (s.listDel p).resetPcb p with pcbs := Function.update s.pcbs p r }) :
    (do
      K.tables (·.insertProcQ .gReadyQueue p)
      let parent ← K.current
      K.tables (·.insertChild parent p)
      return L.pcb p : K Word)
      { s with toTables := v, gProcessCount := s.gProcessCount + 1 } =
      .ok (L.pcb p) (s.withChild c p r) := by
  refine (bind_of_ok rfl).trans ((bind_of_ok (K.current_run (by exact hc))).trans ?_)
  exact congrArg (EStateM.Result.ok (L.pcb p)) (insert_new hs hf hv)

theorem sysCreateProcess_make (hs : s.Refines N) (hf : s.free = p :: l)
    (hc : s.gCurrentProcess = some c) (hlive : c ∉ s.free) :
    sysCreateProcess L statep supportp ns s =
      .ok (L.pcb p) (s.withChild c p (s.nucleus.newPcb c statep supportp ns)) := by
  have hcp : c ≠ p := by
    rintro rfl
    exact hlive (by simp [hf])
  have halloc : K.fromTables (·.allocPcb) s =
      .ok (some p) { s with toTables := (s.listDel p).resetPcb p } := by
    rw [K.fromTables_run, Tables.allocPcb_cons hf]
  refine (bind_of_ok halloc).trans ((bind_of_ok rfl).trans ((bind_of_ok rfl).trans
    ((bind_of_ok rfl).trans ((bind_of_ok rfl).trans ?_))))
  cases ns with
  | some ns =>
    refine (bind_of_ok rfl).trans ?_
    simp only
    rw [addNamespace_leaf ns (by simp [Tables.modPcb, Tables.resetPcb])]
    refine (bind_of_ok rfl).trans (finish_run hs hf hc ?_)
    refine Tables.eq_of ?_ rfl rfl rfl rfl rfl
    simp only [Tables.setNamespace, Tables.modPcb, Tables.resetPcb, Function.update_idem,
      Function.update_self]
    rfl
  | none =>
    refine (bind_of_ok (K.current_run (by exact hc))).trans ((bind_of_ok rfl).trans
      ((bind_of_ok rfl).trans (finish_run hs hf hc ?_)))
    refine Tables.eq_of ?_ rfl rfl rfl rfl rfl
    simp only [Tables.modPcb, Tables.resetPcb, Function.update_idem, Function.update_self,
      Function.update_of_ne hcp]
    rfl

end

namespace Machine
variable {L : Layout} {ok : Machine → Event → Prop} {m n : Machine} {c d : Pcb}

/-- What a reachable kernel knows of the process that called it. -/
theorem Reachable.caller (h : Reachable L ok m) (hrun : m.mode = .running c) (t : Trap) :
    (∃ N, (m.served t).Refines N) ∧ (m.served t).gCurrentProcess = some c ∧
      c ∉ (m.served t).free := by
  obtain ⟨N, hN⟩ := h.sound
  exact ⟨⟨_, served_refines hN.refines t⟩, hN.current hrun, hN.alive hrun⟩

/-- `sysCreateProcess` in a reachable kernel. -/
theorem Reachable.creates (h : Reachable L ok m) (hrun : m.mode = .running c) (t : Trap)
    (statep supportp : Word) (ns : Option Nsd) :
    (m.served t).free = [] ∧
      sysCreateProcess L statep supportp ns (m.served t) = .ok (-1) (m.served t) ∨
    ∃ p l, (m.served t).free = p :: l ∧ (m.served t).pChild p = [] ∧ c ≠ p ∧
      sysCreateProcess L statep supportp ns (m.served t) = .ok (L.pcb p) ((m.served t).withChild c p
        ((m.served t).nucleus.newPcb c statep supportp ns)) := by
  obtain ⟨⟨N, hN⟩, hc, hlive⟩ := h.caller hrun t
  cases hf : (m.served t).free with
  | nil => exact .inl ⟨rfl, sysCreateProcess_full hf⟩
  | cons p l =>
    have hp : p ∈ (m.served t).free := by simp [hf]
    have hleaf : (m.served t).pChild p = [] := by
      rw [hN.pChild]
      exact hN.tree.no_child_of_free (hN.free ▸ hp)
    have hcp : c ≠ p := fun e => hlive (e ▸ hp)
    exact .inr ⟨p, l, rfl, hleaf, hcp, sysCreateProcess_make hN hf hc hlive⟩

theorem Reachable.all_or_nothing (h : Reachable L ok m) (hrun : m.mode = .running c) (t : Trap)
    (statep supportp : Word) (ns : Option Nsd) :
    AllOrNothing L (m.served t) c statep supportp ns := by
  rcases h.creates hrun t statep supportp ns with ⟨hf, hr⟩ | ⟨p, l, hf, -, -, hr⟩
  · refine ⟨_, _, hr, iff_of_true rfl hf, fun _ => rfl, fun p l hp => ?_⟩
    cases hf.symm.trans hp
  · have hv := L.pcb_ne_neg_one p
    refine ⟨_, _, hr, iff_of_false hv (by simp [hf]), fun h => absurd h hv, fun q l' hq => ?_⟩
    obtain ⟨rfl, -⟩ := List.cons.inj (hf.symm.trans hq)
    exact ⟨rfl, rfl⟩

/-- The record of a new process is made of the arguments, the state they point
to and the namespaces of the caller. -/
theorem newPcb_congr {N M : Nucleus} {statep supportp : Word} {ns : Option Nsd}
    (hs : N.readState statep = M.readState statep)
    (hn : (N.pcbs c).namespaces = (M.pcbs d).namespaces) :
    N.newPcb c statep supportp ns = M.newPcb d statep supportp ns := by
  cases ns <;> simp only [Nucleus.newPcb, hs, hn]

theorem Reachable.same_child (h : Reachable L ok m) (hrun : m.mode = .running c)
    (h' : Reachable L ok n) (hrun' : n.mode = .running d) (t u : Trap) (statep supportp : Word)
    (ns : Option Nsd) : SameChild L (m.served t) (n.served u) c d statep supportp ns := by
  intro hstate hns v s' w u' hv hne hw hne'
  rcases h.creates hrun t statep supportp ns with ⟨-, hr⟩ | ⟨p, l, -, hleaf, hcp, hr⟩
  · cases hv.symm.trans hr
    exact absurd rfl hne
  rcases h'.creates hrun' u statep supportp ns with ⟨-, hr'⟩ | ⟨q, l', -, hleaf', hdq, hr'⟩
  · cases hw.symm.trans hr'
    exact absurd rfl hne'
  cases hv.symm.trans hr
  cases hw.symm.trans hr'
  refine ⟨p, q, rfl, rfl, ?_, ?_, ?_⟩
  · have hpcb : (m.served t).nucleus.newPcb c statep supportp ns =
        (n.served u).nucleus.newPcb d statep supportp ns := newPcb_congr hstate hns
    simp [Kernel.withChild, hpcb]
  · simpa [Kernel.withChild, hcp.symm] using hleaf
  · simpa [Kernel.withChild, hdq.symm] using hleaf'

/-- In any run `CREATEPROCESS` does all or nothing, and in any two the process
it makes is the same, whatever its pcb was used for before. -/
theorem create_all_or_nothing (h : Reachable L ok m) (hrun : m.mode = .running c)
    (h' : Reachable L ok n) (hrun' : n.mode = .running d) (t u : Trap) (statep supportp : Word)
    (ns : Option Nsd) :
    AllOrNothing L (m.served t) c statep supportp ns ∧
    SameChild L (m.served t) (n.served u) c d statep supportp ns :=
  ⟨h.all_or_nothing hrun t statep supportp ns, h.same_child hrun h' hrun' t u statep supportp ns⟩

/-- The second child is killed while it waits on a semaphore. -/
def vacated : Machine := sampleBoot.run sampleLayout
  [call 1 0x20060000 0 0, call 1 0x20060000 0 0, preempt, preempt, call 3 0x20070000 0 0,
    preempt, call 2 (sampleLayout.pcb 17) 0 0]

theorem vacated_reachable : Reachable sampleLayout (Lawful sampleLayout) vacated :=
  .run (.boot _ _ _) (by decide +kernel)

/-- The first process has made as many children as there are pcbs. -/
def crowded : Machine := sampleBoot.run sampleLayout (List.replicate 19 (call 1 0x20060000 0 0))

theorem crowded_reachable : Reachable sampleLayout (Lawful sampleLayout) crowded :=
  .run (.boot _ _ _) (by decide +kernel)

/-- The first child of all and one in the pcb of a process killed before, and a
call when no pcb is free. -/
theorem create_all_or_nothing_vacated :
    let s := sampleBoot.served (callTrap 1 0x20060000 0 0 sampleBoot)
    let u := vacated.served (callTrap 1 0x20060000 0 0 vacated)
    let full := crowded.served (callTrap 1 0x20060000 0 0 crowded)
    AllOrNothing sampleLayout s 19 0x20060000 0 none ∧ SameChild sampleLayout s u 19 19 0x20060000 0 none ∧
      sysCreateProcess sampleLayout 0x20060000 0 none full = .ok (-1) full := by
  intro s u full
  have hboot : Reachable sampleLayout (Lawful sampleLayout) sampleBoot := .boot _ _ _
  obtain ⟨hall, hsame⟩ := create_all_or_nothing hboot (c := 19) (by decide +kernel) vacated_reachable
    (d := 19) (by decide +kernel) (callTrap 1 0x20060000 0 0 sampleBoot)
    (callTrap 1 0x20060000 0 0 vacated) 0x20060000 0 none
  obtain ⟨⟨v, s', hrun, hv, hs', -⟩, -⟩ := create_all_or_nothing crowded_reachable (c := 19)
    (by decide +kernel) hboot (d := 19) (by decide +kernel) (callTrap 1 0x20060000 0 0 crowded)
    (callTrap 1 0x20060000 0 0 sampleBoot) 0x20060000 0 none
  obtain rfl := hv.mpr (by decide +kernel)
  obtain rfl := hs' rfl
  exact ⟨hall, hsame, hrun⟩

end Machine

end Pandos
