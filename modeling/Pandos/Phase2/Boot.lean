import Pandos.Phase2.CallEffects

/-!
# What `main()` builds

Every pcb but one is free, every descriptor is free, nobody waits, and the
process of `launchInit` is the current one.
-/

namespace Pandos
open Intrusive Outcome

/-- The nucleus before `launchInit`. -/
def Nucleus.initial (g : Globals) : Nucleus where
  pcbs := fun _ => .zero
  queue := fun k => if k = .free then (List.finRange maxProc).reverse else []
  pChild := fun _ => []
  toGlobals := g

section
variable {L : Layout} (mem bus : Word → Word) (stck : Nat → Word)

/-- The kernel before `launchInit`. -/
def Kernel.initial : Kernel :=
  { initGlobalVariable (.zero mem bus stck) with
    toTables := (initGlobalVariable (.zero mem bus stck)).initPcbs.initASH }

theorem initial_tables : (Kernel.initial mem bus stck).toTables =
    { pcbs := fun _ => .zero
      procQ := fun k => if k = .pcbFreeH then (List.finRange maxProc).reverse else []
      pChild := fun _ => []
      sKey := fun _ => 0
      semdFreeH := (List.finRange maxProc).reverse
      semdH := fun _ => [] } := by
  rw [Kernel.initial, Tables.initASH_eq, Tables.initPcbs_eq]
  simp only [initGlobalVariable, Kernel.zero, Tables.mkEmptyProcQ, Tables.free, List.append_nil]
  congr 1
  funext k
  by_cases hk : k = .pcbFreeH
  · simp [hk]
  · simp [hk]

theorem initial_queued : (Kernel.initial mem bus stck).toTables.Queued := by
  rw [initial_tables]
  have hd : (List.finRange maxProc).reverse.Nodup := List.nodup_reverse.mpr (List.nodup_finRange _)
  refine ⟨⟨hd, ?_, ?_, ?_, ?_⟩, ⟨?_, ?_⟩, ?_, ?_, ?_⟩
  · simp
  · simp
  · simp
  · simp
  · intro k
    dsimp only
    split
    · exact hd
    · exact List.nodup_nil
  · intro h k n hh hk
    simp only [List.mem_ite_nil_right] at hh hk
    exact hh.1.trans hk.1.symm
  · simp
  · simp
  · simp [PcbT.zero]

theorem initial_refines : (Kernel.initial mem bus stck).Refines
    (.initial (initGlobalVariable (.zero mem bus stck)).toGlobals) := by
  refine ⟨initial_queued mem bus stck, ?_, rfl, ?_, ?_⟩
  · rw [initial_tables]
    refine Queues.ext rfl ?_ rfl
    apply Tables.queue_ext
    · rfl
    · rfl
    · intro a
      rfl
  · constructor
    · exact ⟨fun _ => List.nodup_nil, fun h => by cases h⟩
    · exact fun _ _ h => by cases h
    · exact fun _ _ h => by cases h
    · exact fun _ _ h => by cases h
  · exact fun c h => by cases h

/-- What is true when the first process starts. -/
structure Booted (mem : Word → Word) (p : Pcb) (N : Nucleus) : Prop where
  current : N.gCurrentProcess = some p
  free : (List.finRange maxProc).reverse = p :: N.free
  queue : ∀ k, k ≠ .free → N.queue k = []
  pChild : N.pChild = fun _ => []
  saved : ∀ q, (N.pcbs q).pS.inWait = false
  time : ∀ q, (N.pcbs q).pTime = 0
  tod : N.gTod = N.stck 0
  reads : N.stckReads = 1
  count : N.gProcessCount = 1
  soft : N.gSoftBlockCount = 0
  devices : N.gSysiostates = fun _ => ⟨1, 0, none⟩
  clock : N.gPseudoClock = 1
  mem : N.mem = mem
  hw : N.hw = fun _ => .idle

theorem Booted.not_free {mem : Word → Word} {p : Pcb} {N : Nucleus} (h : Booted mem p N) :
    p ∉ N.free := by
  have hd : (p :: N.free).Nodup := h.free ▸ List.nodup_reverse.mpr (List.nodup_finRange _)
  exact (List.nodup_cons.mp hd).1

theorem launchInit_runs {N : Nucleus} {p : Pcb} {l : List Pcb} {E : Exit → Nucleus → Prop}
    (hf : N.free = p :: l) (hr : N.ready = []) (hc : N.gCurrentProcess = none)
    (h : ∀ M : Nucleus, M.queue = N.queue.unlink p → M.pChild = Function.update N.pChild p [] →
      (∀ q, q ≠ p → M.pcbs q = N.pcbs q) → (M.pcbs p).pS.inWait = false →
      (M.pcbs p).pTime = 0 → M.toGlobals = { N.toGlobals with
        gProcessCount := N.gProcessCount + 1
        gCurrentProcess := some p
        gTod := N.stck N.stckReads
        stckReads := N.stckReads + 1 } → E (.dispatch p) M) :
    Runs (launchInit L >>= fun _ => scheduler) N (fun _ _ => False) E := by
  refine Runs.bind (Runs.bind (Runs.globals rfl (Runs.bind (Runs.allocPcb ?_ fun p' l' hf' => ?_))))
  · intro hn
    cases hf.symm.trans hn
  · obtain ⟨rfl, rfl⟩ := List.cons.inj (hf.symm.trans hf')
    refine Runs.bind (Runs.deref (fun p' hp' => ?_) fun hn => by cases hn)
    obtain rfl := Option.some.inj hp'
    refine Runs.bind (Runs.modPcb (fun _ => rfl) (fun _ => rfl) ?_)
    refine Runs.bind (Runs.modPcb (fun _ => rfl) (fun _ => rfl) ?_)
    refine Runs.bind (Runs.modPcb (fun _ => rfl) (fun _ => rfl) ?_)
    refine Runs.bind (Runs.modPcb (fun _ => rfl) (fun _ => rfl) ?_)
    refine Runs.insertProcQ ?_ ?_ (Runs.scheduler fun _ => ?_)
    · simp [Queues.modPcb, Queues.alloc, Queues.unlink, PcbT.zero]
    · simp [hc]
    · rw [Nucleus.schedule_cons (p := p) (l := [])]
      · refine h _ ?_ ?_ ?_ ?_ ?_ rfl
        · show ((N.queue.unlink p).unlink p |>.append .ready p).unlink p = _
          rw [Lists.unlink_append, Lists.unlink_unlink, Lists.unlink_unlink]
        · rfl
        · intro q hq
          simp [Nucleus.dispatch, Queues.modPcb, Queues.alloc, Queues.unlink, Queues.moveLast, hq]
        · simp [Nucleus.dispatch, Queues.modPcb, Queues.alloc, Queues.unlink, Queues.moveLast,
            PcbT.zero, StateT.zero, StateT.setStatus, StateT.setPcEpc, StateT.setRegT9,
            StateT.setRegSp]
        · simp [Nucleus.dispatch, Queues.modPcb, Queues.alloc, Queues.unlink, Queues.moveLast,
            PcbT.zero]
      · show ((N.queue.unlink p).unlink p |>.append .ready p) .ready = _
        rw [Lists.append_self, Lists.unlink_unlink]
        simp [Lists.unlink, show N.queue .ready = [] from hr]

end

end Pandos
