import Mathlib.Data.Finset.Option
import Pandos.Phase1.Calls
import Pandos.Phase1.LinkEffects

/-!
# Sequences of calls of phase 1, pointer by pointer

After `main()` has set phase 1 up, and whatever is called then, the pointers
thread the lists of the tables and every call returns what it returns on them.
-/

namespace Pandos
open Intrusive

/-- The tables and the pcbs that have been allocated so far. -/
structure Ledger where
  tables : Tables
  used : Finset Pcb

namespace Ledger

def boot : Ledger := ⟨(Tables.zero.mkEmptyProcQ .gReadyQueue).initPcbs.initASH, ∅⟩

end Ledger

/-- A call of `process.c` or `semaphore.c`. The process queue is `g_ready_queue`. -/
inductive Phase1Call
  | freePcb (p : Pcb)
  | allocPcb
  | emptyProcQ
  | insertProcQ (p : Pcb)
  | headProcQ
  | removeProcQ
  | outProcQ (p : Pcb)
  | emptyChild (p : Pcb)
  | insertChild (parent child : Pcb)
  | removeChild (parent : Pcb)
  | outChild (child : Pcb)
  | insertBlocked (semAdd : Word) (p : Pcb)
  | removeBlocked (semAdd : Word)
  | outBlocked (p : Pcb)
  | headBlocked (semAdd : Word)

namespace Phase1Call

/-- What a call returns. -/
inductive Answer
  | void
  | pcb (p : Option Pcb)
  | flag (b : Bool)
  deriving DecidableEq

/-- The call on the pointers. -/
def exec (t : Links) : Phase1Call → Option (Answer × Links)
  | .freePcb p => (t.freePcb p).map (.void, ·)
  | .allocPcb => t.allocPcb.map fun (p, t) => (.pcb p, t)
  | .emptyProcQ => some (.flag (t.emptyProcQ .gReadyQueue), t)
  | .insertProcQ p => (t.insertProcQ .gReadyQueue p).map (.void, ·)
  | .headProcQ => (t.headProcQ .gReadyQueue).map (.pcb ·, t)
  | .removeProcQ => (t.removeProcQ .gReadyQueue).map fun (p, t) => (.pcb p, t)
  | .outProcQ p => (t.outProcQ .gReadyQueue p).map fun (p, t) => (.pcb p, t)
  | .emptyChild p => some (.flag (t.emptyChild p), t)
  | .insertChild parent child => (t.insertChild parent child).map (.void, ·)
  | .removeChild parent => (t.removeChild parent).map fun (p, t) => (.pcb p, t)
  | .outChild child => (t.outChild child).map fun (p, t) => (.pcb p, t)
  | .insertBlocked semAdd p => (t.insertBlocked semAdd p).map fun (b, t) => (.flag b, t)
  | .removeBlocked semAdd => (t.removeBlocked semAdd).map fun (p, t) => (.pcb p, t)
  | .outBlocked p => (t.outBlocked p).map fun (p, t) => (.pcb p, t)
  | .headBlocked semAdd => (t.headBlocked semAdd).map (.pcb ·, t)

/-- The call on the tables. -/
def onTables (T : Tables) : Phase1Call → Answer × Tables
  | .freePcb p => (.void, T.freePcb p)
  | .allocPcb => (.pcb T.allocPcb.1, T.allocPcb.2)
  | .emptyProcQ => (.flag (T.emptyProcQ .gReadyQueue), T)
  | .insertProcQ p => (.void, T.insertProcQ .gReadyQueue p)
  | .headProcQ => (.pcb (T.headProcQ .gReadyQueue), T)
  | .removeProcQ => (.pcb (T.removeProcQ .gReadyQueue).1, (T.removeProcQ .gReadyQueue).2)
  | .outProcQ p => (.pcb (T.outProcQ .gReadyQueue p).1, (T.outProcQ .gReadyQueue p).2)
  | .emptyChild p => (.flag (T.emptyChild p), T)
  | .insertChild parent child => (.void, T.insertChild parent child)
  | .removeChild parent => (.pcb (T.removeChild parent).1, (T.removeChild parent).2)
  | .outChild child => (.pcb (T.outChild child).1, (T.outChild child).2)
  | .insertBlocked semAdd p => (.flag (T.insertBlocked semAdd p).1, (T.insertBlocked semAdd p).2)
  | .removeBlocked semAdd => (.pcb (T.removeBlocked semAdd).1, (T.removeBlocked semAdd).2)
  | .outBlocked p => (.pcb (T.outBlocked p).1, (T.outBlocked p).2)
  | .headBlocked semAdd => (.pcb (T.headBlocked semAdd), T)

/-- The pcbs that a call allocates. -/
def allocates (T : Tables) : Phase1Call → Finset Pcb
  | .allocPcb => T.allocPcb.1.toFinset
  | _ => ∅

def spec (s : Ledger) (c : Phase1Call) : Answer × Ledger :=
  ((c.onTables s.tables).1, ⟨(c.onTables s.tables).2, c.allocates s.tables ∪ s.used⟩)

/-- When a call may be made: it is about pcbs that have been allocated, a pcb
that is freed is a leaf by itself, and no free pcb is put into the tree. -/
def Valid (s : Ledger) : Phase1Call → Prop
  | .freePcb p => p ∈ s.used ∧ s.tables.pChild p = [] ∧ ∀ q, p ∉ s.tables.pChild q
  | .insertProcQ p | .insertBlocked _ p => p ∈ s.used
  | .emptyChild p | .removeChild p | .outChild p => p ∈ s.used
  | .insertChild parent child => parent ∉ s.tables.free ∧ child ∉ s.tables.free
  | _ => True

instance (s : Ledger) : (c : Phase1Call) → Decidable (c.Valid s)
  | .freePcb _ => inferInstanceAs (Decidable (_ ∧ _ ∧ _))
  | .insertProcQ _ | .insertBlocked _ _ | .emptyChild _ | .removeChild _ | .outChild _ =>
    inferInstanceAs (Decidable (_ ∈ s.used))
  | .insertChild _ _ => inferInstanceAs (Decidable (_ ∧ _))
  | .allocPcb | .emptyProcQ | .headProcQ | .removeProcQ | .outProcQ _ | .removeBlocked _
  | .outBlocked _ | .headBlocked _ => inferInstanceAs (Decidable True)

variable {t : Links} {s : Ledger}

/-- The ready queue is neither the free list nor the queue of a descriptor. -/
theorem exec_holds (h : t.Holds .exact s.used s.tables) {c : Phase1Call} (hc : c.Valid s) :
    ∃ t', c.exec t = some ((c.spec s).1, t') ∧ t'.Holds .exact (c.spec s).2.used (c.spec s).2.tables := by
  have same : ∀ {T' : Tables} {t' : Links}, t'.Holds .exact s.used T' →
      t'.Holds .exact ((∅ ∪ s.used : Finset Pcb) : Set Pcb) T' := fun h => by rwa [Finset.empty_union]
  cases c with
  | freePcb p =>
    obtain ⟨t', ht, hH⟩ := h.freePcb hc.1 hc.2.1 hc.2.2
    exact ⟨t', by simp [exec, ht, spec, onTables], same hH⟩
  | allocPcb =>
    cases hf : s.tables.free with
    | nil =>
      have hn := Tables.allocPcb_nil hf
      refine ⟨t, by simp [exec, h.allocPcb_empty hf, spec, onTables, hn], ?_⟩
      simpa [spec, onTables, allocates, hn] using h
    | cons p l =>
      obtain ⟨t', ht, hH⟩ := h.allocPcb hf
      have ha := Tables.allocPcb_cons hf
      refine ⟨t', by simp [exec, ht, spec, onTables, ha], ?_⟩
      simpa [spec, onTables, allocates, ha] using hH
  | emptyProcQ =>
    exact ⟨t, by simp [exec, h.emptyProcQ Links.gReadyQueue_mem_cells, spec, onTables], same h⟩
  | insertProcQ p =>
    obtain ⟨t', ht, hH⟩ := h.insertProcQ hc Links.gReadyQueue_mem_cells (by simp)
    exact ⟨t', by simp [exec, ht, spec, onTables], same hH⟩
  | headProcQ =>
    exact ⟨t, by simp [exec, h.headProcQ Links.gReadyQueue_mem_cells, spec, onTables], same h⟩
  | removeProcQ =>
    obtain ⟨t', ht, hH⟩ := h.removeProcQ Links.gReadyQueue_mem_cells (by simp)
    exact ⟨t', by simp [exec, ht, spec, onTables], same hH⟩
  | outProcQ p =>
    obtain ⟨t', ht, hH⟩ := h.outProcQ (p := p) Links.gReadyQueue_mem_cells (by simp)
    exact ⟨t', by simp [exec, ht, spec, onTables], same hH⟩
  | emptyChild p => exact ⟨t, by simp [exec, h.emptyChild hc, spec, onTables], same h⟩
  | insertChild q p =>
    obtain ⟨t', ht, hH⟩ := h.insertChild hc.1 hc.2
    exact ⟨t', by simp [exec, ht, spec, onTables], same hH⟩
  | removeChild p =>
    obtain ⟨t', ht, hH⟩ := h.removeChild hc
    exact ⟨t', by simp [exec, ht, spec, onTables], same hH⟩
  | outChild p =>
    obtain ⟨t', ht, hH⟩ := h.outChild hc
    exact ⟨t', by simp [exec, ht, spec, onTables], same hH⟩
  | insertBlocked a p =>
    obtain ⟨t', ht, hH⟩ := h.insertBlocked (a := a) hc
    exact ⟨t', by simp [exec, ht, spec, onTables], same hH⟩
  | removeBlocked a =>
    obtain ⟨t', ht, hH⟩ := h.removeBlocked (a := a)
    exact ⟨t', by simp [exec, ht, spec, onTables], same hH⟩
  | outBlocked p =>
    obtain ⟨t', ht, hH⟩ := h.outBlocked (p := p)
    exact ⟨t', by simp [exec, ht, spec, onTables], same hH⟩
  | headBlocked a => exact ⟨t, by simp [exec, h.headBlocked, spec, onTables], same h⟩

end Phase1Call

/-- What `main()` sets up holds the empty tables. -/
theorem Links.boot_holds : ∃ t, Links.boot = some t ∧ t.Holds .exact ∅ Ledger.boot.tables := by
  have hd : (List.finRange maxProc).Nodup := List.nodup_finRange _
  let m₀ : Heap ProcQ Pcb := ⟨fun _ => none, fun _ => none⟩
  let m₁ : Heap Unit Semd := ⟨fun _ => none, fun _ => none⟩
  have hq : (static.mkEmptyProcQ .gReadyQueue).pList.Represents
      {.head .gReadyQueue, .head .pcbFreeH} fun _ => [] := by
    have h₀ := (Heap.Represents.blank m₀).initListHead (a := .head .pcbFreeH) (by simp)
    have h₁ := h₀.initListHead (a := .head .gReadyQueue) (by simp)
    rwa [insert_empty_eq] at h₁
  have hs : static.sFreelink.Represents {.head ()} fun _ => [] := by
    have h₀ := (Heap.Represents.blank m₁).initListHead (a := .head ()) (by simp)
    rwa [insert_empty_eq] at h₀
  obtain ⟨m, hm, hR⟩ := hq.foldlM_listAdd (h := .pcbFreeH) (by simp) hd (by simp)
  obtain ⟨m', hm', hR'⟩ := hs.foldlM_listAdd (h := ()) (by simp) hd (by simp)
  have htables : Ledger.boot.tables = { Tables.zero with
      procQ := Function.update (fun _ => []) .pcbFreeH (List.finRange maxProc).reverse
      semdFreeH := (List.finRange maxProc).reverse } := by
    have hzero : Tables.zero.mkEmptyProcQ .gReadyQueue = Tables.zero :=
      Tables.eq_of rfl (Function.update_eq_self _ _) rfl rfl rfl rfl
    rw [Ledger.boot, hzero, Tables.initASH_eq, Tables.initPcbs_eq]
    simp [Tables.zero, Tables.free]
  refine ⟨{ static with pList := m, sFreelink := m' }, ?_, ?_⟩
  · have hm' : (List.finRange maxProc).foldlM (fun m i => m.listAdd (.node i) (.head ()))
      (static.mkEmptyProcQ .gReadyQueue).sFreelink = some m' := hm'
    simp only [Links.boot, Links.initPcbs, Links.initASH, hm, hm', Option.bind_eq_bind,
      Option.bind_some, Option.pure_def]
    rfl
  rw [htables]
  exact {
    pcbs := fun _ => .refl _
    queues := by
      rw [List.append_nil] at hR
      convert hR using 1
      ext c
      rcases c with (_ | _ | j) | p <;> simp
    tree := TreeHeap.holds_of_fresh fun p hp => hp.elim
    keys := rfl
    free := by
      have hu : Function.update (fun _ => []) () ((List.finRange maxProc).reverse ++ []) =
          fun _ : Unit => (List.finRange maxProc).reverse := by
        funext u
        simp
      rw [hu] at hR'
      convert hR' using 1
      ext c
      rcases c with _ | i <;> simp
    hash := Chains.Represents.zero
    stocked := fun i hi => ⟨by simp, fun b => by simp [Tables.zero]⟩
    used := fun p hp => by simp [Tables.free] at hp
    detached := fun p hp => ⟨rfl, fun q => by simp [Tables.zero]⟩ }

/-- Phase 1 on pointers is phase 1 on the tables. -/
theorem phase1_pointers_refine_tables {calls : List Phase1Call}
    (hc : Calls.Along Phase1Call.spec (fun s c => c.Valid s) .boot calls) :
    ∃ t, (Links.boot.bind fun t => Calls.run Phase1Call.exec t calls) =
        some ((Calls.specRun Phase1Call.spec .boot calls).1, t) ∧
      t.Holds .exact (Calls.specRun Phase1Call.spec .boot calls).2.used
        (Calls.specRun Phase1Call.spec .boot calls).2.tables := by
  obtain ⟨t₀, h₀, hH⟩ := Links.boot_holds
  have hstart : t₀.Holds .exact Ledger.boot.used Ledger.boot.tables := by
    simpa [Ledger.boot] using hH
  have step : ∀ (t : Links) (s : Ledger) (c : Phase1Call), t.Holds .exact s.used s.tables → c.Valid s →
      ∃ u, c.exec t = some ((c.spec s).1, u) ∧ u.Holds .exact (c.spec s).2.used (c.spec s).2.tables :=
    fun _ _ _ h hc => Phase1Call.exec_holds h hc
  obtain ⟨t, ht, hH⟩ := Calls.run_refines_along step hstart hc
  exact ⟨t, by simp [h₀, ht], hH⟩

/-- A child blocks on two semaphores in turn, is taken off, freed and allocated
again; its father is woken. -/
def phase1Sample : List Phase1Call :=
  [.allocPcb, .allocPcb, .insertChild 19 18, .insertProcQ 19, .insertProcQ 18, .removeProcQ,
    .insertBlocked 0x2000 18, .insertBlocked 0x2000 19, .insertBlocked 0x3000 18, .headBlocked 0x2000,
    .outBlocked 18, .removeBlocked 0x2000, .removeBlocked 0x2000, .outChild 18, .freePcb 18, .allocPcb]

theorem phase1_pointers_refine_tables_sample :
    ∃ t, (Links.boot.bind fun t => Calls.run Phase1Call.exec t phase1Sample) =
        some ((Calls.specRun Phase1Call.spec .boot phase1Sample).1, t) ∧
      t.Holds .exact (Calls.specRun Phase1Call.spec .boot phase1Sample).2.used
        (Calls.specRun Phase1Call.spec .boot phase1Sample).2.tables :=
  phase1_pointers_refine_tables (by decide +kernel)

end Pandos
