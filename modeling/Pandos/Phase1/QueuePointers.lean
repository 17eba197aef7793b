import Pandos.Lib.Calls
import Pandos.Lib.Rings
import Pandos.Phase1.Process

/-!
# Process queues, pointer by pointer

The process queues of `process.c` on the `list_head` cells of `list.h`: a cell
for each queue head and the `p_list` of each pcb. The heads are of any type, so
a queue may be any `list_head` at all.
-/

namespace Pandos.QueueHeap
open Intrusive

variable {H : Type} [DecidableEq H]

/-! ## The code -/

section code
variable (m : Heap H Pcb)

def emptyProcQ (head : H) : Bool := m.listEmpty (.head head)

def insertProcQ (head : H) (p : Pcb) : Option (Heap H Pcb) := do
  let m ← m.listDel (.node p)
  m.listAddTail (.node p) (.head head)

def headProcQ (head : H) : Option (Option Pcb) :=
  if emptyProcQ m head then some none
  else do
    let next ← m.next (.head head)
    let p ← next.containerOf
    return some p

def removeProcQ (head : H) : Option (Option Pcb × Heap H Pcb) := m.takeFirst (.head head)

def outProcQ (head : H) (processBlock : Pcb) : Option (Option Pcb × Heap H Pcb) :=
  m.takeOut (maxProc + 1) (.head head) processBlock

end code

/-! ## One call -/

section calls
variable {m : Heap H Pcb} {L : Lists H Pcb} (hR : m.Represents Set.univ L) (head : H) (p : Pcb)
include hR

theorem insertProcQ_represents : ∃ m', insertProcQ m head p = some m' ∧
    m'.Represents Set.univ ((L.unlink p).append head p) := by
  obtain ⟨m₁, h₁, hR₁⟩ := hR.listDel (n := p) (Set.mem_univ _)
  obtain ⟨m₂, h₂, hR₂⟩ := hR₁.listAddTail (h := head) (n := p) (by simp) (by simp)
  rw [Set.insert_sdiff_self_of_mem (Set.mem_univ _)] at hR₂
  exact ⟨m₂, by simp [insertProcQ, h₁, h₂], hR₂⟩

theorem headProcQ_represents : headProcQ m head = some (L head).head? := by
  have he := hR.listEmpty_iff (h := head) (Set.mem_univ _)
  have hn := hR.next_head (h := head) (Set.mem_univ _)
  cases hL : L head with
  | nil => simp [headProcQ, emptyProcQ, he.mpr hL]
  | cons n l =>
    have : m.listEmpty (.head head) = false := by
      simpa [hL] using he
    simp [headProcQ, emptyProcQ, this, hn, hL, Cell.containerOf]

/-- Heap and sequences agree, and go on to agree whatever is called next. -/
structure Refines (m : Heap H Pcb) (L : Lists H Pcb) : Prop where
  represents : m.Represents Set.univ L
  inverse : ∀ a, (m.prev a).bind m.next = some a ∧ (m.next a).bind m.prev = some a
  alone : ∀ p, (∀ head, p ∉ L head) → m.Edge (.node p) (.node p)
  insert : ∀ head p, ∃ m', insertProcQ m head p = some m' ∧
    m'.Represents Set.univ ((L.unlink p).append head p)
  first : ∀ head, headProcQ m head = some (L head).head?
  remove : ∀ head, ∃ m', removeProcQ m head = some ((L head).head?, m') ∧
    m'.Represents Set.univ (Function.update L head (L head).tail) ∧
    ∀ p ∈ (L head).head?, m'.Edge (.node p) (.node p)
  out : ∀ head, ∀ p ∈ L head, ∃ m', outProcQ m head p = some (some p, m') ∧
    m'.Represents Set.univ (Function.update L head ((L head).erase p)) ∧
    m'.Edge (.node p) (.node p)
  off : ∀ head, ∀ p ∉ L head, outProcQ m head p = some (none, m)

omit head p in
theorem refines_of_represents : Refines m L where
  represents := hR
  inverse _ := hR.inverse (Set.mem_univ _)
  alone p := hR.alone p (Set.mem_univ _)
  insert := insertProcQ_represents hR
  first := headProcQ_represents hR
  remove _ := hR.takeFirst (Set.mem_univ _)
  out _ _ hp := hR.takeOut hp
  off _ _ hp := hR.takeOut_off (Set.mem_univ _) hp

end calls

/-! ## Any sequence of calls -/

inductive Call (H : Type)
  | insertProcQ (head : H) (p : Pcb)
  | headProcQ (head : H)
  | removeProcQ (head : H)
  | outProcQ (head : H) (p : Pcb)

namespace Call

/-- The call on the pointers. -/
def exec (m : Heap H Pcb) : Call H → Option (Option Pcb × Heap H Pcb)
  | .insertProcQ head p => (QueueHeap.insertProcQ m head p).map (none, ·)
  | .headProcQ head => (QueueHeap.headProcQ m head).map (·, m)
  | .removeProcQ head => QueueHeap.removeProcQ m head
  | .outProcQ head p => QueueHeap.outProcQ m head p

/-- The call on the sequences. -/
def spec (L : Lists H Pcb) : Call H → Option Pcb × Lists H Pcb
  | .insertProcQ head p => (none, (L.unlink p).append head p)
  | .headProcQ head => ((L head).head?, L)
  | .removeProcQ head => ((L head).head?, Function.update L head (L head).tail)
  | .outProcQ head p =>
    if p ∈ L head then (some p, Function.update L head ((L head).erase p)) else (none, L)

variable {m : Heap H Pcb} {L : Lists H Pcb}

theorem exec_represents (hR : m.Represents Set.univ L) (c : Call H) :
    ∃ m', c.exec m = some ((c.spec L).1, m') ∧ m'.Represents Set.univ (c.spec L).2 := by
  have h := refines_of_represents hR
  cases c with
  | insertProcQ head p =>
    obtain ⟨m', hm, hR'⟩ := h.insert head p
    exact ⟨m', by simp [exec, spec, hm], hR'⟩
  | headProcQ head => exact ⟨m, by simp [exec, spec, h.first head], hR⟩
  | removeProcQ head =>
    obtain ⟨m', hm, hR', -⟩ := h.remove head
    exact ⟨m', hm, hR'⟩
  | outProcQ head p =>
    by_cases hp : p ∈ L head
    · obtain ⟨m', hm, hR', -⟩ := h.out head p hp
      exact ⟨m', by simp [exec, spec, hm, hp], by simpa [spec, hp] using hR'⟩
    · exact ⟨m, by simp [exec, spec, hp, h.off head p hp], by simpa [spec, hp] using hR⟩

/-- Process queues on pointers are sequences: after any calls the results are
those on the sequences and the heap still holds them. -/
theorem process_queues_are_sequences (hR : m.Represents Set.univ L) (calls : List (Call H)) :
    ∃ m', Calls.run exec m calls = some ((Calls.specRun spec L calls).1, m') ∧
      Refines m' (Calls.specRun spec L calls).2 := by
  obtain ⟨m', hm, hR'⟩ := Calls.run_refines exec spec (Heap.Represents · Set.univ) (fun _ => True)
    (fun _ _ c hR _ => exec_represents hR c) hR fun _ _ => trivial
  exact ⟨m', hm, refines_of_represents hR'⟩

/-- A pcb alone on its queue is put there again, then onto another queue, and
is looked for on queues where it is and where it is not. -/
def sampleCalls : List (Call ProcQ) :=
  [.insertProcQ .gReadyQueue 3, .insertProcQ .gReadyQueue 3, .insertProcQ .gReadyQueue 5,
    .outProcQ .pcbFreeH 3, .insertProcQ (.sProcq 1) 3, .removeProcQ .gReadyQueue,
    .removeProcQ .gReadyQueue, .outProcQ (.sProcq 1) 3]

theorem process_queues_are_sequences_sample : ∃ m', Calls.run exec ⟨some, some⟩ sampleCalls =
    some ([none, none, none, none, none, some 5, none, some 3], m') ∧
    Refines m' (Calls.specRun spec (fun _ => []) sampleCalls).2 :=
  process_queues_are_sequences .reset sampleCalls

/-- The call on the tables of phase 1. -/
def onTables (t : Tables) : Call ProcQ → Option Pcb × Tables
  | .insertProcQ head p => (none, t.insertProcQ head p)
  | .headProcQ head => (t.headProcQ head, t)
  | .removeProcQ head => t.removeProcQ head
  | .outProcQ head p => t.outProcQ head p

/-- The queues of the tables are the sequences. -/
theorem onTables_spec {t : Tables} (ha : t.procQ.Apart) (c : Call ProcQ) :
    c.spec t.procQ = ((c.onTables t).1, (c.onTables t).2.procQ) := by
  cases c with
  | insertProcQ head p => rfl
  | headProcQ head => rfl
  | removeProcQ head =>
    cases hq : t.procQ head with
    | nil =>
      have := Function.update_eq_self head t.procQ
      rw [hq] at this
      simp [spec, onTables, Tables.removeProcQ, hq, this]
    | cons n l =>
      have := ha.unlink_eq_update (h := head) (n := n) (by simp [hq])
      simp [spec, onTables, Tables.removeProcQ, Tables.listDel, hq, this]
  | outProcQ head p =>
    by_cases hp : p ∈ t.procQ head
    · simp [spec, onTables, Tables.outProcQ, Tables.listDel, hp, ha.unlink_eq_update hp]
    · simp [spec, onTables, Tables.outProcQ, hp]

/-- A heap that holds the queues of the tables goes on to hold them. -/
theorem exec_onTables {m : Heap ProcQ Pcb} {t : Tables} (hR : m.Represents Set.univ t.procQ)
    (c : Call ProcQ) : ∃ m', c.exec m = some ((c.onTables t).1, m') ∧
      m'.Represents Set.univ (c.onTables t).2.procQ := by
  have := exec_represents hR c
  rwa [onTables_spec hR.apart c] at this

end Call

end Pandos.QueueHeap
