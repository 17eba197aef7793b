import Pandos.Lib.Outcome
import Pandos.Phase1.Semaphore
import Pandos.Phase1.Namespace

/-!
# Kernel code

The code of phase 2 changes the kernel state and either returns or leaves the
kernel: `LDST`, `LDCXT`, `WAIT`, `HALT` and `PANIC` do not return. The status
register and the two timers it sets are read by no modelled function.
-/

namespace Pandos

/-- How control leaves the kernel. -/
inductive Exit
  /-- `LDST` of the state in the BIOS data page: the interrupted code goes on. -/
  | ldst
  /-- `LDST(&g_current_process->p_s)` of the scheduler. -/
  | dispatch (p : Pcb)
  | ldcxt (stackPtr status pc : Word)
  | wait
  | halt
  | panic
  /-- An access through `NULL` or outside an array. -/
  | fault
  /-- Code that never ends. -/
  | hang
  deriving DecidableEq

abbrev K := EStateM Exit Kernel

namespace K

/-- Call a function of phase 1 that only changes the tables. -/
def tables (f : Tables → Tables) : K Unit := modify fun s => { s with toTables := f s.toTables }

/-- Change the globals. -/
def globals (f : Globals → Globals) : K Unit := modify fun s => { s with toGlobals := f s.toGlobals }

/-- Call a function of phase 1 that returns a result. -/
def fromTables {α : Type} (f : Tables → α × Tables) : K α := do
  let s ← get
  set { s with toTables := (f s.toTables).2 }
  return (f s.toTables).1

/-- `STCK`: read the time-of-day clock. -/
def stck : K Word := do
  let s ← get
  set { s with stckReads := s.stckReads + 1 }
  return s.stck s.stckReads

def leave {α : Type} (e : Exit) : K α := throw e

/-- The pcb at a pointer. -/
def deref : Option Pcb → K Pcb
  | some p => pure p
  | none => leave .fault

def current : K Pcb := do deref (← get).gCurrentProcess

theorem fromTables_run {α : Type} (f : Tables → α × Tables) (s : Kernel) :
    fromTables f s = .ok (f s.toTables).1 { s with toTables := (f s.toTables).2 } := rfl

theorem current_run {s : Kernel} {c : Pcb} (h : s.gCurrentProcess = some c) : current s = .ok c s := by
  refine (Outcome.bind_of_ok rfl).trans ?_
  rw [h]
  rfl

/-- `*semaddr`. -/
def load (L : Layout) (semaddr : Word) : K Word := do
  if semaddr = 0 then leave .fault
  return (← get).load L semaddr

/-- `g_sysiostates[n]`. -/
def device (n : Int) : K Dev :=
  if h : 0 ≤ n ∧ n < deviceNumber then pure ⟨n.toNat, toNat_lt h⟩ else leave .fault

end K

end Pandos
