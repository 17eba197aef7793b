import Pandos.Phase2.Scheduler

/-! # `PASSEREN` and `VERHOGEN` of `syscall.c` -/

namespace Pandos
open K

variable (L : Layout)

/-- The blocking half of `sysPasseren` and `sysVerhogen`: the process that
`g_current_process` points to is blocked, whoever called. -/
def blockCurrent (semaddr : Word) : K Unit := do
  let p ← current
  let old := (← get).gOldState
  tables (·.modPcb p ({ · with pS := old }))
  updateProcessTime
  let _ ← fromTables (·.insertBlocked semaddr p)
  globals ({ · with gCurrentProcess := none })
  scheduler

/-- The half that `sysPasseren` and `sysVerhogen` share: a semaphore at `free`
hands over to a waiter or changes by `step`, any other value blocks. -/
def semOp (free step semaddr : Word) : K Unit := do
  if (← K.load L semaddr) = free then
    match ← fromTables (·.removeBlocked semaddr) with
    | some removed => tables (·.insertProcQ .gReadyQueue removed)
    | none => globals fun s => s.store L semaddr (s.load L semaddr + step)
  else
    blockCurrent semaddr

def sysPasseren (semaddr : Word) : K Unit := semOp L 1 (-1) semaddr

def sysVerhogen (semaddr : Word) : K Unit := semOp L 0 1 semaddr

end Pandos
