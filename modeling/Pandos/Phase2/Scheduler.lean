import Pandos.Phase2.Monad

/-! # `scheduler.c` and the clock functions of `exceptions.c` -/

namespace Pandos
open K

/-- One test of the loop of `scheduler()`. With no process ready it leaves
through `WAIT`, from which the loop is entered again. -/
def scheduler : K Unit := do
  let s ← get
  if s.emptyProcQ .gReadyQueue then
    if s.gProcessCount = 0 then leave .halt
    else if 0 < s.gProcessCount ∧ 0 < s.gSoftBlockCount then leave .wait
    else if 0 < s.gProcessCount ∧ s.gSoftBlockCount = 0 then leave .panic
    else leave .hang
  else
    let next ← fromTables (·.removeProcQ .gReadyQueue)
    globals ({ · with gCurrentProcess := next })
    let tod ← stck
    globals ({ · with gTod := tod })
    let p ← deref next
    leave (.dispatch p)

def getPassedTime : K Word := do
  let tod ← stck
  return tod - (← get).gTod

def updateProcessTime : K Unit := do
  match (← get).gCurrentProcess with
  | some p =>
    let passed ← getPassedTime
    tables (·.modPcb p fun r => { r with pTime := r.pTime + passed })
  | none => pure ()
  let tod ← stck
  globals ({ · with gTod := tod })

end Pandos
