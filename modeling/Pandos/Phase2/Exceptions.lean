import Pandos.Phase2.Syscall

/-! # `exceptions.c` and `nucleus.c` -/

namespace Pandos
open K

variable (L : Layout)

/-- The loop of `handleSysTimer`, for at most `fuel` waiting processes. -/
def wakeClock : Nat → K Unit
  | 0 => leave .hang
  | fuel + 1 => do
    match ← fromTables (·.removeBlocked (L.addr .clock)) with
    | none => pure ()
    | some p =>
      globals fun s => { s with gSoftBlockCount := s.gSoftBlockCount - 1 }
      tables (·.insertProcQ .gReadyQueue p)
      wakeClock fuel

def handleSysTimer : K Unit := do
  wakeClock L (maxProc + 1)
  globals ({ · with gPseudoClock := 0 })

def handleLocalTimer : K Unit := do
  let p ← current
  let old := (← get).gOldState
  tables (·.modPcb p ({ · with pS := old }))
  tables (·.insertProcQ .gReadyQueue p)
  globals ({ · with gCurrentProcess := none })
  scheduler

def interruptMask : Word :=
  diskInterrupt ||| flashInterrupt ||| printInterrupt ||| termInterrupt |||
    localTimerInt ||| timerInterrupt

/-- What is pending on an interrupt line. -/
inductive Line
  | localTimer
  | sysTimer
  | device (deviceType : Nat)
  deriving DecidableEq

/-- The lines in the order in which `interruptHandler` tests them. -/
def interruptLines : List (Word × Line) :=
  [(localTimerInt, .localTimer),
   (timerInterrupt, .sysTimer),
   (diskInterrupt, .device diskIntline),
   (flashInterrupt, .device flashIntline),
   (printInterrupt, .device printerIntline),
   (termInterrupt, .device termIntline)]

/-- The pending line that is served first. -/
def firstLine (cause : Word) : Option (Word × Line) :=
  interruptLines.find? fun l => cause &&& l.1 ≠ 0

def handleLine : Line → K Unit
  | .localTimer => handleLocalTimer
  | .sysTimer => handleSysTimer L
  | .device deviceType => handleDeviceInt L deviceType

/-- The chain of tests in `interruptHandler`. -/
def serveLine : K Unit := do
  let cause := (← get).gOldState.cause
  match firstLine cause with
  | some (bit, line) =>
    globals fun s => { s with gOldState := s.gOldState.setCause (cause &&& ~~~bit) }
    handleLine L line
  | none => pure ()

def interruptHandler : Nat → K Unit
  | 0 => leave .hang
  | fuel + 1 => do
    serveLine L
    if (← get).gOldState.cause &&& interruptMask ≠ 0 then interruptHandler fuel
    let tod ← stck
    globals ({ · with gTod := tod })
    leave .ldst

/-- `CAUSE_GET_EXCCODE`. -/
def excCode (cause : Word) : Nat := ((cause &&& 0x7C) >>> 2).toNat

def exceptionHandler : K Unit := do
  match excCode (← get).gOldState.cause with
  | 0 => do
    updateProcessTime
    interruptHandler L 7
  | 1 | 2 | 3 => passUpOrDie L pgFaultExcept
  | 8 => do
    globals fun s => { s with gOldState := s.gOldState.setPcEpc (s.gOldState.pcEpc + 4) }
    syscallHandler L
  | _ => passUpOrDie L generalExcept

/-- The kernel before `main()`: zeroed data, and the memory, devices and clock
of the machine. -/
def Kernel.zero (mem bus : Word → Word) (stck : Nat → Word) : Kernel where
  pcbs := fun _ => .zero
  procQ := fun _ => []
  pChild := fun _ => []
  sKey := fun _ => 0
  semdFreeH := []
  semdH := fun _ => []
  gProcessCount := 0
  gSoftBlockCount := 0
  gCurrentProcess := none
  gSysiostates := fun _ => ⟨0, 0, none⟩
  gPseudoClock := 0
  gTod := 0
  gOldState := .zero
  mem := mem
  bus := bus
  hw := fun _ => .idle
  stck := stck
  stckReads := 0

def initGlobalVariable (s : Kernel) : Kernel :=
  { s with
    toTables := s.mkEmptyProcQ .gReadyQueue
    gProcessCount := 0
    gSoftBlockCount := 0
    gCurrentProcess := none
    gSysiostates := fun _ => ⟨1, 0, none⟩
    gPseudoClock := 1
    gTod := 0 }

/-- `STATUS_IEp | STATUS_TE | STATUS_IM_MASK`. -/
def initStatus : Word := 0x00000004 ||| 0x08000000 ||| 0x0000FF00

def launchInit : K Unit := do
  globals fun s => { s with gProcessCount := s.gProcessCount + 1 }
  let pcb ← deref (← fromTables (·.allocPcb))
  tables (·.modPcb pcb fun r => { r with pS := r.pS.setStatus (r.pS.status ||| initStatus) })
  tables (·.modPcb pcb fun r => { r with pS := r.pS.setPcEpc L.test })
  tables (·.modPcb pcb fun r => { r with pS := r.pS.setRegT9 r.pS.pcEpc })
  tables (·.modPcb pcb fun r => { r with pS := r.pS.setRegSp L.ramTop })
  tables (·.insertProcQ .gReadyQueue pcb)

def main : K Unit := do
  modify initGlobalVariable
  tables (·.initPcbs)
  tables (·.initASH)
  launchInit L
  scheduler

end Pandos
