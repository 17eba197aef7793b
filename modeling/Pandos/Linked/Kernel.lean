import Pandos.Machine
import Pandos.Phase1.Links

/-!
# The kernel on pointers

Phase 2 as it runs, on the records and links of phase 1 as they are in memory.
An access of phase 1 through `NULL` is a fault.
-/

namespace Pandos.Linked
open Intrusive

structure Kernel extends Links, Globals

abbrev K := EStateM Exit Kernel

/-- An access, which is a fault without its target. -/
def access {α : Type} : Option α → Except Exit α
  | some a => .ok a
  | none => .error .fault

namespace K

/-- Call a function of phase 1. -/
def links (f : Links → Option Links) : K Unit := do
  match f (← get).toLinks with
  | some t => modify fun s => { s with toLinks := t }
  | none => throw .fault

/-- Call a function of phase 1 that returns a result. -/
def fromLinks {α : Type} (f : Links → Option (α × Links)) : K α := do
  match f (← get).toLinks with
  | some (a, t) =>
    modify fun s => { s with toLinks := t }
    return a
  | none => throw .fault

def modPcb (p : Pcb) (f : PcbT → PcbT) : K Unit :=
  modify fun s => { s with toLinks := s.toLinks.modPcb p f }

/-- Change the globals. -/
def globals (f : Globals → Globals) : K Unit := modify fun s => { s with toGlobals := f s.toGlobals }

/-- `STCK`: read the time-of-day clock. -/
def stck : K Word := do
  let s ← get
  set { s with stckReads := s.stckReads + 1 }
  return s.stck s.stckReads

def leave {α : Type} (e : Exit) : K α := throw e

/-- The pcb at a pointer. -/
def deref : Option Pcb → K Pcb
  | some p => pure p
  | none => leave .fault

def current : K Pcb := do deref (← get).gCurrentProcess

/-- `*semaddr`. -/
def load (L : Layout) (semaddr : Word) : K Word := do
  if semaddr = 0 then leave .fault
  return (← get).load L semaddr

/-- `g_sysiostates[n]`. -/
def device (n : Int) : K Dev :=
  if h : 0 ≤ n ∧ n < deviceNumber then pure ⟨n.toNat, toNat_lt h⟩ else leave .fault

end K

open Linked.K

/-! ## `scheduler.c`, the clock and the semaphores -/

def scheduler : K Unit := do
  let s ← get
  if s.emptyProcQ .gReadyQueue then
    if s.gProcessCount = 0 then leave .halt
    else if 0 < s.gProcessCount ∧ 0 < s.gSoftBlockCount then leave .wait
    else if 0 < s.gProcessCount ∧ s.gSoftBlockCount = 0 then leave .panic
    else leave .hang
  else
    let next ← fromLinks (·.removeProcQ .gReadyQueue)
    globals ({ · with gCurrentProcess := next })
    let tod ← stck
    globals ({ · with gTod := tod })
    let p ← deref next
    leave (.dispatch p)

def getPassedTime : K Word := do
  let tod ← stck
  return tod - (← get).gTod

def updateProcessTime : K Unit := do
  match (← get).gCurrentProcess with
  | some p =>
    let passed ← getPassedTime
    modPcb p fun r => { r with pTime := r.pTime + passed }
  | none => pure ()
  let tod ← stck
  globals ({ · with gTod := tod })

section semaphores
variable (L : Layout)

def blockCurrent (semaddr : Word) : K Unit := do
  let p ← current
  let old := (← get).gOldState
  modPcb p ({ · with pS := old })
  updateProcessTime
  let _ ← fromLinks (·.insertBlocked semaddr p)
  globals ({ · with gCurrentProcess := none })
  scheduler

def semOp (free step semaddr : Word) : K Unit := do
  if (← K.load L semaddr) = free then
    match ← fromLinks (·.removeBlocked semaddr) with
    | some removed => links (·.insertProcQ .gReadyQueue removed)
    | none => globals fun s => s.store L semaddr (s.load L semaddr + step)
  else
    blockCurrent semaddr

def sysPasseren (semaddr : Word) : K Unit := semOp L 1 (-1) semaddr

def sysVerhogen (semaddr : Word) : K Unit := semOp L 0 1 semaddr

end semaphores

/-! ## `devices.c` -/

section devices
variable (L : Layout)

def beginIo (dev : Dev) (process : Pcb) : K Unit := do
  globals (·.modDev dev ({ · with waitingProcess := some process }))
  let r := (← get).pcbs process
  globals (·.submit r.cmdAddr r.cmdValues (getNumRegister r.cmdAddr))
  globals fun s => { s with gSoftBlockCount := s.gSoftBlockCount + 1 }
  sysPasseren L (L.addr (.semSync dev))

def endIo (dev : Dev) : K Unit := do
  let process ← deref ((← get).gSysiostates dev).waitingProcess
  let r := (← get).pcbs process
  globals (·.collect r.cmdAddr r.cmdValues (getNumRegister r.cmdAddr))
  globals fun s => { s with gSoftBlockCount := s.gSoftBlockCount - 1 }

def ackDevice (devregAddr : Word) : K Unit := do
  if devregAddr ≥ devregStartAddr ∧ devregAddr < termregEndAddr then
    globals (·.writeAck (devregAddr + 4))

def setReturnValue (dev : Dev) (devregAddr : Word) : K Unit := do
  let s ← get
  let status := s.bus devregAddr &&& deviceStatusMask
  let success := if isTermReg devregAddr then transmitted ||| received else readyStatus
  let process ← deref (s.gSysiostates dev).waitingProcess
  modPcb process fun r =>
    { r with pS := r.pS.setRegV0 (if status = success then 0 else -1) }

def passDevice (dev : Dev) : K Unit := do
  match ← fromLinks (·.removeBlocked (L.addr (.semMut dev))) with
  | some removed => beginIo L dev removed
  | none =>
    globals (·.modDev dev fun r => { r with waitingProcess := none, semMut := r.semMut + 1 })

def serveDevice (dev : Dev) (devregAddr : Word) : K Unit := do
  if ((← get).gSysiostates dev).semSync ≠ -1 then
    endIo dev
    setReturnValue dev devregAddr
  ackDevice devregAddr
  sysVerhogen L (L.addr (.semSync dev))
  passDevice L dev

def handleDeviceInt (deviceType : Nat) : K Unit := do
  let devregAddr := findDevRegAddr (← get).bus deviceType
  if devregAddr = 0 then return
  let dev ← device (resolveDeviceAddress devregAddr)
  serveDevice L dev devregAddr

end devices

/-! ## `syscall.c` -/

section syscalls
variable (L : Layout)

def Kernel.getNamespace (s : Kernel) (p : Option Pcb) (type : Int) : Option Nsd :=
  match p with
  | none => none
  | some p =>
    if h : 0 ≤ type ∧ type < nsTypeMax then (s.pcbs p).namespaces ⟨type.toNat, toNat_lt h⟩ else none

/-- `addNamespace` on trees of at most `fuel` generations. -/
def addNamespace : Nat → Links → Pcb → Nsd → Except Exit Links
  | 0, _, _, _ => .error .hang
  | fuel + 1, t, p, ns => do
    let t := t.modPcb p fun r => { r with namespaces := Function.update r.namespaces ns.1 (some ns) }
    let children ← access (t.children p)
    children.foldlM (fun t child => addNamespace fuel t child ns) t

/-- The part of `terminateProcess` that takes a blocked process off its semaphore. -/
def Kernel.unblock (s : Kernel) (p : Pcb) : Option Kernel :=
  let blockedSem := (s.pcbs p).pSemAdd
  if blockedSem ≠ 0 then
    (s.outBlocked p).map fun
    | (none, t) => { s with toLinks := t }
    | (some _, t) =>
      let s := { s with toLinks := t }
      if isDeviceSemaphore L blockedSem then
        match s.waitsOn (resolveSemAddr L blockedSem) p with
        | some d =>
          { s with
            toGlobals := { s.toGlobals with gSoftBlockCount := s.gSoftBlockCount - 1 }.modDev d
              ({ · with semSync := -1 }) }
        | none => s
      else s
  else some s

/-- The last two statements of `terminateProcess`. -/
def Kernel.discard (s : Kernel) (p : Pcb) : Option Kernel :=
  (s.freePcb p).map fun t => { s with gProcessCount := s.gProcessCount - 1, toLinks := t }

mutual

/-- `terminateProcess` with calls nested at most `fuel` deep. -/
def terminateProcess : Nat → Kernel → Pcb → Except Exit Kernel
  | 0, _, _ => .error .hang
  | fuel + 1, s, p => do
    let s ← access (s.unblock L p)
    let s ← terminateChildren fuel s p
    access (s.discard p)

/-- `while ((child_pcb = removeChild(pcb)) != NULL) terminateProcess(child_pcb)`. -/
def terminateChildren : Nat → Kernel → Pcb → Except Exit Kernel
  | 0, _, _ => .error .hang
  | fuel + 1, s, p => do
    match ← access (s.removeChild p) with
    | (none, t) => return { s with toLinks := t }
    | (some child, t) =>
      let s ← terminateProcess fuel { s with toLinks := t } child
      terminateChildren fuel s p

end

def sysCreateProcess (statep supportp : Word) (ns : Option Nsd) : K Word := do
  match ← fromLinks (·.allocPcb) with
  | none => return -1
  | some pcb =>
    globals fun s => { s with gProcessCount := s.gProcessCount + 1 }
    let state := (← get).readState statep
    modPcb pcb ({ · with pS := state })
    modPcb pcb ({ · with pSupportStruct := supportp })
    match ns with
    | some ns =>
      match addNamespace maxProc (← get).toLinks pcb ns with
      | .ok t => links fun _ => t
      | .error e => leave e
    | none =>
      let parent ← current
      let inherited := ((← get).pcbs parent).namespaces
      modPcb pcb ({ · with namespaces := inherited })
    links (·.insertProcQ .gReadyQueue pcb)
    let parent ← current
    links (·.insertChild parent pcb)
    return L.pcb pcb

def sysTerminateProcess (pid : Option Pcb) : K Unit := do
  let target ← match pid with
    | some p => pure p
    | none => current
  let _ ← fromLinks (·.outChild target)
  match terminateProcess L terminateFuel (← get) target with
  | .ok s => set s
  | .error e => leave e
  scheduler

def sysDoIo (cmdAddr cmdValues : Word) : K Word := do
  let devNum := resolveDeviceAddress cmdAddr
  if devNum = -1 then leave .panic
  let caller ← current
  modPcb caller ({ · with cmdAddr := cmdAddr, cmdValues := cmdValues })
  let dev ← device devNum
  sysPasseren L (L.addr (.semMut dev))
  beginIo L dev (← current)
  return 0

def sysGetTime : K Word := do
  let p ← current
  let passed ← getPassedTime
  return ((← get).pcbs p).pTime + passed

def sysClockWait : K Unit := do
  globals fun s => { s with gSoftBlockCount := s.gSoftBlockCount + 1 }
  sysPasseren L (L.addr .clock)

def sysGetSupportPtr : K Word := do
  let p ← current
  return ((← get).pcbs p).pSupportStruct

def sysGetProcessID (isParent : Word) : K Word := do
  let p ← current
  let s ← get
  let parent := (s.pcbs p).pParent
  if isParent = 0 then return L.pcb p
  else if s.getNamespace parent pidNs ≠ s.getNamespace (some p) pidNs then return 0
  else return L.ofPcb parent

def getChildsByNamespace (children : Word) (totalSize : Int) (ns : Option Nsd) :
    Nat → Int → Pcb → K (Int × Int)
  | 0, _, _ => leave .hang
  | fuel + 1, usedSize, pcb => do
    let s ← get
    if s.getNamespace (some pcb) pidNs ≠ ns then return (0, usedSize)
    let usedSize ←
      if usedSize < totalSize ∧ some pcb ≠ s.gCurrentProcess then do
        globals (·.writeMem (wordAt children usedSize.toNat) (L.pcb pcb))
        pure (usedSize + 1)
      else pure usedSize
    match s.children pcb with
    | none => leave .fault
    | some below =>
      let (num, usedSize) ← below.foldlM (fun (num, usedSize) child => do
        let (n, usedSize) ← getChildsByNamespace children totalSize ns fuel usedSize child
        pure (num + n, usedSize)) (0, usedSize)
      return (num + 1, usedSize)

def sysGetChildren (children : Word) (size : Int) : K Int := do
  let p ← current
  let ns := (← get).getNamespace (some p) pidNs
  let (n, _) ← getChildsByNamespace L children size ns (maxProc + 1) 0 p
  return n - 1

def passUpOrDie (passupType : Nat) : K Unit := do
  let s ← get
  match s.gCurrentProcess with
  | none => sysTerminateProcess L none
  | some p =>
    let support := (s.pcbs p).pSupportStruct
    if support = 0 then sysTerminateProcess L (some p)
    else
      globals (·.writeState (supExceptState support passupType) s.gOldState)
      let s ← get
      let context := supExceptContext support passupType
      leave (.ldcxt (s.mem context) (s.mem (context + 4)) (s.mem (context + 8)))

/-- A pointer argument of a system call. -/
def toPointer {α : Type} (p : Option α) : K α :=
  match p with
  | some p => pure p
  | none => leave .fault

def syscall (code a1 a2 a3 : Word) : K Word :=
  match code.toNat with
  | 1 => do sysCreateProcess L a1 a2 (← toPointer (L.toNsd a3))
  | 2 => do sysTerminateProcess L (← toPointer (L.toPcb a1)); return 0
  | 3 => do sysPasseren L a1; return 0
  | 4 => do sysVerhogen L a1; return 0
  | 5 => sysDoIo L a1 a2
  | 6 => sysGetTime
  | 7 => do sysClockWait L; return 0
  | 8 => sysGetSupportPtr
  | 9 => sysGetProcessID L a1
  | 10 => do return BitVec.ofInt 32 (← sysGetChildren L a1 a2.toInt)
  | _ => do passUpOrDie L generalExcept; return 0

def syscallHandler : K Unit := do
  let old := (← get).gOldState
  let result ← syscall L old.regA0 old.regA1 old.regA2 old.regA3
  globals fun s => { s with gOldState := s.gOldState.setRegV0 result }
  leave .ldst

end syscalls

/-! ## `exceptions.c` and `nucleus.c` -/

section exceptions
variable (L : Layout)

def wakeClock : Nat → K Unit
  | 0 => leave .hang
  | fuel + 1 => do
    match ← fromLinks (·.removeBlocked (L.addr .clock)) with
    | none => pure ()
    | some p =>
      globals fun s => { s with gSoftBlockCount := s.gSoftBlockCount - 1 }
      links (·.insertProcQ .gReadyQueue p)
      wakeClock fuel

def handleSysTimer : K Unit := do
  wakeClock L (maxProc + 1)
  globals ({ · with gPseudoClock := 0 })

def handleLocalTimer : K Unit := do
  let p ← current
  let old := (← get).gOldState
  modPcb p ({ · with pS := old })
  links (·.insertProcQ .gReadyQueue p)
  globals ({ · with gCurrentProcess := none })
  scheduler

def handleLine : Line → K Unit
  | .localTimer => handleLocalTimer
  | .sysTimer => handleSysTimer L
  | .device deviceType => handleDeviceInt L deviceType

def serveLine : K Unit := do
  let cause := (← get).gOldState.cause
  match firstLine cause with
  | some (bit, line) =>
    globals fun s => { s with gOldState := s.gOldState.setCause (cause &&& ~~~bit) }
    handleLine L line
  | none => pure ()

def interruptHandler : Nat → K Unit
  | 0 => leave .hang
  | fuel + 1 => do
    serveLine L
    if (← get).gOldState.cause &&& interruptMask ≠ 0 then interruptHandler fuel
    let tod ← stck
    globals ({ · with gTod := tod })
    leave .ldst

def exceptionHandler : K Unit := do
  match excCode (← get).gOldState.cause with
  | 0 => do
    updateProcessTime
    interruptHandler L 7
  | 1 | 2 | 3 => passUpOrDie L pgFaultExcept
  | 8 => do
    globals fun s => { s with gOldState := s.gOldState.setPcEpc (s.gOldState.pcEpc + 4) }
    syscallHandler L
  | _ => passUpOrDie L generalExcept

/-- The kernel before `main()`. -/
def Kernel.static (mem bus : Word → Word) (stck : Nat → Word) : Kernel where
  toLinks := .static
  toGlobals := (Pandos.Kernel.zero mem bus stck).toGlobals

def initGlobalVariable (s : Kernel) : Kernel :=
  { s with
    toLinks := s.mkEmptyProcQ .gReadyQueue
    gProcessCount := 0
    gSoftBlockCount := 0
    gCurrentProcess := none
    gSysiostates := fun _ => ⟨1, 0, none⟩
    gPseudoClock := 1
    gTod := 0 }

def launchInit : K Unit := do
  globals fun s => { s with gProcessCount := s.gProcessCount + 1 }
  let pcb ← deref (← fromLinks (·.allocPcb))
  modPcb pcb fun r => { r with pS := r.pS.setStatus (r.pS.status ||| initStatus) }
  modPcb pcb fun r => { r with pS := r.pS.setPcEpc L.test }
  modPcb pcb fun r => { r with pS := r.pS.setRegT9 r.pS.pcEpc }
  modPcb pcb fun r => { r with pS := r.pS.setRegSp L.ramTop }
  links (·.insertProcQ .gReadyQueue pcb)

def main : K Unit := do
  modify initGlobalVariable
  links (·.initPcbs)
  links (·.initASH)
  launchInit L
  scheduler

end exceptions

/-! ## The machine -/

structure Machine where
  kernel : Kernel
  mode : Mode

namespace Machine
variable (L : Layout)

/-- Run kernel code from state `s`, entered from mode `m`. -/
def enter (m : Mode) (code : K Unit) (s : Kernel) : Machine :=
  match code s with
  | .ok _ s => ⟨s, m⟩
  | .error e s => ⟨s, Pandos.Machine.resume m s.pcbs e⟩

/-- The kernel state in which `exceptionHandler` starts. -/
def trapped (m : Machine) (t : Trap) : Kernel :=
  { m.kernel with
    gOldState := ⟨t.old, decide (m.mode = .waiting)⟩
    mem := t.mem
    bus := t.bus
    hw := t.hw }

def step (m : Machine) : Event → Machine
  | .exception t => enter m.mode (exceptionHandler L) (m.trapped t)
  | .wake => enter m.mode scheduler m.kernel

/-- The machine after `main()`. -/
def boot (mem bus : Word → Word) (stck : Nat → Word) : Machine :=
  enter .halted (main L) (.static mem bus stck)

end Machine

end Pandos.Linked
