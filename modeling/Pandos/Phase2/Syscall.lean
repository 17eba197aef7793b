import Pandos.Phase2.Devices

/-! # `syscall.c` -/

namespace Pandos
open K

variable (L : Layout)

def resolveSemAddr (semaddr : Word) : Int :=
  if semaddr ≥ L.gSysiostates ∧
      semaddr < L.gSysiostates + BitVec.ofNat 32 (12 * deviceNumber) then
    ((semaddr - L.gSysiostates) / 12).toNat
  else -1

def isDeviceSemaphore (semaddr : Word) : Bool :=
  decide ((semaddr - L.gSysiostates) % 12 ≤ 2 * 4 ∧ semaddr ≥ L.gSysiostates ∧
    semaddr < L.gSysiostates + BitVec.ofNat 32 (12 * deviceNumber))

/-- `g_sysiostates[semnum].waiting_process == pcb`, for an index in bounds. -/
def Globals.waitsOn (s : Globals) (semnum : Int) (p : Pcb) : Option Dev :=
  if h : 0 ≤ semnum ∧ semnum < deviceNumber then
    let d : Dev := ⟨semnum.toNat, toNat_lt h⟩
    if (s.gSysiostates d).waitingProcess = some p then some d else none
  else none

/-- The part of `terminateProcess` that takes a blocked process off its semaphore. -/
def Kernel.unblock (s : Kernel) (p : Pcb) : Kernel :=
  let blockedSem := (s.pcbs p).pSemAdd
  if blockedSem ≠ 0 then
    match s.outBlocked p with
    | (none, t) => { s with toTables := t }
    | (some _, t) =>
      let s := { s with toTables := t }
      if isDeviceSemaphore L blockedSem then
        match s.waitsOn (resolveSemAddr L blockedSem) p with
        | some d =>
          { s with
            toGlobals := { s.toGlobals with gSoftBlockCount := s.gSoftBlockCount - 1 }.modDev d
              ({ · with semSync := -1 }) }
        | none => s
      else s
  else s

/-- The last two statements of `terminateProcess`. -/
def Kernel.discard (s : Kernel) (p : Pcb) : Kernel :=
  { s with gProcessCount := s.gProcessCount - 1, toTables := s.freePcb p }

mutual

/-- `terminateProcess` with calls nested at most `fuel` deep. -/
def terminateProcess : Nat → Kernel → Pcb → Option Kernel
  | 0, _, _ => none
  | fuel + 1, s, p => (terminateChildren fuel (s.unblock L p) p).map (·.discard p)

/-- `while ((child_pcb = removeChild(pcb)) != NULL) terminateProcess(child_pcb)`. -/
def terminateChildren : Nat → Kernel → Pcb → Option Kernel
  | 0, _, _ => none
  | fuel + 1, s, p =>
    match s.removeChild p with
    | (none, t) => some { s with toTables := t }
    | (some child, t) =>
      (terminateProcess fuel { s with toTables := t } child).bind (terminateChildren fuel · p)

end

/-- More calls than a table of `MAX_PROC` pcbs can nest. -/
abbrev terminateFuel : Nat := 2 * maxProc + 2

def sysCreateProcess (statep supportp : Word) (ns : Option Nsd) : K Word := do
  match ← fromTables (·.allocPcb) with
  | none => return -1
  | some pcb =>
    globals fun s => { s with gProcessCount := s.gProcessCount + 1 }
    let state := (← get).readState statep
    tables (·.modPcb pcb ({ · with pS := state }))
    tables (·.modPcb pcb ({ · with pSupportStruct := supportp }))
    match ns with
    | some ns =>
      match (← get).addNamespace maxProc pcb ns with
      | some t => tables fun _ => t
      | none => leave .hang
    | none =>
      let parent ← current
      let inherited := ((← get).pcbs parent).namespaces
      tables (·.modPcb pcb ({ · with namespaces := inherited }))
    tables (·.insertProcQ .gReadyQueue pcb)
    let parent ← current
    tables (·.insertChild parent pcb)
    return L.pcb pcb

def sysTerminateProcess (pid : Option Pcb) : K Unit := do
  let target ← match pid with
    | some p => pure p
    | none => current
  let _ ← fromTables (·.outChild target)
  match terminateProcess L terminateFuel (← get) target with
  | some s => set s
  | none => leave .hang
  scheduler

def sysDoIo (cmdAddr cmdValues : Word) : K Word := do
  let devNum := resolveDeviceAddress cmdAddr
  if devNum = -1 then leave .panic
  let caller ← current
  tables (·.modPcb caller ({ · with cmdAddr := cmdAddr, cmdValues := cmdValues }))
  let dev ← device devNum
  sysPasseren L (L.addr (.semMut dev))
  beginIo L dev (← current)
  return 0

def sysGetTime : K Word := do
  let p ← current
  let passed ← getPassedTime
  return ((← get).pcbs p).pTime + passed

def sysClockWait : K Unit := do
  globals fun s => { s with gSoftBlockCount := s.gSoftBlockCount + 1 }
  sysPasseren L (L.addr .clock)

def sysGetSupportPtr : K Word := do
  let p ← current
  return ((← get).pcbs p).pSupportStruct

def sysGetProcessID (isParent : Word) : K Word := do
  let p ← current
  let s ← get
  let parent := (s.pcbs p).pParent
  if isParent = 0 then return L.pcb p
  else if s.getNamespace parent pidNs ≠ s.getNamespace (some p) pidNs then return 0
  else return L.ofPcb parent

/-- Returns the count and the new `*used_size`. The array is memory of the
caller, not `NULL`. -/
def getChildsByNamespace (children : Word) (totalSize : Int) (ns : Option Nsd) :
    Nat → Int → Pcb → K (Int × Int)
  | 0, _, _ => leave .hang
  | fuel + 1, usedSize, pcb => do
    let s ← get
    if s.getNamespace (some pcb) pidNs ≠ ns then return (0, usedSize)
    let usedSize ←
      if usedSize < totalSize ∧ some pcb ≠ s.gCurrentProcess then do
        globals (·.writeMem (wordAt children usedSize.toNat) (L.pcb pcb))
        pure (usedSize + 1)
      else pure usedSize
    let (num, usedSize) ← (s.pChild pcb).foldlM (fun (num, usedSize) child => do
      let (n, usedSize) ← getChildsByNamespace children totalSize ns fuel usedSize child
      pure (num + n, usedSize)) (0, usedSize)
    return (num + 1, usedSize)

def sysGetChildren (children : Word) (size : Int) : K Int := do
  let p ← current
  let ns := (← get).getNamespace (some p) pidNs
  let (n, _) ← getChildsByNamespace L children size ns (maxProc + 1) 0 p
  return n - 1

/-- The offsets of `sup_exceptState[type]` and `sup_exceptContext[type]`. -/
def supExceptState (support : Word) (type : Nat) : Word := support + BitVec.ofNat 32 (4 + 140 * type)
def supExceptContext (support : Word) (type : Nat) : Word :=
  support + BitVec.ofNat 32 (4 + 140 * 2 + 12 * type)

def passUpOrDie (passupType : Nat) : K Unit := do
  let s ← get
  match s.gCurrentProcess with
  | none => sysTerminateProcess L none
  | some p =>
    let support := (s.pcbs p).pSupportStruct
    if support = 0 then sysTerminateProcess L (some p)
    else
      globals (·.writeState (supExceptState support passupType) s.gOldState)
      let s ← get
      let context := supExceptContext support passupType
      leave (.ldcxt (s.mem context) (s.mem (context + 4)) (s.mem (context + 8)))

/-- A pointer argument of a system call. -/
def toPointer {α : Type} (p : Option α) : K α :=
  match p with
  | some p => pure p
  | none => leave .fault

/-- The switch of `syscallHandler`, with its result. -/
def syscall (code a1 a2 a3 : Word) : K Word :=
  match code.toNat with
  | 1 => do sysCreateProcess L a1 a2 (← toPointer (L.toNsd a3))
  | 2 => do sysTerminateProcess L (← toPointer (L.toPcb a1)); return 0
  | 3 => do sysPasseren L a1; return 0
  | 4 => do sysVerhogen L a1; return 0
  | 5 => sysDoIo L a1 a2
  | 6 => sysGetTime
  | 7 => do sysClockWait L; return 0
  | 8 => sysGetSupportPtr
  | 9 => sysGetProcessID L a1
  | 10 => do return BitVec.ofInt 32 (← sysGetChildren L a1 a2.toInt)
  | _ => do passUpOrDie L generalExcept; return 0

def syscallHandler : K Unit := do
  let old := (← get).gOldState
  let result ← syscall L old.regA0 old.regA1 old.regA2 old.regA3
  globals fun s => { s with gOldState := s.gOldState.setRegV0 result }
  leave .ldst

end Pandos
