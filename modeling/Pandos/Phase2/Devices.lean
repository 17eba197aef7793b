import Pandos.Phase2.Semaphores

/-! # `devices.c` -/

namespace Pandos
open K

def resolveDeviceAddress (a : Word) : Int :=
  if a < devregStartAddr then -1
  else if a ≥ devregStartAddr ∧ a < termregStartAddr then
    ((a - devregStartAddr) / devregSize).toNat
  else if a ≥ termregStartAddr ∧ a < termregEndAddr then
    ((termregStartAddr - devregStartAddr) / devregSize + (a - termregStartAddr) / (devregSize / 2)).toNat
  else -1

def getNumRegister (cmdAddr : Word) : Int :=
  if cmdAddr ≥ devregStartAddr ∧ cmdAddr < devregEndAddr then 4
  else if cmdAddr ≥ termregStartAddr ∧ cmdAddr < termregEndAddr then 2
  else -1

def isTermReg (a : Word) : Bool := decide (a ≥ termregStartAddr ∧ a < termregEndAddr)

/-- The address of word `i` of an array. -/
def wordAt (base : Word) (i : Nat) : Word := base + BitVec.ofNat 32 (4 * i)

theorem wordAt_inj {a : Word} {i k : Nat} (hi : i < 2 ^ 30) (hk : k < 2 ^ 30)
    (h : wordAt a i = wordAt a k) : i = k := by
  have h := congrArg BitVec.toNat h
  simp only [wordAt, BitVec.toNat_add, BitVec.toNat_ofNat] at h
  omega

/-- The register block of a device: `DEVADDR` for the first 32, then the
receiver and the transmitter of terminal 0. -/
def regAddr (d : Dev) : Word :=
  if d.val < 32 then devregStartAddr + BitVec.ofNat 32 (16 * d)
  else termregStartAddr + BitVec.ofNat 32 (8 * (d - 32))

/-- The device whose command register, the second word of its block, is at `a`. -/
def commandOf (a : Word) : Option Dev :=
  (List.finRange deviceNumber).find? fun d => d.val < 34 ∧ regAddr d + 4 = a

/-- A store to a device register. A command starts the device unless it is busy. -/
def Globals.writeReg (s : Globals) (a v : Word) : Globals :=
  { s with
    bus := Function.update s.bus a v
    hw := match commandOf a with
      | some d => if s.hw d = .busy then s.hw else Function.update s.hw d .busy
      | none => s.hw }

/-- `ACK` in a command register takes back the interrupt of a finished command. -/
def Globals.writeAck (s : Globals) (a : Word) : Globals :=
  { s with
    bus := Function.update s.bus a ack
    hw := match commandOf a with
      | some d => if s.hw d = .done then Function.update s.hw d .idle else s.hw
      | none => s.hw }

/-- `for (i = 0; i < n; i++) cmdAddr[i] = cmdValues[i]`. -/
def Globals.submit (s : Globals) (cmdAddr cmdValues : Word) (n : Int) : Globals :=
  (List.range n.toNat).foldl
    (fun s i => s.writeReg (wordAt cmdAddr i) (s.mem (wordAt cmdValues i))) s

/-- `for (i = 0; i < n; i++) cmdValues[i] = cmdAddr[i]`. -/
def Globals.collect (s : Globals) (cmdAddr cmdValues : Word) (n : Int) : Globals :=
  (List.range n.toNat).foldl
    (fun s i => s.writeMem (wordAt cmdValues i) (s.bus (wordAt cmdAddr i))) s

/-- The first device of the line whose bit is set in the bitmap; of a terminal
the transmitter when it shows `TRANSMITTED`, else the receiver. 0 is `NULL`. -/
def findDevRegAddr (bus : Word → Word) (deviceType : Nat) : Word :=
  let bitmap := bus (wordAt intdevBitmap (deviceType - 3))
  match (List.range 8).find? fun i => bitmap &&& (1#32 <<< i) ≠ 0 with
  | none => 0
  | some i =>
    let devregAddr := devAddr deviceType i
    if isTermReg devregAddr ∧ bus (devregAddr + 8) &&& deviceStatusMask = transmitted then
      devregAddr + 8
    else devregAddr

variable (L : Layout)

def beginIo (dev : Dev) (process : Pcb) : K Unit := do
  globals (·.modDev dev ({ · with waitingProcess := some process }))
  let r := (← get).pcbs process
  globals (·.submit r.cmdAddr r.cmdValues (getNumRegister r.cmdAddr))
  globals fun s => { s with gSoftBlockCount := s.gSoftBlockCount + 1 }
  sysPasseren L (L.addr (.semSync dev))

def endIo (dev : Dev) : K Unit := do
  let process ← deref ((← get).gSysiostates dev).waitingProcess
  let r := (← get).pcbs process
  globals (·.collect r.cmdAddr r.cmdValues (getNumRegister r.cmdAddr))
  globals fun s => { s with gSoftBlockCount := s.gSoftBlockCount - 1 }

/-- `ackDevice`: `ACK` to the word after the status of a device register block. -/
def ackDevice (devregAddr : Word) : K Unit := do
  if devregAddr ≥ devregStartAddr ∧ devregAddr < termregEndAddr then
    globals (·.writeAck (devregAddr + 4))

def setReturnValue (dev : Dev) (devregAddr : Word) : K Unit := do
  let s ← get
  let status := s.bus devregAddr &&& deviceStatusMask
  let success := if isTermReg devregAddr then transmitted ||| received else readyStatus
  let process ← deref (s.gSysiostates dev).waitingProcess
  tables (·.modPcb process fun r =>
    { r with pS := r.pS.setRegV0 (if status = success then 0 else -1) })

/-- Hand the device to the first process waiting for it, or release it. -/
def passDevice (dev : Dev) : K Unit := do
  match ← fromTables (·.removeBlocked (L.addr (.semMut dev))) with
  | some removed => beginIo L dev removed
  | none =>
    globals (·.modDev dev fun r => { r with waitingProcess := none, semMut := r.semMut + 1 })

/-- `handleDeviceInt` once the device is known. -/
def serveDevice (dev : Dev) (devregAddr : Word) : K Unit := do
  if ((← get).gSysiostates dev).semSync ≠ -1 then
    endIo dev
    setReturnValue dev devregAddr
  ackDevice devregAddr
  sysVerhogen L (L.addr (.semSync dev))
  passDevice L dev

def handleDeviceInt (deviceType : Nat) : K Unit := do
  let devregAddr := findDevRegAddr (← get).bus deviceType
  if devregAddr = 0 then return
  let dev ← device (resolveDeviceAddress devregAddr)
  serveDevice L dev devregAddr

end Pandos
