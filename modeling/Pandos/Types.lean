import Mathlib.Algebra.GroupWithZero.Nat
import Mathlib.Data.Fintype.Basic
import Mathlib.Logic.Function.Basic
import Pandos.Lib.Lists

/-!
# Constants, records and the kernel state

`pandos_const.h`, `pandos_types.h` and the globals of `nucleus.h`. A `Pcb` is an
entry of `pcbFree_table`, a `Semd` an entry of `semd_table`. The link fields
`p_list`, `p_sib`, `s_freelink` and `s_link` are kept as the lists they thread.
-/

namespace Pandos
open Intrusive

/-- A machine word: `int`, `unsigned int` and every pointer. -/
abbrev Word := BitVec 32

abbrev maxProc : Nat := 20
abbrev nsTypeMax : Nat := 1
abbrev deviceNumber : Nat := 48

abbrev Pcb := Fin maxProc
abbrev Semd := Fin maxProc
abbrev Dev := Fin deviceNumber
/-- A bucket of the semaphore hash, of `1 << 5` buckets. -/
abbrev Bucket := Fin 32

instance neZero_maxProc : NeZero maxProc := ⟨by decide⟩
instance neZero_deviceNumber : NeZero deviceNumber := ⟨by decide⟩
instance lawfulBEq_pcb : LawfulBEq Pcb := inferInstance

/-- An index that has been checked is in bounds. -/
theorem toNat_lt {n : Int} {k : Nat} (h : 0 ≤ n ∧ n < k) : n.toNat < k := by omega

/-! ## Constants -/

def generalExcept : Nat := 1
def pgFaultExcept : Nat := 0

def localTimerInt : Word := 0x00000200
def timerInterrupt : Word := 0x00000400
def diskInterrupt : Word := 0x00000800
def flashInterrupt : Word := 0x00001000
def printInterrupt : Word := 0x00004000
def termInterrupt : Word := 0x00008000

def deviceStatusMask : Word := 0xFF
def devregStartAddr : Word := 0x10000054
def devregEndAddr : Word := 0x10000254
def termregStartAddr : Word := 0x10000254
def termregEndAddr : Word := 0x10000264
def intdevBitmap : Word := 0x10000040
def devregSize : Word := 16
def diskIntline : Nat := 3
def flashIntline : Nat := 4
def printerIntline : Nat := 6
def termIntline : Nat := 7
def received : Word := 5
def transmitted : Word := 5
def readyStatus : Word := 1
def ack : Word := 1
def pidNs : Int := 0

/-- `DEVADDR(INT, DEV)`. -/
def devAddr (int dev : Nat) : Word :=
  devregStartAddr + BitVec.ofNat 32 ((int - 3) * 0x80) + BitVec.ofNat 32 (dev * 0x10)

/-! ## Records -/

/-- `state_t`: the 35 words of `STATESIZE`. `inWait` tells a context whose
program counter is in the `WAIT` loop of `scheduler()` from one of a process. -/
structure StateT where
  words : Fin 35 → Word
  inWait : Bool

instance neZero_words : NeZero 35 := ⟨by decide⟩

namespace StateT

def zero : StateT := ⟨fun _ => 0, false⟩

def cause (s : StateT) : Word := s.words 1
def status (s : StateT) : Word := s.words 2
def pcEpc (s : StateT) : Word := s.words 3
def regV0 (s : StateT) : Word := s.words 5
def regA0 (s : StateT) : Word := s.words 7
def regA1 (s : StateT) : Word := s.words 8
def regA2 (s : StateT) : Word := s.words 9
def regA3 (s : StateT) : Word := s.words 10

def set (s : StateT) (i : Fin 35) (v : Word) : StateT :=
  { s with words := Function.update s.words i v }
def setCause (s : StateT) (v : Word) : StateT := s.set 1 v
def setStatus (s : StateT) (v : Word) : StateT := s.set 2 v
def setPcEpc (s : StateT) (v : Word) : StateT := s.set 3 v
def setRegV0 (s : StateT) (v : Word) : StateT := s.set 5 v
def setRegT9 (s : StateT) (v : Word) : StateT := s.set 28 v
def setRegSp (s : StateT) (v : Word) : StateT := s.set 30 v

@[simp] theorem inWait_set (s : StateT) (i : Fin 35) (v : Word) : (s.set i v).inWait = s.inWait := rfl

@[simp] theorem cause_setCause (s : StateT) (v : Word) : (s.setCause v).cause = v := rfl

end StateT

/-- A namespace descriptor: a cell of `type_nsd`; its `n_type` is the row. -/
abbrev Nsd := Fin nsTypeMax × Fin maxProc

/-- `pcb_t` without its links. -/
structure PcbT where
  pParent : Option Pcb
  pS : StateT
  pTime : Word
  pSemAdd : Word
  namespaces : Fin nsTypeMax → Option Nsd
  pSupportStruct : Word
  cmdAddr : Word
  cmdValues : Word

/-- A pcb with every byte 0. -/
def PcbT.zero : PcbT := ⟨none, .zero, 0, 0, fun _ => none, 0, 0, 0⟩

/-- The heads of the lists threaded by `p_list`. -/
inductive ProcQ
  | pcbFreeH
  | gReadyQueue
  | sProcq (sem : Semd)
  deriving DecidableEq

/-- `sysiostate_t`. -/
structure SysiostateT where
  semMut : Word
  semSync : Word
  waitingProcess : Option Pcb
  deriving DecidableEq

/-- The interrupt of the device does not find `waiting_process` missing. -/
def SysiostateT.Answers (r : SysiostateT) : Prop := r.semSync = -1 ∨ r.waitingProcess ≠ none

/-- What the hardware of a device is doing: no command, a command it has not
finished, or a finished command whose interrupt is not acknowledged. -/
inductive DevPhase
  | idle | busy | done
  deriving DecidableEq

/-- The tables of phase 1 and the lists threaded through them. -/
structure Tables where
  pcbs : Pcb → PcbT
  procQ : Lists ProcQ Pcb
  pChild : Lists Pcb Pcb
  sKey : Semd → Word
  semdFreeH : List Semd
  semdH : Lists Bucket Semd

namespace Tables

theorem eq_of {t t' : Tables} (hp : t.pcbs = t'.pcbs) (hq : t.procQ = t'.procQ)
    (hc : t.pChild = t'.pChild) (hk : t.sKey = t'.sKey) (hf : t.semdFreeH = t'.semdFreeH)
    (hh : t.semdH = t'.semdH) : t = t' := by
  cases t
  cases t'
  simp_all

abbrev free (t : Tables) : List Pcb := t.procQ .pcbFreeH
abbrev ready (t : Tables) : List Pcb := t.procQ .gReadyQueue

/-- Change the record of one pcb. -/
def modPcb (t : Tables) (p : Pcb) (f : PcbT → PcbT) : Tables :=
  { t with pcbs := Function.update t.pcbs p (f (t.pcbs p)) }

end Tables

/-- The globals of `nucleus.h` and the memory the kernel works on. Device and
bus registers are in `bus`, the words of processes in `mem`. `stck n` is what
the `n`-th read of the time-of-day clock returns. -/
structure Globals where
  gProcessCount : Int
  gSoftBlockCount : Int
  gCurrentProcess : Option Pcb
  gSysiostates : Dev → SysiostateT
  gPseudoClock : Word
  gTod : Word
  gOldState : StateT
  mem : Word → Word
  bus : Word → Word
  hw : Dev → DevPhase
  stck : Nat → Word
  stckReads : Nat

/-- The kernel: the tables of phase 1 and everything else. -/
structure Kernel extends Tables, Globals

namespace Globals

/-- Change the record of one device. -/
def modDev (s : Globals) (d : Dev) (f : SysiostateT → SysiostateT) : Globals :=
  { s with gSysiostates := Function.update s.gSysiostates d (f (s.gSysiostates d)) }

/-- A store to a word of a process. -/
def writeMem (s : Globals) (a v : Word) : Globals := { s with mem := Function.update s.mem a v }

/-- `memcpy` of a `state_t` out of memory. -/
def readState (s : Globals) (a : Word) : StateT :=
  ⟨fun i => s.mem (a + BitVec.ofNat 32 (4 * i)), false⟩

/-- `memcpy` of a `state_t` into memory. -/
def writeState (s : Globals) (a : Word) (t : StateT) : Globals :=
  (List.finRange 35).foldl (fun (s : Globals) (i : Fin 35) =>
    s.writeMem (a + BitVec.ofNat 32 (4 * i)) (t.words i)) s

end Globals

/-! ## Placement -/

/-- A word of the kernel that the code hands to `PASSEREN` and `VERHOGEN`. -/
inductive KernelWord
  | clock
  | semMut (d : Dev)
  | semSync (d : Dev)
  deriving DecidableEq

/-- Where the linker put the kernel's data. `g_sysiostates` is an array of
`DEVICE_NUMBER` records of three words. -/
structure Layout where
  gPseudoClock : Word
  gSysiostates : Word
  pcb : Pcb → Word
  nsd : Nsd → Word
  test : Word
  ramTop : Word
  clock_ne : gPseudoClock ≠ 0
  sys_pos : 0 < gSysiostates.toNat
  sys_fits : gSysiostates.toNat + 12 * deviceNumber < 2 ^ 32
  clock_apart : gPseudoClock.toNat + 4 ≤ gSysiostates.toNat ∨
    gSysiostates.toNat + 12 * deviceNumber ≤ gPseudoClock.toNat
  pcb_ne : ∀ p, pcb p ≠ 0
  pcb_aligned : ∀ p, pcb p % 4 = 0
  pcb_inj : Function.Injective pcb
  nsd_ne : ∀ n, nsd n ≠ 0
  nsd_inj : Function.Injective nsd

namespace Layout
variable (L : Layout)

/-- `&g_sysiostates[d]`. -/
def sysiostate (d : Dev) : Word := L.gSysiostates + BitVec.ofNat 32 (12 * d)

def addr : KernelWord → Word
  | .clock => L.gPseudoClock
  | .semMut d => L.sysiostate d
  | .semSync d => L.sysiostate d + 4

/-- The words of the kernel a semaphore address can hit. -/
def KernelData (a : Word) : Prop :=
  L.gPseudoClock.toNat ≤ a.toNat ∧ a.toNat < L.gPseudoClock.toNat + 4 ∨
  L.gSysiostates.toNat ≤ a.toNat ∧ a.toNat < L.gSysiostates.toNat + 12 * deviceNumber

instance (a : Word) : Decidable (L.KernelData a) := by unfold KernelData; infer_instance

/-- Which word of the kernel is at `a`. -/
def kernelWord (a : Word) : Option KernelWord :=
  if a = L.gPseudoClock then some .clock
  else
    let off := a.toNat - L.gSysiostates.toNat
    if h : L.gSysiostates.toNat ≤ a.toNat ∧ off / 12 < deviceNumber then
      if off % 12 = 0 then some (.semMut ⟨off / 12, h.2⟩)
      else if off % 12 = 4 then some (.semSync ⟨off / 12, h.2⟩)
      else none
    else none

/-- A pointer to a pcb: `none` is `NULL`; other words point to no pcb. -/
def toPcb (a : Word) : Option (Option Pcb) :=
  if a = 0 then some none
  else ((List.finRange maxProc).find? fun p => L.pcb p = a).map some

/-- `(memaddr) p`. -/
def ofPcb : Option Pcb → Word
  | none => 0
  | some p => L.pcb p

def toNsd (a : Word) : Option (Option Nsd) :=
  if a = 0 then some none
  else (((List.finRange nsTypeMax).product (List.finRange maxProc)).find? fun n => L.nsd n = a).map some

end Layout

namespace Globals
variable (L : Layout)

def word (s : Globals) : KernelWord → Word
  | .clock => s.gPseudoClock
  | .semMut d => (s.gSysiostates d).semMut
  | .semSync d => (s.gSysiostates d).semSync

def setWord (s : Globals) (w : KernelWord) (v : Word) : Globals :=
  match w with
  | .clock => { s with gPseudoClock := v }
  | .semMut d => s.modDev d ({ · with semMut := v })
  | .semSync d => s.modDev d ({ · with semSync := v })

/-- `*semaddr`. -/
def load (s : Globals) (semaddr : Word) : Word :=
  match L.kernelWord semaddr with
  | some w => s.word w
  | none => s.mem semaddr

/-- `*semaddr = v`. -/
def store (s : Globals) (semaddr v : Word) : Globals :=
  match L.kernelWord semaddr with
  | some w => s.setWord w v
  | none => s.writeMem semaddr v

end Globals

end Pandos
