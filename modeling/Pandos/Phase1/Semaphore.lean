import Pandos.Phase1.Process

/-! # `semaphore.c`: the active semaphore hash -/

namespace Pandos
open Intrusive

/-- `hash_min(key, HASH_BITS(semd_h))`: the 5 high bits of the product. -/
def hashMin (key : Word) : Bucket :=
  ⟨((key * 0x61C88647#32) >>> 27).toNat, by
    have := (key * 0x61C88647#32).isLt
    simp only [BitVec.toNat_ushiftRight, Nat.shiftRight_eq_div_pow]
    omega⟩

namespace Tables

def initASH (t : Tables) : Tables :=
  (List.finRange maxProc).foldl (fun t i => { t with semdFreeH := i :: t.semdFreeH }) t

def findSem (t : Tables) (semAdd : Word) : Option Semd :=
  (t.semdH (hashMin semAdd)).find? fun i => t.sKey i = semAdd

/-- `reset` of a descriptor taken from `semdFree_h`. -/
def resetSemd (t : Tables) (i : Semd) : Tables :=
  { t.mkEmptyProcQ (.sProcq i) with sKey := Function.update t.sKey i 0 }

def allocSemd (t : Tables) : Option Semd × Tables :=
  match t.semdFreeH with
  | [] => (none, t)
  | next :: rest => (some next, ({ t with semdFreeH := rest }).resetSemd next)

def freeSemdIfempty (t : Tables) (i : Semd) : Tables :=
  if t.emptyProcQ (.sProcq i) then
    { t with semdH := t.semdH.unlink i, semdFreeH := i :: t.semdFreeH }
  else t

/-- Key a fresh descriptor and put it in its bucket. -/
def hashAdd (t : Tables) (i : Semd) (semAdd : Word) : Tables :=
  { t with
    sKey := Function.update t.sKey i semAdd
    semdH := t.semdH.push (hashMin semAdd) i }

/-- The descriptor of `semAdd`, allocated when there is none. -/
def semFor (t : Tables) (semAdd : Word) : Option Semd × Tables :=
  match t.findSem semAdd with
  | some i => (some i, t)
  | none =>
    match t.allocSemd with
    | (none, t) => (none, t)
    | (some i, t) => (some i, t.hashAdd i semAdd)

def insertBlocked (t : Tables) (semAdd : Word) (p : Pcb) : Bool × Tables :=
  match t.semFor semAdd with
  | (none, t) => (true, t)
  | (some i, t) =>
    (false, ((t.listDel p).insertProcQ (.sProcq i) p).modPcb p ({ · with pSemAdd := semAdd }))

def removeBlocked (t : Tables) (semAdd : Word) : Option Pcb × Tables :=
  match t.findSem semAdd with
  | none => (none, t)
  | some i =>
    match t.procQ (.sProcq i) with
    | [] => (none, t)
    | p :: _ =>
      (some p, ((t.modPcb p ({ · with pSemAdd := 0 })).listDel p).freeSemdIfempty i)

def outBlocked (t : Tables) (p : Pcb) : Option Pcb × Tables :=
  match t.findSem (t.pcbs p).pSemAdd with
  | none => (none, t)
  | some i =>
    if p ∈ t.procQ (.sProcq i) then
      (some p, ((t.listDel p).freeSemdIfempty i).modPcb p ({ · with pSemAdd := 0 }))
    else (none, t)

def headBlocked (t : Tables) (semAdd : Word) : Option Pcb :=
  match t.findSem semAdd with
  | none => none
  | some i => (t.procQ (.sProcq i)).head?

end Tables

end Pandos
