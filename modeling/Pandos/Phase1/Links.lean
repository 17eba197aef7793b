import Pandos.Lib.Chains
import Pandos.Phase1.QueuePointers
import Pandos.Phase1.Semaphore
import Pandos.Phase1.SiblingPointers

/-!
# Phase 1, pointer by pointer

`process.c` and `semaphore.c` on the records as they are in memory: every
`list_head` and `hlist_node` of a `pcb_t` or a `semd_t` holds pointers. `Tables`
keeps the lists that these pointers thread. An access through `NULL` has no
result.
-/

namespace Pandos
open Intrusive

structure Links where
  pcbs : Pcb → PcbT
  /-- The `p_list` of every pcb and the heads of the queues. -/
  pList : Heap ProcQ Pcb
  /-- The `p_child` and the `p_sib` of every pcb. -/
  pSib : Heap Pcb Pcb
  sKey : Semd → Word
  sFreelink : Heap Unit Semd
  sLink : Chains Bucket Semd

namespace Links

/-- Static memory. `LIST_HEAD` defines the heads of `pcbFree_h` and `semdFree_h`;
all else is 0. -/
def static : Links where
  pcbs := fun _ => .zero
  pList := (⟨fun _ => none, fun _ => none⟩ : Heap ProcQ Pcb).initListHead (.head .pcbFreeH)
  pSib := ⟨fun _ => none, fun _ => none⟩
  sKey := fun _ => 0
  sFreelink := (⟨fun _ => none, fun _ => none⟩ : Heap Unit Semd).initListHead (.head ())
  sLink := ⟨fun _ => none, fun _ => none, fun _ => none⟩

/-! ## `process.c` -/

section process
variable (t : Links)

def modPcb (p : Pcb) (f : PcbT → PcbT) : Links :=
  { t with pcbs := Function.update t.pcbs p (f (t.pcbs p)) }

/-- `list_delete_safe` of a `p_list`. -/
def listDeleteSafe (list : Cell ProcQ Pcb) : Option Links := do
  let pList ← t.pList.listDeleteSafe list
  return { t with pList }

def initPcbs : Option Links := do
  let pList ← (List.finRange maxProc).foldlM
    (fun m p => m.listAdd (.node p) (.head .pcbFreeH)) t.pList
  return { t with pList }

def freePcb (p : Pcb) : Option Links := do
  let t ← if t.pList.listEmpty (.node p) then pure t else t.listDeleteSafe (.node p)
  let pList ← t.pList.listAdd (.node p) (.head .pcbFreeH)
  return { t with pList }

/-- `reset`. The three links are set again after `memset`. -/
def reset (pcb : Pcb) : Links :=
  { t with
    pcbs := Function.update t.pcbs pcb .zero
    pList := t.pList.initListHead (.node pcb)
    pSib := (t.pSib.initListHead (.head pcb)).initListHead (.node pcb) }

def allocPcb : Option (Option Pcb × Links) :=
  if t.pList.listEmpty (.head .pcbFreeH) then some (none, t)
  else do
    let next ← t.pList.next (.head .pcbFreeH)
    let t ← t.listDeleteSafe next
    let pcb ← next.containerOf
    return (some pcb, t.reset pcb)

def mkEmptyProcQ (head : ProcQ) : Links := { t with pList := t.pList.initListHead (.head head) }

def emptyProcQ (head : ProcQ) : Bool := t.pList.listEmpty (.head head)

def insertProcQ (head : ProcQ) (p : Pcb) : Option Links := do
  let pList ← QueueHeap.insertProcQ t.pList head p
  return { t with pList }

def headProcQ (head : ProcQ) : Option (Option Pcb) := QueueHeap.headProcQ t.pList head

def removeProcQ (head : ProcQ) : Option (Option Pcb × Links) := do
  let (p, pList) ← QueueHeap.removeProcQ t.pList head
  return (p, { t with pList })

def outProcQ (head : ProcQ) (p : Pcb) : Option (Option Pcb × Links) := do
  let (p, pList) ← QueueHeap.outProcQ t.pList head p
  return (p, { t with pList })

/-- The fields that thread the tree. -/
def tree : TreeHeap := ⟨t.pSib, fun p => (t.pcbs p).pParent⟩

def withTree (u : TreeHeap) : Links :=
  { t with pcbs := fun p => { t.pcbs p with pParent := u.pParent p }, pSib := u.links }

def emptyChild (p : Pcb) : Bool := t.tree.emptyChild p

/-- `list_for_each` over `p_child`. No body of these loops changes a link, so the
children are met before the first body. -/
def children (p : Pcb) : Option (List Pcb) :=
  (t.pSib.next (.head p)).bind (t.pSib.listNodes (.head p) (maxProc + 1))

def insertChild (parent child : Pcb) : Option Links := do
  let u ← t.tree.insertChild parent child
  return t.withTree u

def removeChild (parent : Pcb) : Option (Option Pcb × Links) := do
  let (child, u) ← t.tree.removeChild parent
  return (child, t.withTree u)

def outChild (child : Pcb) : Option (Option Pcb × Links) := do
  let (child, u) ← t.tree.outChild child
  return (child, t.withTree u)

end process

/-! ## `semaphore.c` -/

section semaphore
variable (t : Links)

def initASH : Option Links := do
  let sFreelink ← (List.finRange maxProc).foldlM
    (fun m i => m.listAdd (.node i) (.head ())) t.sFreelink
  return { t with sFreelink }

def findSem (semAdd : Word) : Option (Option Semd) :=
  if t.sLink.hlistEmpty (hashMin semAdd) then some none
  else t.sLink.hlistFind (fun i => t.sKey i = semAdd) (maxProc + 1) (t.sLink.first (hashMin semAdd))

/-- `reset` of a descriptor. -/
def resetSemd (i : Semd) : Links :=
  { t.mkEmptyProcQ (.sProcq i) with
    sKey := Function.update t.sKey i 0
    sFreelink := t.sFreelink.initListHead (.node i)
    sLink := t.sLink.initHlistNode i }

def allocSemd : Option (Option Semd × Links) :=
  if t.sFreelink.listEmpty (.head ()) then some (none, t)
  else do
    let next ← t.sFreelink.next (.head ())
    let sFreelink ← t.sFreelink.listDeleteSafe next
    let i ← next.containerOf
    return (some i, ({ t with sFreelink } : Links).resetSemd i)

def freeSemdIfempty (i : Semd) : Option Links :=
  if t.emptyProcQ (.sProcq i) then do
    let sFreelink ← t.sFreelink.listAdd (.node i) (.head ())
    return { t with sLink := t.sLink.hlistDelInit i, sFreelink }
  else some t

/-- `hash_add` of a fresh descriptor. -/
def hashAdd (i : Semd) (semAdd : Word) : Links :=
  { t with
    sKey := Function.update t.sKey i semAdd
    sLink := t.sLink.hlistAddHead i (hashMin semAdd) }

/-- The first half of `insertBlocked`. -/
def semFor (semAdd : Word) : Option (Option Semd × Links) := do
  match ← t.findSem semAdd with
  | some i => return (some i, t)
  | none =>
    match ← t.allocSemd with
    | (none, t) => return (none, t)
    | (some i, t) => return (some i, t.hashAdd i semAdd)

def insertBlocked (semAdd : Word) (p : Pcb) : Option (Bool × Links) := do
  match ← t.semFor semAdd with
  | (none, t) => return (true, t)
  | (some i, t) =>
    let t ← t.listDeleteSafe (.node p)
    let t ← t.insertProcQ (.sProcq i) p
    return (false, t.modPcb p ({ · with pSemAdd := semAdd }))

def removeBlocked (semAdd : Word) : Option (Option Pcb × Links) := do
  match ← t.findSem semAdd with
  | none => return (none, t)
  | some i =>
    if t.emptyProcQ (.sProcq i) then return (none, t)
    let next ← t.pList.next (.head (.sProcq i))
    let p ← next.containerOf
    let t := t.modPcb p ({ · with pSemAdd := 0 })
    let t ← t.listDeleteSafe next
    let t ← t.freeSemdIfempty i
    return (some p, t)

/-- `list_for_each` from `pos` on, without a way out: is `entry` met? -/
def scan (m : Heap ProcQ Pcb) (head entry : Cell ProcQ Pcb) :
    Nat → Bool → Cell ProcQ Pcb → Option Bool
  | 0, _, _ => none
  | fuel + 1, met, pos =>
    if pos = head then some met
    else (m.next pos).bind (scan m head entry fuel (met || decide (entry = pos)))

def outBlocked (p : Pcb) : Option (Option Pcb × Links) := do
  match ← t.findSem (t.pcbs p).pSemAdd with
  | none => return (none, t)
  | some i =>
    let pos ← t.pList.next (.head (.sProcq i))
    if ← scan t.pList (.head (.sProcq i)) (.node p) (maxProc + 1) false pos then
      let t ← t.listDeleteSafe (.node p)
      let t ← t.freeSemdIfempty i
      return (some p, t.modPcb p ({ · with pSemAdd := 0 }))
    else return (none, t)

def headBlocked (semAdd : Word) : Option (Option Pcb) := do
  match ← t.findSem semAdd with
  | none => return none
  | some i => t.headProcQ (.sProcq i)

end semaphore

/-- What `main()` calls of phase 1 before the first process. -/
def boot : Option Links := do
  let t ← (static.mkEmptyProcQ .gReadyQueue).initPcbs
  t.initASH

end Links

end Pandos
