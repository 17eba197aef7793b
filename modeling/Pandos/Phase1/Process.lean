import Pandos.Types

/-! # `process.c`: pcbs, process queues and the process tree -/

namespace Pandos.Tables
open Intrusive

/-- `list_del(&p->p_list)`. -/
def listDel (t : Tables) (p : Pcb) : Tables := { t with procQ := t.procQ.unlink p }

/-- `list_add(&p->p_list, head)`. -/
def listAdd (t : Tables) (head : ProcQ) (p : Pcb) : Tables :=
  { t with procQ := t.procQ.push head p }

/-- `!list_empty(&p->p_list)`: `p` is on some list. -/
def linked (t : Tables) (p : Pcb) : Bool :=
  decide (p ∈ t.free) || decide (p ∈ t.ready) ||
    (List.finRange maxProc).any fun i => decide (p ∈ t.procQ (.sProcq i))

def initPcbs (t : Tables) : Tables :=
  (List.finRange maxProc).foldl (fun t p => t.listAdd .pcbFreeH p) t

def freePcb (t : Tables) (p : Pcb) : Tables :=
  (if t.linked p then t.listDel p else t).listAdd .pcbFreeH p

/-- `memset` to 0 and empty lists. -/
def resetPcb (t : Tables) (p : Pcb) : Tables :=
  { t.modPcb p (fun _ => .zero) with pChild := Function.update t.pChild p [] }

def allocPcb (t : Tables) : Option Pcb × Tables :=
  match t.free with
  | [] => (none, t)
  | next :: _ => (some next, (t.listDel next).resetPcb next)

def mkEmptyProcQ (t : Tables) (head : ProcQ) : Tables :=
  { t with procQ := Function.update t.procQ head [] }

def emptyProcQ (t : Tables) (head : ProcQ) : Bool := (t.procQ head).isEmpty

def insertProcQ (t : Tables) (head : ProcQ) (p : Pcb) : Tables :=
  { t with procQ := (t.procQ.unlink p).append head p }

def headProcQ (t : Tables) (head : ProcQ) : Option Pcb := (t.procQ head).head?

def removeProcQ (t : Tables) (head : ProcQ) : Option Pcb × Tables :=
  match t.procQ head with
  | [] => (none, t)
  | next :: _ => (some next, t.listDel next)

def outProcQ (t : Tables) (head : ProcQ) (p : Pcb) : Option Pcb × Tables :=
  if p ∈ t.procQ head then (some p, t.listDel p) else (none, t)

def emptyChild (t : Tables) (p : Pcb) : Bool := (t.pChild p).isEmpty

def insertChild (t : Tables) (parent child : Pcb) : Tables :=
  { t.modPcb child ({ · with pParent := some parent }) with
    pChild := (t.pChild.unlink child).append parent child }

/-- A pcb that was never allocated has no children here; in the code its
`p_child` is still 0, which is not an empty list. -/
def removeChild (t : Tables) (parent : Pcb) : Option Pcb × Tables :=
  match t.pChild parent with
  | [] => (none, t)
  | child :: _ => (some child, { t with pChild := t.pChild.unlink child })

def outChild (t : Tables) (child : Pcb) : Option Pcb × Tables :=
  match (t.pcbs child).pParent with
  | none => (none, t)
  | some parent =>
    if child ∈ t.pChild parent then (some child, { t with pChild := t.pChild.unlink child })
    else (none, t)

end Pandos.Tables
