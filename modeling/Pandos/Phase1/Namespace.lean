import Pandos.Phase1.Process

/-! # `namespace.c`: the namespaces of a process -/

namespace Pandos.Tables

def getNamespace (t : Tables) (p : Option Pcb) (type : Int) : Option Nsd :=
  match p with
  | none => none
  | some p =>
    if h : 0 ≤ type ∧ type < nsTypeMax then (t.pcbs p).namespaces ⟨type.toNat, toNat_lt h⟩ else none

def setNamespace (t : Tables) (p : Pcb) (type : Fin nsTypeMax) (ns : Option Nsd) : Tables :=
  t.modPcb p fun r => { r with namespaces := Function.update r.namespaces type ns }

/-- `addNamespace` on trees of at most `fuel` generations. -/
def addNamespace : Nat → Tables → Pcb → Nsd → Option Tables
  | 0, _, _, _ => none
  | fuel + 1, t, p, ns =>
    (t.pChild p).foldlM (fun t child => addNamespace fuel t child ns)
      (t.setNamespace p ns.1 (some ns))

end Pandos.Tables
