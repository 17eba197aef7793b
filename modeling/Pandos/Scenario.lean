import Mathlib.Data.Fintype.Prod
import Pandos.Reachable

/-!
# Running events

A script is a list of events, each made for the machine it meets. Its run is a
run of the machine whenever every event is possible where it comes.
-/

namespace Pandos

/-- An event made for a machine. -/
abbrev Script := List (Machine → Event)

namespace Machine
variable {L : Layout} {ok : Machine → Event → Prop} {m : Machine}

def run (L : Layout) (m : Machine) : Script → Machine
  | [] => m
  | e :: es => (m.step L (e m)).run L es

/-- Every event of the script is possible and satisfies `ok`. -/
def Follows (L : Layout) (ok : Machine → Event → Prop) (m : Machine) : Script → Prop
  | [] => True
  | e :: es => (m.Enabled (e m) ∧ ok m (e m)) ∧ (m.step L (e m)).Follows L ok es

theorem Reachable.run {es : Script} (h : Reachable L ok m) (hf : m.Follows L ok es) :
    Reachable L ok (m.run L es) := by
  induction es generalizing m with
  | nil => exact h
  | cons e es ih => exact ih (h.step hf.1.1 hf.1.2) hf.2

theorem Leads.run {m₀ : Machine} {es : Script} (h : Leads L ok m₀ m) (hf : m.Follows L ok es) :
    Leads L ok m₀ (m.run L es) := by
  induction es generalizing m with
  | nil => exact h
  | cons e es ih => exact ih (h.step hf.1.1 hf.1.2) hf.2

instance (m : Machine) : (e : Event) → Decidable (m.Enabled e)
  | .exception _ => inferInstanceAs (Decidable (_ ∧ _))
  | .wake => inferInstanceAs (Decidable (_ = _))

instance (L : Layout) (m : Machine) : (e : Event) → Decidable (m.Lawful L e)
  | .exception _ => inferInstanceAs (Decidable (_ ∧ _))
  | .wake => inferInstanceAs (Decidable True)

instance Follows.decidable (L : Layout) [∀ m e, Decidable (ok m e)] (m : Machine) :
    (es : Script) → Decidable (m.Follows L ok es)
  | [] => inferInstanceAs (Decidable True)
  | e :: es =>
    have := Follows.decidable L (m.step L (e m)) es
    inferInstanceAs (Decidable ((_ ∧ _) ∧ _))

/-- Only `TERMPROCESS` and what is passed up terminate somebody. -/
theorem not_terminates {t : Trap} {p : Pcb} (h2 : ¬t.Calls 2) (hu : ¬t.PassesUp) :
    ¬m.Terminates L t p := by
  rintro (⟨h, -⟩ | ⟨h, -⟩)
  · exact h2 h
  · exact hu h

end Machine

/-- One way to place the kernel's data. -/
def sampleLayout : Layout where
  gPseudoClock := 0x20010000
  gSysiostates := 0x20020000
  pcb p := 0x20030000 + BitVec.ofNat 32 (256 * p)
  nsd n := 0x20040000 + BitVec.ofNat 32 (16 * n.2)
  test := 0x20050000
  ramTop := 0x20100000
  clock_ne := by decide
  sys_pos := by decide
  sys_fits := by decide
  clock_apart := by decide
  pcb_ne := by decide
  pcb_aligned := by decide
  pcb_inj := by decide
  nsd_ne := by decide
  nsd_inj := by decide

/-- A machine with empty memory and a clock that ticks once a read. -/
def sampleBoot : Machine :=
  .boot sampleLayout (fun _ => 0) (fun _ => 0) fun n => BitVec.ofNat 32 n

/-- The trap of system call `n`. -/
def callTrap (n a1 a2 a3 : Word) (m : Machine) : Trap where
  old i :=
    if i = 1 then 0x20 else if i = 7 then n else if i = 8 then a1 else if i = 9 then a2
    else if i = 10 then a3 else 0
  mem := m.kernel.mem
  bus := m.kernel.bus
  hw := m.kernel.hw

/-- The running process makes system call `n`. -/
def call (n a1 a2 a3 : Word) (m : Machine) : Event := .exception (callTrap n a1 a2 a3 m)

/-- Interrupts on the lines in `cause`, with the registers of the bus and the
devices that finish changed. -/
def interruptTrap (cause : Word) (bus : List (Word × Word)) (finished : List Dev) (m : Machine) :
    Trap where
  old i := if i = 1 then cause else 0
  mem := m.kernel.mem
  bus a := ((bus.find? fun w => w.1 = a).map (·.2)).getD (m.kernel.bus a)
  hw d := if d ∈ finished then .done else m.kernel.hw d

def interrupt (cause : Word) (bus : List (Word × Word)) (finished : List Dev) (m : Machine) : Event :=
  .exception (interruptTrap cause bus finished m)

/-- The local timer interrupts the running process. -/
def preempt : Machine → Event := interrupt 0x200 [] []

/-- The trap of the first disk when it has finished. -/
def diskTrap : Machine → Trap := interruptTrap 0x800 [(0x10000040, 1)] [0]

def wake (_ : Machine) : Event := .wake

end Pandos
