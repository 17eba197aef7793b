import Pandos.Phase2.Exceptions

/-!
# Runs

Between two exceptions the machine executes a process or sits in the `WAIT` of
`scheduler()`. An exception stores the processor state and enters the kernel,
which has interrupts disabled until it leaves again. What processes do to their
registers and memory, and what devices do to theirs, comes with the exception.

What a process hands to the kernel by address is its own: the array of
`GETCHILDREN`, the values of a `DOIO` and its support structure lie outside the
kernel's data, so the kernel's stores there reach `mem` and nothing else. Only
the address of a semaphore is looked up among the kernel's words.
-/

namespace Pandos

inductive Mode
  /-- Process `p` is executing. -/
  | running (p : Pcb)
  /-- The scheduler is in its `WAIT` loop. -/
  | waiting
  | halted
  | panicked
  /-- The kernel made an invalid access. -/
  | stuck
  /-- The kernel is in an endless loop. -/
  | hung
  deriving DecidableEq

structure Machine where
  kernel : Kernel
  mode : Mode

/-- An exception as the hardware presents it: the processor state it stores,
the words of memory and of devices, and how far the devices are. The addresses
among its arguments, but for those of semaphores, are not in the kernel's data. -/
structure Trap where
  old : Fin 35 → Word
  mem : Word → Word
  bus : Word → Word
  hw : Dev → DevPhase

namespace Trap

/-- The exception is system call `n`. -/
def Calls (t : Trap) (n : Nat) : Prop := excCode (t.old 1) = 8 ∧ (t.old 7).toNat = n

/-- The exception is left to `passUpOrDie`. -/
def PassesUp (t : Trap) : Prop :=
  excCode (t.old 1) ≠ 0 ∧ (excCode (t.old 1) = 8 → ¬(1 ≤ (t.old 7).toNat ∧ (t.old 7).toNat ≤ 10))

/-- The caller's state when a system call returns 0. -/
def returned (t : Trap) : StateT :=
  ((⟨t.old, false⟩ : StateT).setPcEpc (t.old 3 + 4)).setRegV0 0

instance (t : Trap) (n : Nat) : Decidable (t.Calls n) := by unfold Calls; infer_instance

instance (t : Trap) : Decidable t.PassesUp := by unfold PassesUp; infer_instance

end Trap

inductive Event
  | exception (t : Trap)
  /-- The code after `WAIT` goes back to the test of the scheduler's loop. -/
  | wake

/-- The interrupted code goes on. -/
def Exit.Returns : Exit → Prop
  | .ldst | .ldcxt _ _ _ => True
  | _ => False

namespace Machine
variable (L : Layout)

/-- Where control goes when the kernel is left, when the exception interrupted
mode `m`. -/
def resume (m : Mode) (pcbs : Pcb → PcbT) : Exit → Mode
  | .ldst | .ldcxt _ _ _ => m
  | .dispatch p => if (pcbs p).pS.inWait then .waiting else .running p
  | .wait => .waiting
  | .halt => .halted
  | .panic => .panicked
  | .fault => .stuck
  | .hang => .hung

/-- Run kernel code from state `s`, entered from mode `m`. -/
def enter (m : Mode) (code : K Unit) (s : Kernel) : Machine :=
  match code s with
  | .ok _ s => ⟨s, m⟩
  | .error e s => ⟨s, resume m s.pcbs e⟩

/-- The kernel state in which `exceptionHandler` starts. -/
def trapped (m : Machine) (t : Trap) : Kernel :=
  { m.kernel with
    gOldState := ⟨t.old, decide (m.mode = .waiting)⟩
    mem := t.mem
    bus := t.bus
    hw := t.hw }

def step (m : Machine) : Event → Machine
  | .exception t => enter m.mode (exceptionHandler L) (m.trapped t)
  | .wake => enter m.mode scheduler m.kernel

/-- Which events can happen. Only interrupts are taken in `WAIT`, and a device
changes by itself only in finishing its command. -/
def Enabled (m : Machine) : Event → Prop
  | .exception t =>
    ((∃ p, m.mode = .running p) ∨ m.mode = .waiting ∧ excCode (t.old 1) = 0) ∧
    ∀ d, t.hw d = m.kernel.hw d ∨ m.kernel.hw d = .busy ∧ t.hw d = .done
  | .wake => m.mode = .waiting

/-- The exception `t` makes the kernel terminate process `p`. -/
def Terminates (m : Machine) (t : Trap) (p : Pcb) : Prop :=
  t.Calls 2 ∧ (∃ pid, L.toPcb (t.old 8) = some pid ∧ pid.or m.kernel.gCurrentProcess = some p) ∨
  t.PassesUp ∧ m.kernel.gCurrentProcess = some p ∧ (m.kernel.pcbs p).pSupportStruct = 0

/-- Processes use semaphores outside the kernel's data and terminate themselves
or live processes. -/
def Lawful (m : Machine) : Event → Prop
  | .exception t =>
    (t.Calls 3 ∨ t.Calls 4 → t.old 8 ≠ 0 ∧ ¬L.KernelData (t.old 8)) ∧
    (t.Calls 2 → t.old 8 = 0 ∨ ∃ p, t.old 8 = L.pcb p ∧ p ∉ m.kernel.free)
  | .wake => True

/-- The machine after `main()`. -/
def boot (mem bus : Word → Word) (stck : Nat → Word) : Machine :=
  enter .halted (main L) (.zero mem bus stck)

/-- The machines of the runs from `main()` whose events all satisfy `ok`. -/
inductive Reachable (ok : Machine → Event → Prop) : Machine → Prop
  | boot (mem bus : Word → Word) (stck : Nat → Word) : Reachable ok (boot L mem bus stck)
  | step {m : Machine} {e : Event} : Reachable ok m → m.Enabled e → ok m e →
      Reachable ok (m.step L e)

/-- The runs from `m` whose events all satisfy `ok`. -/
inductive Leads (ok : Machine → Event → Prop) (m : Machine) : Machine → Prop
  | refl : Leads ok m m
  | step {m' : Machine} {e : Event} : Leads ok m m' → m'.Enabled e → ok m' e →
      Leads ok m (m'.step L e)

end Machine

end Pandos
