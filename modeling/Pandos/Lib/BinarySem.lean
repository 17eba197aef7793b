import Mathlib.Data.List.Basic

/-!
# Binary semaphores

A semaphore on which both operations can block. The caller of an operation that
finds its value releases the oldest blocked caller or changes the value; every
other caller blocks. Blocked callers can be dropped.
-/

namespace BinarySem

inductive Op
  | down
  | up
  deriving DecidableEq

/-- The value at which the operation does not block. -/
def Op.free : Op → Int
  | .down => 1
  | .up => 0

def Op.delta : Op → Int
  | .down => -1
  | .up => 1

/-- The value, how many calls of each operation have completed, and the blocked
calls, oldest first. -/
structure State (α : Type) where
  value : Int
  downs : Nat
  ups : Nat
  blocked : List (α × Op)

variable {α : Type}

/-- These calls have completed. -/
def State.complete (s : State α) (l : List (α × Op)) : State α :=
  { s with
    downs := s.downs + l.countP fun b => b.2 = .down
    ups := s.ups + l.countP fun b => b.2 = .up }

inductive Step : State α → State α → Prop
  | change {s : State α} {x : α} {op : Op} : s.value = op.free → s.blocked = [] →
      Step s (State.complete { s with value := s.value + op.delta } [(x, op)])
  | release {s : State α} {x : α} {op : Op} {b : α × Op} {l : List (α × Op)} :
      s.value = op.free → s.blocked = b :: l →
      Step s (State.complete { s with blocked := l } [b, (x, op)])
  | block {s : State α} {x : α} {op : Op} : s.value ≠ op.free →
      Step s { s with blocked := s.blocked ++ [(x, op)] }
  | drop {s : State α} (keep : α → Bool) :
      Step s { s with blocked := s.blocked.filter fun b => keep b.1 }

/-- The value is binary and accounts for the completed calls, and the blocked
calls are of the operation that the value blocks. -/
structure Law (init : Int) (s : State α) : Prop where
  binary : s.value = 0 ∨ s.value = 1
  balance : s.value = init + s.ups - s.downs
  blocked : ∀ b ∈ s.blocked, s.value ≠ b.2.free

theorem Law.start {init : Int} (hi : init = 0 ∨ init = 1) :
    Law init (⟨init, 0, 0, []⟩ : State α) := by
  refine ⟨hi, ?_, nofun⟩
  simp

theorem Step.law {init : Int} {s t : State α} (h : Step s t) (hs : Law init s) : Law init t := by
  obtain ⟨hbin, hbal, hblk⟩ := hs
  cases h with
  | @change x op hv hn =>
    refine ⟨?_, ?_, ?_⟩
    · show s.value + op.delta = 0 ∨ s.value + op.delta = 1
      rw [hv]
      cases op <;> simp [Op.free, Op.delta]
    · cases op <;> simp [State.complete, Op.delta] <;> omega
    · intro b hb
      rw [State.complete, hn] at hb
      cases hb
  | @release x op b l hv hb =>
    -- the caller and the one it releases do opposite operations
    have hne : b.2 ≠ op := fun he => hblk b (by simp [hb]) (he ▸ hv)
    refine ⟨hbin, ?_, fun c hc => hblk c (by rw [hb]; exact List.mem_cons_of_mem b hc)⟩
    cases op <;> cases hb2 : b.2 <;> simp_all [State.complete] <;> omega
  | @block x op hv =>
    refine ⟨hbin, hbal, fun b hb => ?_⟩
    rcases List.mem_append.mp hb with hb | hb
    · exact hblk b hb
    · rw [List.mem_singleton.mp hb]
      exact hv
  | drop keep => exact ⟨hbin, hbal, fun b hb => hblk b (List.mem_filter.mp hb).1⟩

/-- Which operation is blocked at which value. -/
theorem Law.blocked_down {init : Int} {s : State α} {b : α × Op} (h : Law init s)
    (hb : b ∈ s.blocked) (hv : s.value = 0) : b.2 = .down := by
  have := h.blocked b hb
  cases hop : b.2 with
  | down => rfl
  | up => simp [hop, Op.free, hv] at this

theorem Law.blocked_up {init : Int} {s : State α} {b : α × Op} (h : Law init s)
    (hb : b ∈ s.blocked) (hv : s.value = 1) : b.2 = .up := by
  have := h.blocked b hb
  cases hop : b.2 with
  | down => simp [hop, Op.free, hv] at this
  | up => rfl

end BinarySem
