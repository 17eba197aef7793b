import Pandos.Passes
import Pandos.Scenario

/-!
# Interrupt lines

The handler serves the pending lines that it knows, the first one first, and
goes on until none is left. There are devices on another line.
-/

namespace Pandos
open Intrusive Outcome

/-- The line that a call of `interruptHandler` serves, if any. -/
def Kernel.nextLine (s : Kernel) : List Line := ((firstLine s.gOldState.cause).map (·.2)).toList

/-- `interruptHandler`, called in `s`, has served `lines` when it leaves the
kernel in `u`: within `serveLine` through the exit `some e`, or through the
`LDST` at its end. -/
inductive Interrupted (L : Layout) : Kernel → List Line → Option Exit → Kernel → Prop
  | left {s u : Kernel} {e : Exit} : serveLine L s = .error e u →
      Interrupted L s s.nextLine (some e) u
  | last {s t : Kernel} : serveLine L s = .ok () t → t.gOldState.cause &&& interruptMask = 0 →
      Interrupted L s s.nextLine none { t with gTod := t.stck t.stckReads, stckReads := t.stckReads + 1 }
  | again {s t u : Kernel} {lines : List Line} {exit : Option Exit} : serveLine L s = .ok () t →
      t.gOldState.cause &&& interruptMask ≠ 0 → Interrupted L t lines exit u →
      Interrupted L s (s.nextLine ++ lines) exit u

/-! ## Which lines are served -/

section
variable {L : Layout} {s t u : Kernel} {N : Nucleus} {ls : List Line} {exit : Option Exit}

/-- The lines are served in their order, and all of them unless a call leaves
the kernel. -/
theorem Interrupted.lines (h : Interrupted L s ls exit u) (hs : s.Refines N) :
    ls <+: pendingLines s.gOldState.cause ∧
      (exit = none → ls = pendingLines s.gOldState.cause) := by
  induction h generalizing N with
  | @left s u e _ =>
    rw [pendingLines_served]
    exact ⟨List.prefix_append _ _, nofun⟩
  | last h h0 =>
    obtain ⟨-, -, hc⟩ := serveLine_ok hs h
    rw [pendingLines_served, ← hc, pendingLines_none h0, List.append_nil]
    exact ⟨List.prefix_rfl, fun _ => rfl⟩
  | again h _ _ ih =>
    obtain ⟨M, hM, hc⟩ := serveLine_ok hs h
    obtain ⟨hpre, hall⟩ := ih hM
    rw [pendingLines_served, ← hc]
    exact ⟨List.prefix_append_right_inj _ |>.mpr hpre, fun hn => by rw [hall hn]; rfl⟩

end

/-! ## Devices -/

namespace Machine
variable {L : Layout} {ok : Machine → Event → Prop} {m : Machine} {a : Word} {line : Nat} {t : Trap}

end Machine

end Pandos
