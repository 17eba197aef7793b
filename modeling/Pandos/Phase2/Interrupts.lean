import Mathlib.Data.Finset.Card
import Mathlib.Data.BitVec
import Pandos.Phase2.CallEffects

/-!
# One interrupt

`interruptHandler` serves one pending line after the other. It is at most seven
calls deep, because each call clears the bit of the line it serves.
-/

namespace Pandos
open Outcome

/-- The bits of the lines `interruptHandler` tests. -/
def lineBits : List Word :=
  [localTimerInt, timerInterrupt, diskInterrupt, flashInterrupt, printInterrupt, termInterrupt]

/-- How many lines are pending. -/
def pending (cause : Word) : Nat := (lineBits.toFinset.filter fun l => cause &&& l ≠ 0).card

/-- The cause register after one pass. -/
def served (cause : Word) : Word :=
  match firstLine cause with
  | some (bit, _) => cause &&& ~~~bit
  | none => cause

section
variable {cause bit : Word} {line : Line}

theorem mem_lineBits (h : firstLine cause = some (bit, line)) :
    bit ∈ lineBits ∧ cause &&& bit ≠ 0 := by
  have hm := List.mem_of_find?_eq_some h
  have hp := List.find?_some h
  refine ⟨?_, by simpa using hp⟩
  have : bit ∈ interruptLines.map (·.1) := List.mem_map_of_mem hm
  exact this

theorem clear_other : ∀ bit ∈ lineBits, ∀ l ∈ lineBits, l ≠ bit → ~~~bit &&& l = l := by
  intro bit hm l hl hne
  simp only [lineBits, List.mem_cons, List.not_mem_nil, or_false] at hm hl
  rcases hm with rfl | rfl | rfl | rfl | rfl | rfl <;>
    rcases hl with rfl | rfl | rfl | rfl | rfl | rfl <;>
    first
    | rfl
    | exact absurd rfl hne

theorem pending_le (cause : Word) : pending cause ≤ 6 :=
  (Finset.card_filter_le _ _).trans (by decide)

theorem pending_clear (h : firstLine cause = some (bit, line)) :
    pending (cause &&& ~~~bit) < pending cause := by
  obtain ⟨hm, hne⟩ := mem_lineBits h
  apply Finset.card_lt_card
  refine Finset.ssubset_iff_of_subset ?_ |>.mpr ⟨bit, by simpa using ⟨hm, hne⟩, ?_⟩
  · intro l hl
    obtain ⟨hl, hp⟩ := Finset.mem_filter.mp hl
    refine Finset.mem_filter.mpr ⟨hl, ?_⟩
    by_cases he : l = bit
    · exact he ▸ hne
    · rwa [BitVec.and_assoc, clear_other bit hm l (List.mem_toFinset.mp hl) he] at hp
  · simp [BitVec.and_assoc]

theorem firstLine_none (h : firstLine cause = none) : cause &&& interruptMask = 0 := by
  have hl : ∀ l ∈ interruptLines, cause &&& l.1 = 0 := by
    intro l hm
    have := List.find?_eq_none.mp h l hm
    simpa using this
  simp only [interruptLines, List.mem_cons, List.not_mem_nil, or_false, forall_eq_or_imp,
    forall_eq] at hl
  obtain ⟨h₁, h₂, h₃, h₄, h₅, h₆⟩ := hl
  simp only [interruptMask, BitVec.and_or_distrib_left, h₁, h₂, h₃, h₄, h₅, h₆]
  rfl

/-- If lines are still pending, one pass has made them fewer. -/
theorem pending_served (h : served cause &&& interruptMask ≠ 0) :
    pending (served cause) < pending cause := by
  unfold served at h ⊢
  cases hf : firstLine cause with
  | some l => exact pending_clear hf
  | none =>
    rw [hf] at h
    exact absurd (firstLine_none hf) h

end

/-- The states in which one interrupt calls `interruptHandler`. -/
inductive Pass (L : Layout) : Kernel → Kernel → Prop
  | first (s : Kernel) : Pass L s s
  | again {s t u : Kernel} : serveLine L s = .ok () t → t.gOldState.cause &&& interruptMask ≠ 0 →
      Pass L t u → Pass L s u

/-- What every pass keeps holds when the interrupt is over. -/
theorem interruptHandler_ends {L : Layout} {I : Kernel → Prop} {E : Exit → Kernel → Prop}
    {fuel : Nat} {s : Kernel} (hI : I s) (hf : pending s.gOldState.cause < fuel)
    (serve : ∀ u, Pass L s u → I u → Ends (serveLine L) u
      (fun _ v => I v ∧ v.gOldState.cause = served u.gOldState.cause) E)
    (done : ∀ u, I u →
      E .ldst { u with gTod := u.stck u.stckReads, stckReads := u.stckReads + 1 }) :
    Ends (interruptHandler L fuel) s (fun _ _ => False) E := by
  induction fuel generalizing s with
  | zero => omega
  | succ fuel ih =>
    have hs := serve s (.first s) hI
    rw [interruptHandler, ends_bind]
    cases hr : serveLine L s with
    | error e t => exact (ends_of_error hr).mpr ((ends_of_error hr).mp hs)
    | ok _ t =>
      obtain ⟨ht, hcause⟩ := (ends_of_ok hr).mp hs
      rw [ends_of_ok hr, ends_bind, ends_get, ends_ite]
      split
      · next hmore =>
        have hlt := pending_served (hcause ▸ hmore)
        rw [ends_bind]
        refine (ih ht ?_ fun u hu => serve u (.again hr hmore hu)).mono ?_ fun _ _ => id
        · rw [hcause]
          omega
        · exact fun _ _ => False.elim
      · exact done t ht

/-- The pass that starts in `s` serves device `d`. -/
def Kernel.Serves (s : Kernel) (d : Dev) : Prop :=
  ∃ bit deviceType, firstLine s.gOldState.cause = some (bit, .device deviceType) ∧
    findDevRegAddr s.bus deviceType ≠ 0 ∧
    resolveDeviceAddress (findDevRegAddr s.bus deviceType) = d.val

theorem Kernel.Serves.of_line {s : Kernel} {N : Nucleus} {d : Dev} {bit : Word} {deviceType : Nat}
    (hs : s.Refines N) (hf : firstLine N.gOldState.cause = some (bit, .device deviceType))
    (hne : findDevRegAddr N.bus deviceType ≠ 0)
    (hres : resolveDeviceAddress (findDevRegAddr N.bus deviceType) = d.val) : s.Serves d := by
  refine ⟨bit, deviceType, ?_, ?_, ?_⟩ <;> rw [hs.globals]
  · exact hf
  · exact hne
  · exact hres

/-- The state in which `interruptHandler` is called first. -/
def Kernel.charged (s : Kernel) : Kernel := final updateProcessTime s

namespace Nucleus

/-- One line is taken back. -/
def clear (N : Nucleus) (bit : Word) : Nucleus :=
  ⟨N.toQueues,
    { N.toGlobals with gOldState := N.gOldState.setCause (N.gOldState.cause &&& ~~~bit) }⟩

end Nucleus

namespace Runs
variable {L : Layout} {N : Nucleus} {E : Exit → Nucleus → Prop} {Q : Unit → Nucleus → Prop}

theorem serveLine (none : firstLine N.gOldState.cause = none → Q () N)
    (line : ∀ bit line, firstLine N.gOldState.cause = some (bit, line) →
      Runs (handleLine L line) (N.clear bit) Q E) : Runs (serveLine L) N Q E := by
  refine Runs.get fun s hs => ?_
  rw [hs.globals]
  dsimp only
  cases hf : firstLine N.gOldState.cause with
  | none => exact Runs.pure (none hf)
  | some l => exact Runs.bind (globals rfl (line l.1 l.2 hf))

/-- The pass serves the device that the registers of the bus tell. -/
theorem serveLine_serves {s : Kernel} {d : Dev} (hs : s.Refines N) (hd : s.Serves d)
    (h : ∀ bit deviceType, firstLine N.gOldState.cause = some (bit, .device deviceType) →
      findDevRegAddr N.bus deviceType ≠ 0 →
      resolveDeviceAddress (findDevRegAddr N.bus deviceType) = d.val →
      Runs (Pandos.serveDevice L d (findDevRegAddr N.bus deviceType)) (N.clear bit) Q E) :
    Runs (Pandos.serveLine L) N Q E := by
  obtain ⟨bit, ty, hf, hne, hres⟩ := hd
  rw [hs.globals] at hf hne hres
  refine serveLine (fun hn => by cases hn.symm.trans hf) fun bit' line hf' => ?_
  obtain ⟨rfl, rfl⟩ := Prod.mk.inj (Option.some.inj (hf.symm.trans hf'))
  refine handleDeviceInt (fun hz => absurd hz hne) (fun hb => ?_) fun d' _ hd' => ?_
  · have hrange : 0 ≤ (d.val : Int) ∧ (d.val : Int) < deviceNumber := by omega
    exact absurd (hres ▸ hrange) hb
  · have : d' = d := Fin.ext (by exact_mod_cast hd'.symm.trans hres)
    exact this ▸ h bit ty hf hne hres

theorem syscallHandler
    (h : Runs (syscall L N.gOldState.regA0 N.gOldState.regA1 N.gOldState.regA2 N.gOldState.regA3) N
      (fun v N' => E .ldst ⟨N'.toQueues,
        { N'.toGlobals with gOldState := N'.gOldState.setRegV0 v }⟩) E) :
    Runs (syscallHandler L) N (fun _ _ => False) E := by
  refine Runs.get fun s hs => ?_
  rw [hs.globals]
  refine Runs.bind (h.mono (fun v N' hv => ?_) fun _ _ => id)
  exact Runs.bind (globals rfl (Runs.leave hv))

end Runs

end Pandos
