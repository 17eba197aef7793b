import Pandos.Reachable

/-!
# The passes of an interrupt

Each call of the handler takes the first pending line. What every pass keeps
holds when the kernel is left.
-/

namespace Pandos
open Intrusive Outcome

def Line.number : Line → Nat
  | .localTimer => 1
  | .sysTimer => 2
  | .device deviceType => deviceType

/-- The lines of a cause register that `interruptHandler` tests, in its order. -/
def pendingLines (cause : Word) : List Line :=
  (interruptLines.filter fun l => cause &&& l.1 ≠ 0).map (·.2)

section
variable {cause bit : Word} {line : Line}

/-- The first pending source, and those that are left when it is taken. -/
theorem filter_of_find? {α : Type} {pend rest : α → Bool} {b : α} {l : List α} (hd : l.Nodup)
    (h : l.find? pend = some b) (hr : ∀ a ∈ l, rest a = true ↔ pend a = true ∧ a ≠ b) :
    l.filter pend = b :: l.filter rest := by
  induction l with
  | nil => cases h
  | cons a l ih =>
    obtain ⟨ha, hd⟩ := List.nodup_cons.mp hd
    have hra := hr a List.mem_cons_self
    have hrl : ∀ c ∈ l, rest c = true ↔ pend c = true ∧ c ≠ b := fun c hc =>
      hr c (List.mem_cons_of_mem a hc)
    cases hp : pend a with
    | true =>
      rw [List.find?_cons_of_pos hp] at h
      obtain rfl := Option.some.inj h
      have hsame : l.filter pend = l.filter rest := by
        apply List.filter_congr
        intro c hc
        have hne : c ≠ a := fun e => ha (e ▸ hc)
        rw [Bool.eq_iff_iff, hrl c hc, and_iff_left hne]
      rw [List.filter_cons_of_pos hp, List.filter_cons_of_neg (by simp [hra]), hsame]
    | false =>
      have hn : ¬rest a = true := fun hm => by simp [hp] at hra; simp [hra] at hm
      rw [List.find?_cons_of_neg (by simp [hp])] at h
      rw [List.filter_cons_of_neg (by simp [hp]), List.filter_cons_of_neg hn]
      exact ih hd h hrl

/-- Clearing the bit of the first pending line leaves the others. -/
theorem interruptLines_pending (h : firstLine cause = some (bit, line)) :
    (interruptLines.filter fun l => cause &&& l.1 ≠ 0) =
      (bit, line) :: interruptLines.filter fun l => cause &&& ~~~bit &&& l.1 ≠ 0 := by
  have hbits : ∀ l ∈ interruptLines, l.1 ∈ lineBits := fun l hl =>
    List.mem_map_of_mem (f := Prod.fst) hl
  have hinj : ∀ l ∈ interruptLines, ∀ k ∈ interruptLines, l.1 = k.1 → l = k := by decide
  have hline := List.mem_of_find?_eq_some h
  refine filter_of_find? (by decide) h fun l hl => ?_
  by_cases he : l = (bit, line)
  · simp [he, BitVec.and_assoc]
  · have hne : l.1 ≠ bit := fun hb => he (hinj l hl _ hline hb)
    rw [BitVec.and_assoc, clear_other bit (hbits _ hline) l.1 (hbits l hl) hne]
    simp [he]

theorem pendingLines_some (h : firstLine cause = some (bit, line)) :
    pendingLines cause = line :: pendingLines (cause &&& ~~~bit) := by
  rw [pendingLines, interruptLines_pending h, List.map_cons]
  rfl

theorem pendingLines_none (h : cause &&& interruptMask = 0) : pendingLines cause = [] := by
  have hmask : ∀ l ∈ interruptLines, interruptMask &&& l.1 = l.1 := by decide
  rw [pendingLines, List.map_eq_nil_iff, List.filter_eq_nil_iff]
  intro l hl
  rw [← hmask l hl, ← BitVec.and_assoc, h]
  simp

theorem pendingLines_increasing (cause : Word) :
    ((pendingLines cause).map Line.number).Pairwise (· < ·) := by
  have hall : (interruptLines.map fun l => l.2.number).Pairwise (· < ·) := by decide
  refine List.Pairwise.sublist ?_ hall
  rw [pendingLines, List.map_map]
  exact List.filter_sublist.map _

end

/-- One pass takes the first line off those that are pending. -/
theorem pendingLines_served (cause : Word) :
    pendingLines cause = ((firstLine cause).map (·.2)).toList ++ pendingLines (served cause) := by
  rw [served]
  cases hf : firstLine cause with
  | none => rfl
  | some l => exact pendingLines_some hf

section
variable {L : Layout} {s t u : Kernel} {N : Nucleus}

theorem serveLine_ok (hs : s.Refines N) (h : serveLine L s = .ok () t) :
    ∃ M, t.Refines M ∧ t.gOldState.cause = served s.gOldState.cause := by
  obtain ⟨M, hM, -, hc⟩ := (ends_of_ok h).mp (serveLine_moves hs (anyScope_allows s) s hs)
  exact ⟨M, hM, by rw [hM.globals, hc, hs.globals]⟩

/-- What every pass keeps holds in the ones that follow. -/
theorem Pass.keeps {I : Nucleus → Prop} (h : Pass L s u) (hs : s.Refines N) (hI : I N)
    (serve : ∀ t t' M, serveLine L t = .ok () t' → Pass L t' u → t.Refines M → I M →
      ∃ M', t'.Refines M' ∧ I M') : ∃ M, u.Refines M ∧ I M := by
  induction h generalizing N with
  | first => exact ⟨N, hs, hI⟩
  | again hr _ hu ih =>
    obtain ⟨M, hM, hIM⟩ := serve _ _ N hr hu hs hI
    exact ih hM hIM serve

/-- A later pass serves a later line. -/
theorem Pass.line_lt {bit bit' : Word} {line line' : Line} (hs : s.Refines N)
    (hr : serveLine L s = .ok () t) (hu : Pass L t u)
    (hf : firstLine s.gOldState.cause = some (bit, line))
    (hf' : firstLine u.gOldState.cause = some (bit', line')) : line.number < line'.number := by
  have hsuffix : pendingLines u.gOldState.cause <:+ pendingLines t.gOldState.cause := by
    clear hf' hf
    obtain ⟨N', ht, -⟩ := serveLine_ok hs hr
    clear hr
    induction hu generalizing N' with
    | first => exact List.suffix_rfl
    | @again v w u hr _ _ ih =>
      obtain ⟨M, hM, hc⟩ := serveLine_ok ht hr
      apply (ih M hM).trans
      rw [hc, pendingLines_served v.gOldState.cause]
      exact List.suffix_append _ _
  obtain ⟨-, -, hc⟩ := serveLine_ok hs hr
  have hinc := pendingLines_increasing s.gOldState.cause
  have hpend : pendingLines s.gOldState.cause = line :: pendingLines t.gOldState.cause := by
    rw [pendingLines_served, hf, hc]
    rfl
  rw [hpend, List.map_cons, List.pairwise_cons] at hinc
  have hmem : line' ∈ pendingLines u.gOldState.cause := by
    rw [pendingLines_some hf']
    exact List.mem_cons_self
  exact hinc.1 _ (List.mem_map_of_mem (hsuffix.subset hmem))

end

namespace Machine
variable {L : Layout} {m : Machine} {N : Nucleus} {t : Trap}

/-- How an interrupt leaves the kernel, from what every pass keeps. -/
theorem interrupt_keeps {I : Nucleus → Prop} {E : Exit → Nucleus → Prop} (hm : m.kernel.Refines N)
    (h0 : excCode (t.old 1) = 0) (start : I (N.trapped t (decide (m.mode = .waiting))).charge)
    (serve : ∀ u M, Pass L (m.trapped t).charged u → u.Refines M → I M → Ends (serveLine L) u
      (fun _ v => ∃ M', v.Refines M' ∧ I M') fun e v => ∃ M', v.Refines M' ∧ E e M')
    (done : ∀ (u : Kernel) (M : Nucleus), u.Refines M → I M → E .ldst M.restart) :
    ∃ e s' M, m.step L (.exception t) = ⟨s', resume m.mode s'.pcbs e⟩ ∧ s'.Refines M ∧ E e M := by
  obtain ⟨hok, hs⟩ := updateProcessTime_ok (trapped_refines hm t)
  have hcode : excCode (m.trapped t).gOldState.cause = 0 := h0
  have hends : Ends (exceptionHandler L) (m.trapped t) (fun _ _ => False)
      fun e s' => ∃ M, s'.Refines M ∧ E e M := by
    rw [ends_congr (exceptionHandler_interrupt hcode), ends_bind, ends_of_ok hok]
    refine interruptHandler_ends (I := fun u => ∃ M, u.Refines M ∧ I M) ⟨_, hs, start⟩
      (Nat.lt_succ_of_le (pending_le _)) ?_ ?_
    · rintro u hu ⟨M, hM, hI⟩
      have h := serve u M hu hM hI
      cases hr : serveLine L u with
      | error e v => exact (ends_of_error hr).mpr ((ends_of_error hr).mp h)
      | ok _ v =>
        obtain ⟨-, -, hc⟩ := serveLine_ok hM hr
        exact (ends_of_ok hr).mpr ⟨(ends_of_ok hr).mp h, hc⟩
    · rintro u ⟨M, hM, hI⟩
      exact ⟨M.restart, ⟨hM.queued, hM.queues, by rw [hM.globals]; rfl, hM.tree, hM.current⟩,
        done u M hM hI⟩
  obtain ⟨e, s', ⟨M, hM, hE⟩, hstep⟩ := enter_ends (k := m.mode) hends
  exact ⟨e, s', M, hstep, hM, hE⟩

end Machine

end Pandos
