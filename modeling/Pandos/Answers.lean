import Pandos.PassUp

/-!
# What a process learns of itself

At any time in its life `GETSUPPORTPTR` and `GETPROCESSID` tell a process what its
parent made it.
-/

namespace Pandos
open Intrusive Outcome

namespace Machine
variable {L : Layout} {ok : Machine → Event → Prop} {m m' : Machine} {N : Nucleus} {t u : Trap} {c p : Pcb}
  {v : Word}

/-- The system call `u` returns `v` and changes nothing. -/
def Answers (L : Layout) (m : Machine) (u : Trap) (v : Word) : Prop :=
  m.step L (.exception u) =
    ⟨{ m.served u with gOldState := (m.served u).gOldState.setRegV0 v }, m.mode⟩

theorem answers_support (hS : m.Sound N) (hp : m.mode = .running p) (h8 : u.Calls 8) :
    m.Answers L u (m.kernel.pcbs p).pSupportStruct := by
  have hcur : (m.served u).gCurrentProcess = some p := hS.current hp
  refine step_served h8.1 ?_
  unfold syscall
  rw [h8.2]
  exact (bind_of_ok (K.current_run hcur)).trans rfl

theorem answers_self (hS : m.Sound N) (hp : m.mode = .running p) (h9 : u.Calls 9) (h0 : u.old 8 = 0) :
    m.Answers L u (L.pcb p) := by
  have hcur : (m.served u).gCurrentProcess = some p := hS.current hp
  refine step_served h9.1 ?_
  unfold syscall
  rw [h9.2, h0]
  exact (bind_of_ok (K.current_run hcur)).trans rfl

/-- A parent in another namespace is not told. -/
theorem answers_parent (hS : m.Sound N) (hp : m.mode = .running p) (h9 : u.Calls 9) (h0 : u.old 8 ≠ 0)
    (hc : (m.kernel.pcbs p).pParent = some c) : m.Answers L u
      (if (m.kernel.pcbs c).namespaces 0 = (m.kernel.pcbs p).namespaces 0 then L.pcb c else 0) := by
  have hcur : (m.served u).gCurrentProcess = some p := hS.current hp
  refine step_served h9.1 ?_
  unfold syscall
  rw [h9.2]
  refine (bind_of_ok (K.current_run hcur)).trans ((bind_of_ok rfl).trans ?_)
  have hc : ((m.served u).pcbs p).pParent = some c := hc
  rw [if_neg h0, hc]
  have space : ∀ q, (m.served u).getNamespace (some q) pidNs = (m.kernel.pcbs q).namespaces 0 := fun _ => rfl
  rw [space, space]
  by_cases heq : (m.kernel.pcbs c).namespaces 0 = (m.kernel.pcbs p).namespaces 0
  · rw [if_neg (not_not.mpr heq), if_pos heq]
    rfl
  · rw [if_pos heq, if_neg heq]
    rfl

/-- The answers to a process are those that its creation tells, for as long as it
and its parent live. -/
theorem told_who_it_is {l : List Pcb} {ns : Option Nsd} (h : Reachable L ok m) (hc : m.mode = .running c)
    (he : m.Enabled (.exception t)) (h1 : t.Calls 1) (hns : L.toNsd (t.old 10) = some ns)
    (hf : m.kernel.free = p :: l)
    (hrun : Leads L (fun m _ => p ∉ m.kernel.free ∧ c ∉ m.kernel.free) (m.step L (.exception t)) m')
    (hp : m'.mode = .running p) :
    (u.Calls 8 → m'.Answers L u (t.old 9)) ∧
    (u.Calls 9 → u.old 8 = 0 → m'.Answers L u (m.step L (.exception t)).kernel.gOldState.regV0) ∧
    (u.Calls 9 → u.old 8 ≠ 0 → m'.Answers L u
      (if (m.kernel.pcbs c).namespaces 0 = bornInto (m.kernel.pcbs c).namespaces ns 0 then L.pcb c else 0)) := by
  obtain ⟨N, hN⟩ := h.sound
  obtain ⟨M, hM⟩ := hN.step he (L := L)
  obtain ⟨N', hN'⟩ := hrun.sound hM
  have hchild := (run_identity hM (hrun.mono fun _ _ h => h.1)).trans (step_create_identity h hc h1 hns hf)
  have hparent := (run_identity hM (hrun.mono fun _ _ h => h.2)).trans (event_identity hN (hN.alive hc))
  have hsup : (m'.kernel.pcbs p).pSupportStruct = t.old 9 := congrArg (·.2.1) hchild
  have hspace : (m'.kernel.pcbs p).namespaces = bornInto (m.kernel.pcbs c).namespaces ns :=
    congrArg (·.2.2) hchild
  have hold : (m'.kernel.pcbs c).namespaces = (m.kernel.pcbs c).namespaces := congrArg (·.2.2) hparent
  refine ⟨fun h8 => ?_, fun h9 h0 => ?_, fun h9 h0 => ?_⟩
  · exact hsup ▸ answers_support hN' hp h8
  · rw [step_served h1.1 (syscall_create h hc h1 hns hf)]
    exact answers_self hN' hp h9 h0
  · rw [← hspace, ← hold]
    exact answers_parent hN' hp h9 h0 (congrArg (·.1) hchild)

/-- A child asks who its parent is, while the parent is blocked. -/
theorem told_who_it_is_child :
    let t := callTrap 1 0x20060000 0x20070000 0 sampleBoot
    let m' := (sampleBoot.step sampleLayout (.exception t)).run sampleLayout [call 3 0x20080000 0 0]
    m'.Answers sampleLayout (callTrap 9 1 0 0 m') (sampleLayout.pcb 19) := by
  intro t m'
  have hboot : Reachable sampleLayout (Lawful sampleLayout) sampleBoot := .boot _ _ _
  refine (@told_who_it_is sampleLayout (Lawful sampleLayout) sampleBoot m' t (callTrap 9 1 0 0 m') 19 18
    sampleBoot.kernel.free.tail none hboot ?_ ?_ ?_ ?_ ?_ (Leads.refl.run ?_) ?_).2.2 ?_ ?_
  all_goals decide +kernel

end Machine

end Pandos
