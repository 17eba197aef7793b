import Pandos.DeviceRecord
import Pandos.Lib.BinarySem
import Pandos.Scenario

/-!
# Binary semaphores of processes

A log is kept of the calls on a semaphore outside the kernel's data. Whatever
else happens, the log follows the library's binary semaphore.
-/

namespace Pandos
open Intrusive Outcome BinarySem

/-! ## The log -/

/-- What an observer of a semaphore writes down: its value, the completed calls
and the blocked ones. The calls are numbered as they are made, and `released`
are the numbers of those that blocked and have completed since. -/
structure SemLog extends BinarySem.State (Nat × Pcb) where
  made : Nat
  released : List Nat

namespace Machine

/-- The process is back from its call: it executes or is ready. -/
def Returned (m : Machine) (p : Pcb) : Prop := m.mode = .running p ∨ p ∈ m.kernel.ready

instance (m : Machine) (p : Pcb) : Decidable (m.Returned p) := by unfold Returned; infer_instance

/-- The `PASSEREN` or `VERHOGEN` on the semaphore at `a` that the event is. -/
def semCall (a : Word) (m : Machine) : Event → Option (Pcb × Op)
  | .exception t =>
    match m.mode with
    | .running c =>
      if t.Calls 3 ∧ t.old 8 = a then some (c, .down)
      else if t.Calls 4 ∧ t.old 8 = a then some (c, .up)
      else none
    | _ => none
  | .wake => none

/-- Nothing but `PASSEREN` and `VERHOGEN` writes the word at `a`. -/
def SemOnly (L : Layout) (a : Word) (m : Machine) (e : Event) : Prop :=
  (match e with
    | .exception t => t.mem a = m.kernel.mem a
    | .wake => True) ∧
  (m.semCall a e = none → (m.step L e).kernel.mem a = m.kernel.mem a)

end Machine

namespace SemLog

/-- The calls that wait for an answer when call `call` is made. -/
def outstanding (s : SemLog) (call : Option (Pcb × Op)) : List ((Nat × Pcb) × Op) :=
  s.blocked ++ call.toList.map fun c => ((s.made, c.1), c.2)

/-- The log after an event that led to `m` and made call `call`. -/
def observe (a : Word) (s : SemLog) (call : Option (Pcb × Op)) (m : Machine) : SemLog :=
  let back := (s.outstanding call).filter fun b => m.Returned b.1.2
  { value := (m.kernel.mem a).toInt
    downs := s.downs + back.countP fun b => b.2 = .down
    ups := s.ups + back.countP fun b => b.2 = .up
    blocked := (s.outstanding call).filter fun b => b.1.2 ∈ m.kernel.waiters a
    made := s.made + call.toList.length
    released := s.released ++ (s.blocked.filter fun b => m.Returned b.1.2).map (·.1.1) }

end SemLog

/-- Runs from `m₀` with the log of the semaphore at `a`. -/
inductive Watched (L : Layout) (a : Word) (m₀ : Machine) : Machine → SemLog → Prop
  | start : Watched L a m₀ m₀ ⟨⟨(m₀.kernel.mem a).toInt, 0, 0, []⟩, 0, []⟩
  | step {m : Machine} {s : SemLog} {e : Event} : Watched L a m₀ m s → m.Enabled e →
      m.SemOnly L a e → Watched L a m₀ (m.step L e) (s.observe a (m.semCall a e) (m.step L e))

/-! ## What an event does to the semaphore -/

/-- The number of the system call. -/
def opCall : Op → Nat
  | .down => 3
  | .up => 4

theorem syscall_op {L : Layout} {code a1 a2 a3 : Word} {op : Op} (h : code.toNat = opCall op) :
    syscall L code a1 a2 a3 =
      (do semOp L (.ofInt 32 op.free) (.ofInt 32 op.delta) a1; return 0) := by
  cases op with
  | down => exact syscall_passeren h
  | up => exact syscall_verhogen h

namespace Machine
variable {L : Layout} {m : Machine} {N : Nucleus} {t : Trap} {e : Event} {a : Word} {c p : Pcb} {op : Op}

theorem semCall_some (h : m.semCall a e = some (c, op)) :
    ∃ t, e = .exception t ∧ m.mode = .running c ∧ t.Calls (opCall op) ∧ t.old 8 = a := by
  cases e with
  | wake => cases h
  | exception t =>
    simp only [semCall] at h
    split at h
    · next c' hm =>
      split_ifs at h with h3 h4
      · obtain ⟨rfl, rfl⟩ := Prod.mk.inj (Option.some.inj h)
        exact ⟨t, rfl, hm, h3⟩
      · obtain ⟨rfl, rfl⟩ := Prod.mk.inj (Option.some.inj h)
        exact ⟨t, rfl, hm, h4⟩
    · cases h

theorem semCall_none (he : m.Enabled (.exception t)) (h : m.semCall a (.exception t) = none)
    (hc : t.Calls 3 ∨ t.Calls 4) : t.old 8 ≠ a := by
  intro ha
  obtain ⟨c, hm⟩ : ∃ c, m.mode = .running c := by
    refine he.1.resolve_right fun hw => ?_
    rcases hc with hc | hc <;> cases hw.2.symm.trans hc.1
  simp only [semCall, hm] at h
  rcases hc with hc | hc
  · rw [if_pos ⟨hc, ha⟩] at h
    cases h
  · have h3 : ¬(t.Calls 3 ∧ t.old 8 = a) := fun h3 => by cases h3.1.2.symm.trans hc.2
    rw [if_neg h3, if_pos ⟨hc, ha⟩] at h
    cases h

/-- Anything but an operation on the semaphore at `a`. -/
def offSem (a : Word) : Scope := { anyScope with sem := fun b => b ≠ a }

theorem offSem_writes {b : Word} : (offSem a).Writes L b := fun w _ => by
  cases w <;> trivial

theorem offSem_covers (hS : m.Sound N) (he : m.Enabled (.exception t)) (ha : ¬L.KernelData a)
    (h : m.semCall a (.exception t) = none) : (offSem a).Covers L (m.trapped t) := by
  have hne : ∀ w, L.addr w ≠ a := fun w => (L.user_ne_addr ha w).symm
  apply hS.covers he
  · refine fun _ => ⟨trivial, fun u _ => ⟨fun _ _ => ⟨trivial, hne _⟩, fun _ _ => trivial, ?_,
      fun _ _ _ _ => trivial, fun _ _ _ _ _ => trivial⟩⟩
    exact fun d _ => ⟨trivial, hne _, hne _⟩
  · exact fun _ => trivial
  · exact fun hc _ => ⟨semCall_none he h hc, offSem_writes⟩
  · exact fun _ => ⟨trivial, hne _⟩
  · exact fun _ d _ => ⟨trivial, hne _, hne _⟩
  · exact fun _ _ _ _ => trivial
  · exact fun _ _ _ _ => trivial

/-- Other events take at most terminated processes off the queue. -/
theorem Sound.uncalled (hS : m.Sound N) (he : m.Enabled e) (ha : ¬L.KernelData a)
    (h : m.semCall a e = none) : ∃ M, (m.step L e).Sound M ∧
      ∃ S : List Pcb, (∀ q ∈ S, q ∈ M.free) ∧ M.waiters a = (N.waiters a).filter (· ∉ S) := by
  obtain ⟨M, hM⟩ := hS.step he (L := L)
  refine ⟨M, hM, ?_⟩
  cases e with
  | wake =>
    obtain ⟨s', hstep, hs', hN⟩ := step_wake (L := L) hS.refines
    rw [hstep] at hM
    obtain rfl := hM.refines.unique hs'
    exact ⟨[], by simp, by simp [Nucleus.waiters_schedule hN]⟩
  | exception t =>
    obtain ⟨e, s', M', hstep, hM', hend⟩ := step_exception hS.refines (offSem_covers hS he ha h)
    rw [hstep] at hM
    obtain rfl := hM.refines.unique hM'
    exact hend.waiters (fun hb => hb rfl)

/-- How a call on the semaphore at `a`, with value `v` and queue `q`, ends. -/
inductive Called (a : Word) (c : Pcb) (op : Op) (v : Word) (q : List Pcb) (M : Nucleus) : Exit → Prop
  | change : v = .ofInt 32 op.free → q = [] → M.waiters a = [] →
      M.mem a = v + .ofInt 32 op.delta → Called a c op v q M .ldst
  | release {p : Pcb} {l : List Pcb} : v = .ofInt 32 op.free → q = p :: l → M.waiters a = l →
      M.mem a = v → p ∈ M.ready → Called a c op v q M .ldst
  | block {e : Exit} : v ≠ .ofInt 32 op.free → M.waiters a = q ++ [c] → M.mem a = v →
      Called a c op v q M e

theorem Sound.called (hS : m.Sound N) (hm : m.mode = .running c) (hc : t.Calls (opCall op))
    (ha : t.old 8 = a) (h0 : a ≠ 0) (hu : ¬L.KernelData a) :
    ∃ e s' M, m.step L (.exception t) = ⟨s', resume m.mode s'.pcbs e⟩ ∧ s'.Refines M ∧
      Called a c op (t.mem a) (N.waiters a) M e := by
  obtain ⟨hcur, -⟩ := hS.running c hm
  have h8 : excCode (t.old 1) = 8 := hc.1
  apply step_syscall hS.refines h8
  rw [syscall_op hc.2, ha]
  have hload : (N.trapped t (decide (m.mode = .waiting))).skip.load L a = t.mem a :=
    Globals.load_user hu
  refine Runs.sound fun hv => Runs.bind (Runs.semOp h0 ?_ ?_ ?_ ?_)
  · intro hl p l hw
    rw [hload] at hl
    apply Runs.pure
    apply Called.release hl hw
    · exact (Nucleus.waiters_wakeUp hv.placed hw).trans (if_pos rfl)
    · rfl
    · exact (Nucleus.mem_wakeUp _ .ready p).mpr (.inr ⟨rfl, rfl⟩)
  · intro hl hw
    rw [hload] at hl ⊢
    apply Runs.pure
    apply Called.change hl hw
    · exact hw
    show (Globals.store L _ a _).mem a = _
    rw [Globals.store_user hu]
    exact Function.update_self _ _ _
  · intro hl c' hc' hp
    rw [hload] at hl
    obtain rfl : c = c' := Option.some.inj (hcur.symm.trans hc')
    apply Called.block hl
    · rw [Nucleus.waiters_schedule hp, Nucleus.waiters_suspend hv hc', if_pos rfl]
      rfl
    · rw [Nucleus.globals_schedule]
      rfl
  · intro _ hn
    cases hcur.symm.trans hn

theorem Sound.not_returned (hS : m.Sound N) (hp : p ∈ N.waiters a) : ¬m.Returned p := by
  rintro (hm | hr)
  · exact (hS.refines.valid.waiter_apart hp).2 (hS.running p hm).1
  · rw [hS.refines.ready] at hr
    cases hS.refines.placed.apart.unique (show p ∈ N.queue .ready from hr) hp

theorem Sound.gone_not_returned (hS : m.Sound N) (hp : p ∈ N.free) : ¬m.Returned p := by
  rintro (hm | hr)
  · exact (hS.running p hm).2 hp
  · rw [hS.refines.ready] at hr
    cases hS.refines.placed.apart.unique (show p ∈ N.queue .ready from hr) hp

end Machine

/-! ## The log follows the semaphore -/

namespace SemLog
variable {L : Layout} {s : SemLog} {m : Machine} {N M : Nucleus} {a v : Word} {c p : Pcb} {op : Op}
  {q S : List Pcb}

/-- The log is up to date. -/
structure Matches (s : SemLog) (v : Word) (q : List Pcb) : Prop where
  value : s.value = v.toInt
  callers : s.blocked.map (·.1.2) = q

/-- Blocked calls complete in the order in which they were made. -/
structure Ordered (s : SemLog) : Prop where
  increasing : (s.released ++ s.blocked.map (·.1.1)).Pairwise (· < ·)
  made : ∀ n ∈ s.released ++ s.blocked.map (·.1.1), n < s.made

theorem caller_mem (hs : s.Matches v q) {b : (Nat × Pcb) × Op} (hb : b ∈ s.blocked) : b.1.2 ∈ q := by
  rw [← hs.callers]
  exact List.mem_map_of_mem (f := fun b : (Nat × Pcb) × Op => b.1.2) hb

/-- What becomes of the log when the event ends in the nucleus `M`. -/
structure Follows (s s' : SemLog) (a : Word) (M : Nucleus) : Prop where
  matched : s'.Matches (M.mem a) (M.waiters a)
  step : BinarySem.Step s.toState s'.toState
  ordered : s.Ordered → s'.Ordered

/-- Some blocked calls are dropped and none completes. -/
theorem observe_drop (hs : s.Matches v q) (hM : m.Sound M) (hv : M.mem a = v)
    (hfree : ∀ p ∈ S, p ∈ M.free) (hw : M.waiters a = q.filter (· ∉ S)) :
    s.Follows (s.observe a none m) a M := by
  have hnone : s.blocked.filter (fun b => decide (m.Returned b.1.2)) = [] := by
    rw [List.filter_eq_nil_iff]
    intro b hb
    simp only [decide_eq_true_eq]
    by_cases hS : b.1.2 ∈ S
    · exact hM.gone_not_returned (hfree _ hS)
    · apply hM.not_returned (a := a)
      rw [hw]
      exact List.mem_filter.mpr ⟨caller_mem hs hb, by simpa using hS⟩
  have hobs : s.observe a none m = ⟨{ s.toState with
      blocked := s.blocked.filter fun b => decide (b.1.2 ∈ M.waiters a) }, s.made, s.released⟩ := by
    have hval : (m.kernel.mem a).toInt = s.value := by
      rw [hM.refines.globals, hv, hs.value]
    simp [observe, outstanding, hnone, hval, hM.refines.waiters]
  rw [hobs]
  have hsub := (s.blocked.filter_sublist (p := fun b => decide (b.1.2 ∈ M.waiters a))).map (·.1.1)
  constructor
  · refine ⟨by rw [hv]; exact hs.value, ?_⟩
    have hkeep : ∀ b ∈ s.blocked, decide (b.1.2 ∈ M.waiters a) = decide (b.1.2 ∉ S) := by
      intro b hb
      simp [hw, caller_mem hs hb]
    dsimp only
    rw [List.filter_congr hkeep, hw, ← hs.callers, List.filter_map]
    rfl
  · exact .drop fun b : Nat × Pcb => decide (b.2 ∈ M.waiters a)
  · intro ho
    have hsub := hsub.append_left s.released
    exact ⟨ho.increasing.sublist hsub, fun n hn => ho.made n (hsub.subset hn)⟩

theorem toInt_free : (BitVec.ofInt 32 op.free).toInt = op.free := by
  cases op <;> rfl

theorem toInt_step : (BitVec.ofInt 32 op.free + BitVec.ofInt 32 op.delta).toInt = op.free + op.delta := by
  cases op <;> rfl

/-- A call that changes the value. -/
theorem observe_change (hs : s.Matches v []) (hM : m.Sound M) (hv : v = .ofInt 32 op.free)
    (hw : M.waiters a = []) (hm : M.mem a = v + .ofInt 32 op.delta) (hc : m.Returned c) :
    s.Follows (s.observe a (some (c, op)) m) a M := by
  have hnil : s.blocked = [] := List.map_eq_nil_iff.mp hs.callers
  have hval : (m.kernel.mem a).toInt = s.value + op.delta := by
    rw [hM.refines.globals, hm, hs.value, hv, toInt_step, toInt_free]
  have hobs : s.observe a (some (c, op)) m = ⟨State.complete { s.toState with
      value := s.value + op.delta } [((s.made, c), op)], s.made + 1, s.released⟩ := by
    simp [observe, outstanding, State.complete, hnil, hval, hM.refines.waiters, hw, hc]
  rw [hobs]
  constructor
  · refine ⟨?_, by simp [State.complete, hnil, hw]⟩
    rw [← hval, hM.refines.globals]
    rfl
  · exact .change (by rw [hs.value, hv, toInt_free]) hnil
  · intro ho
    have hmade := ho.made
    exact ⟨ho.increasing, fun n hn => (hmade n hn).trans (Nat.lt_succ_self _)⟩

/-- Of calls whose callers all wait, none returned and none is withdrawn. -/
theorem filter_waiting {l : List ((Nat × Pcb) × Op)} (hM : m.Sound M)
    (hl : ∀ x ∈ l, x.1.2 ∈ M.waiters a) :
    l.filter (fun x => decide (m.Returned x.1.2)) = [] ∧
      l.filter (fun x => decide (x.1.2 ∈ M.waiters a)) = l := by
  constructor
  · rw [List.filter_eq_nil_iff]
    intro x hx
    simpa using hM.not_returned (hl x hx)
  · rw [List.filter_eq_self]
    intro x hx
    simpa using hl x hx

/-- A call that completes the oldest blocked call. -/
theorem observe_release (hs : s.Matches v (p :: q)) (hM : m.Sound M) (hv : v = .ofInt 32 op.free)
    (hw : M.waiters a = q) (hm : M.mem a = v) (hc : m.Returned c) (hp : m.Returned p) :
    s.Follows (s.observe a (some (c, op)) m) a M := by
  obtain ⟨b, l, hb, rfl, rfl⟩ := List.map_eq_cons_iff.mp hs.callers
  have away : ∀ {r}, m.Returned r → r ∉ M.waiters a := fun hr hq => hM.not_returned hq hr
  have stay : ∀ x ∈ l, x.1.2 ∈ M.waiters a := by
    intro x hx
    rw [hw]
    exact List.mem_map_of_mem (f := fun b : (Nat × Pcb) × Op => b.1.2) hx
  obtain ⟨hback, hrest⟩ := filter_waiting hM stay
  have hval : (m.kernel.mem a).toInt = s.value := by
    rw [hM.refines.globals, hm, hs.value]
  have hobs : s.observe a (some (c, op)) m = ⟨State.complete { s.toState with blocked := l }
      [b, ((s.made, c), op)], s.made + 1, s.released ++ [b.1.1]⟩ := by
    simp [observe, outstanding, State.complete, hb, hval, hM.refines.waiters, hp, hc, hback, hrest,
      away hp, away hc]
  rw [hobs]
  have happ : s.released ++ [b.1.1] ++ l.map (·.1.1) = s.released ++ s.blocked.map (·.1.1) := by
    rw [hb, List.append_assoc]
    rfl
  constructor
  · exact ⟨by rw [hm]; exact hs.value, hw.symm⟩
  · exact .release (by rw [hs.value, hv, toInt_free]) hb
  · intro ho
    have hmade := ho.made
    rw [← happ] at hmade
    exact ⟨happ.symm ▸ ho.increasing, fun n hn => (hmade n hn).trans (Nat.lt_succ_self _)⟩

/-- A call that blocks. -/
theorem observe_block (hs : s.Matches v q) (hM : m.Sound M) (hv : v ≠ .ofInt 32 op.free)
    (hw : M.waiters a = q ++ [c]) (hm : M.mem a = v) :
    s.Follows (s.observe a (some (c, op)) m) a M := by
  have stay : ∀ x ∈ s.blocked, x.1.2 ∈ M.waiters a := by
    intro x hx
    rw [hw]
    exact List.mem_append_left _ (caller_mem hs hx)
  have hstay : c ∈ M.waiters a := by simp [hw]
  obtain ⟨hback, hrest⟩ := filter_waiting hM stay
  have hval : (m.kernel.mem a).toInt = s.value := by
    rw [hM.refines.globals, hm, hs.value]
  have hobs : s.observe a (some (c, op)) m = ⟨{ s.toState with
      blocked := s.blocked ++ [((s.made, c), op)] }, s.made + 1, s.released⟩ := by
    simp [observe, outstanding, hval, hM.refines.waiters, hback, hrest, hstay, hM.not_returned hstay]
  rw [hobs]
  constructor
  · refine ⟨by rw [hm]; exact hs.value, ?_⟩
    rw [hw, ← hs.callers]
    simp
  · apply BinarySem.Step.block
    intro he
    apply hv
    rw [← BitVec.toInt_inj, toInt_free, ← hs.value]
    exact he
  · intro ho
    have happ : s.released ++ (s.blocked ++ [((s.made, c), op)]).map (·.1.1) =
        s.released ++ s.blocked.map (·.1.1) ++ [s.made] := by simp
    constructor
    · dsimp only
      rw [happ, List.pairwise_append]
      exact ⟨ho.increasing, List.pairwise_singleton _ _, by simpa using ho.made⟩
    · dsimp only
      rw [happ]
      intro n hn
      rcases List.mem_append.mp hn with hn | hn
      · exact (ho.made n hn).trans (Nat.lt_succ_self _)
      · rw [List.mem_singleton.mp hn]
        exact Nat.lt_succ_self _

end SemLog

/-- What is true of the semaphore at `a` and its log. -/
structure BinaryLaw (a : Word) (init : Int) (m : Machine) (s : SemLog) : Prop where
  binary : m.kernel.mem a = 0 ∨ m.kernel.mem a = 1
  balance : (m.kernel.mem a).toInt = init + s.ups - s.downs
  callers : s.blocked.map (·.1.2) = m.kernel.waiters a
  downs : m.kernel.mem a = 0 → ∀ b ∈ s.blocked, b.2 = .down
  ups : m.kernel.mem a = 1 → ∀ b ∈ s.blocked, b.2 = .up
  fifo : (s.released ++ s.blocked.map (·.1.1)).Pairwise (· < ·)

namespace Machine
variable {L : Layout} {ok : Machine → Event → Prop} {m m₀ : Machine} {N : Nucleus} {e : Event}
  {a : Word} {s : SemLog}

/-- One event and what is written down of it. -/
theorem Sound.follows (hS : m.Sound N) (hs : s.Matches (N.mem a) (N.waiters a)) (he : m.Enabled e)
    (hk : m.SemOnly L a e) (h0 : a ≠ 0) (hu : ¬L.KernelData a) :
    ∃ M, (m.step L e).Sound M ∧ s.Follows (s.observe a (m.semCall a e) (m.step L e)) a M := by
  have hmem : m.kernel.mem a = N.mem a := by rw [hS.refines.globals]
  cases hcall : m.semCall a e with
  | none =>
    obtain ⟨M, hM, S, hfree, hw⟩ := hS.uncalled he hu hcall
    refine ⟨M, hM, SemLog.observe_drop hs hM ?_ hfree hw⟩
    have hkeep := hk.2 hcall
    rw [hM.refines.globals] at hkeep
    exact hkeep.trans hmem
  | some call =>
    obtain ⟨c, op⟩ := call
    obtain ⟨t, rfl, hm, hc, ha⟩ := semCall_some hcall
    obtain ⟨M, hM⟩ := hS.step he (L := L)
    obtain ⟨e, s', M', hstep, hM', hend⟩ := hS.called hm hc ha h0 hu
    have hM'' : (m.step L (.exception t)).kernel.Refines M' := hstep ▸ hM'
    obtain rfl := hM.refines.unique hM''
    have hv : t.mem a = N.mem a := hk.1.trans hmem
    rw [hv] at hend
    refine ⟨M, hM, ?_⟩
    have hback : e = .ldst → (m.step L (.exception t)).Returned c := by
      rintro rfl
      rw [hstep]
      exact .inl hm
    cases hend with
    | change hf hq hw hmem =>
      rw [hq] at hs
      exact SemLog.observe_change hs hM hf hw hmem (hback rfl)
    | release hf hq hw hmem hp =>
      rw [hq] at hs
      refine SemLog.observe_release hs hM hf hw hmem (hback rfl) (.inr ?_)
      rwa [hM.refines.ready]
    | block hf hw hmem => exact SemLog.observe_block hs hM hf hw hmem

/-- A semaphore of processes is a binary semaphore. -/
theorem binary_semaphore (h₀ : Reachable L ok m₀) (h0 : a ≠ 0) (hu : ¬L.KernelData a)
    (hinit : m₀.kernel.mem a = 0 ∨ m₀.kernel.mem a = 1) (hn : m₀.kernel.waiters a = [])
    (h : Watched L a m₀ m s) : BinaryLaw a (m₀.kernel.mem a).toInt m s := by
  have hrun : ∃ N, m.Sound N ∧ s.Matches (N.mem a) (N.waiters a) ∧ s.Ordered ∧
      Law (m₀.kernel.mem a).toInt s.toState := by
    induction h with
    | start =>
      obtain ⟨N, hS⟩ := h₀.sound
      refine ⟨N, hS, ⟨by rw [hS.refines.globals], ?_⟩, ⟨List.Pairwise.nil, nofun⟩, Law.start ?_⟩
      · rw [← hS.refines.waiters, hn]
        rfl
      · rcases hinit with h | h <;> rw [h]
        · exact .inl rfl
        · exact .inr rfl
    | step _ he hk ih =>
      obtain ⟨N, hS, hs, ho, hl⟩ := ih
      obtain ⟨M, hM, hf⟩ := hS.follows hs he hk h0 hu
      exact ⟨M, hM, hf.matched, hf.ordered ho, hf.step.law hl⟩
  obtain ⟨N, hS, hs, ho, hl⟩ := hrun
  have hmem : m.kernel.mem a = N.mem a := by rw [hS.refines.globals]
  have hval : s.value = (m.kernel.mem a).toInt := by rw [hmem, hs.value]
  constructor
  · rcases hl.binary with hb | hb <;> rw [hval] at hb
    · exact .inl (BitVec.toInt_inj.mp hb)
    · exact .inr (BitVec.toInt_inj.mp hb)
  · rw [← hval]
    exact hl.balance
  · rw [hs.callers, hS.refines.waiters]
  · intro hz b hb
    exact hl.blocked_down hb (by rw [hval, hz]; rfl)
  · intro hz b hb
    exact hl.blocked_up hb (by rw [hval, hz]; rfl)
  · exact ho.increasing

/-- The first process and its child. -/
def twoProcesses : Machine := sampleBoot.run sampleLayout [call 1 0x20060000 0 0]

/-- A process waits on a semaphore at 0 and its child signals. -/
theorem binary_semaphore_signalled : ∃ s : SemLog, s.released = [0] ∧
    BinaryLaw 0x20060000 0
      (twoProcesses.run sampleLayout [call 3 0x20060000 0 0, call 4 0x20060000 0 0]) s := by
  have hrun : Reachable sampleLayout (Lawful sampleLayout) twoProcesses :=
    .run (.boot _ _ _) (by decide +kernel)
  have hwait : Watched sampleLayout 0x20060000 twoProcesses
      (twoProcesses.run sampleLayout [call 3 0x20060000 0 0]) _ :=
    .step .start (e := call 3 0x20060000 0 0 twoProcesses) (by decide +kernel)
      ⟨rfl, by decide +kernel⟩
  have hsignal : Watched sampleLayout 0x20060000 twoProcesses
      (twoProcesses.run sampleLayout [call 3 0x20060000 0 0, call 4 0x20060000 0 0]) _ :=
    .step hwait (e := call 4 0x20060000 0 0 (twoProcesses.run sampleLayout [call 3 0x20060000 0 0]))
      (by decide +kernel) ⟨rfl, by decide +kernel⟩
  refine ⟨_, ?_, binary_semaphore hrun (by decide) (by decide) (.inl ?_) (by decide +kernel) hsignal⟩
  · decide +kernel
  · decide +kernel

end Machine

end Pandos
