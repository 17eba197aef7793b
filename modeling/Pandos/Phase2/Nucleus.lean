import Pandos.Phase1.Effects
import Pandos.Phase2.Monad

/-!
# The nucleus

The kernel without descriptors and hash: where every process is, the process
tree and the globals. `Refines` ties a kernel to its nucleus, and `Runs` states
what kernel code does in terms of it.
-/

namespace Pandos
open Intrusive Outcome

/-- What the queue operations and `p_semAdd` agree on. -/
structure Queues.Placed (q : Queues) : Prop where
  apart : q.queue.Apart
  waiting : ∀ a p, p ∈ q.waiters a ↔ a ≠ 0 ∧ (q.pcbs p).pSemAdd = a

namespace Queues.Placed
variable {q : Queues} {p : Pcb} {a : Word}

theorem semAdd_of_place (h : q.Placed) {k : Place} (hk : ∀ a, k ≠ .sem a) (hp : p ∈ q.queue k) :
    (q.pcbs p).pSemAdd = 0 := by
  by_contra hne
  have hw : p ∈ q.waiters (q.pcbs p).pSemAdd := (h.waiting _ p).mpr ⟨hne, rfl⟩
  exact hk _ (h.apart.unique hp hw)

theorem semAdd_of_ready (h : q.Placed) (hp : p ∈ q.ready) : (q.pcbs p).pSemAdd = 0 :=
  h.semAdd_of_place (by simp) hp

theorem semAdd_of_free (h : q.Placed) (hp : p ∈ q.free) : (q.pcbs p).pSemAdd = 0 :=
  h.semAdd_of_place (by simp) hp

theorem not_waiting (h : q.Placed) (hp : (q.pcbs p).pSemAdd = 0) : p ∉ q.waiters a := by
  intro hm
  obtain ⟨ha, he⟩ := (h.waiting a p).mp hm
  exact ha (he.symm.trans hp)

end Queues.Placed

theorem Tables.Queued.queues_placed {t : Tables} (h : t.Queued) : t.queues.Placed :=
  ⟨h.queue_apart, fun _ _ => h.mem_waiters⟩

/-- Child lists are disjoint, point back to the parent and hold no free pcb. -/
structure Queues.Tree (q : Queues) : Prop where
  apart : q.pChild.Apart
  parent : ∀ p c, c ∈ q.pChild p → (q.pcbs c).pParent = some p
  liveParent : ∀ p c, c ∈ q.pChild p → p ∉ q.free
  liveChild : ∀ p c, c ∈ q.pChild p → c ∉ q.free

structure Nucleus extends Queues, Globals

theorem Nucleus.eq_of {N M : Nucleus} (hq : N.toQueues = M.toQueues)
    (hg : N.toGlobals = M.toGlobals) : N = M := by
  cases N
  cases M
  simp_all

/-- What phase 2 sees of a kernel. -/
def Kernel.nucleus (s : Kernel) : Nucleus := ⟨s.toTables.queues, s.toGlobals⟩

/-- `g_current_process` is neither ready nor blocked. -/
def Nucleus.Current (N : Nucleus) : Prop :=
  ∀ c, N.gCurrentProcess = some c → c ∉ N.ready ∧ (N.pcbs c).pSemAdd = 0

/-- What the kernel keeps. -/
structure Nucleus.Valid (N : Nucleus) : Prop where
  placed : N.Placed
  tree : N.Tree
  current : N.Current

/-- `N` is the nucleus of `s`, and `s` is consistent. -/
structure Kernel.Refines (s : Kernel) (N : Nucleus) : Prop where
  queued : s.toTables.Queued
  queues : s.toTables.queues = N.toQueues
  globals : s.toGlobals = N.toGlobals
  tree : N.Tree
  current : N.Current

namespace Kernel.Refines
variable {s : Kernel} {N : Nucleus}

theorem placed (h : s.Refines N) : N.Placed := h.queues ▸ h.queued.queues_placed

theorem valid (h : s.Refines N) : N.Valid := ⟨h.placed, h.tree, h.current⟩

theorem pcbs (h : s.Refines N) : s.pcbs = N.pcbs := congrArg Queues.pcbs h.queues

theorem pChild (h : s.Refines N) : s.pChild = N.pChild := congrArg Queues.pChild h.queues

theorem free (h : s.Refines N) : s.free = N.free :=
  congrFun (congrArg Queues.queue h.queues) Place.free

theorem ready (h : s.Refines N) : s.ready = N.ready :=
  congrFun (congrArg Queues.queue h.queues) Place.ready

theorem waiters (h : s.Refines N) (a : Word) : s.waiters a = N.waiters a :=
  congrFun (congrArg Queues.queue h.queues) (Place.sem a)

theorem nucleus_eq (h : s.Refines N) : s.nucleus = N := Nucleus.eq_of h.queues h.globals

/-- A kernel has one nucleus. -/
theorem unique {N' : Nucleus} (h : s.Refines N) (h' : s.Refines N') : N = N' :=
  h.nucleus_eq.symm.trans h'.nucleus_eq

/-- Only the globals change. -/
theorem withGlobals (h : s.Refines N) {g : Globals}
    (hc : Nucleus.Current ⟨N.toQueues, g⟩) :
    ({ s with toGlobals := g } : Kernel).Refines ⟨N.toQueues, g⟩ :=
  ⟨h.queued, h.queues, rfl, h.tree, hc⟩

/-- Only the tables change. -/
theorem withTables (h : s.Refines N) {t : Tables} {q : Queues} (hq : t.Queued) (he : t.queues = q)
    (ht : q.Tree) (hc : Nucleus.Current ⟨q, N.toGlobals⟩) :
    ({ s with toTables := t } : Kernel).Refines ⟨q, N.toGlobals⟩ :=
  ⟨hq, he, h.globals, ht, hc⟩

end Kernel.Refines

/-! ## What keeps the tree -/

namespace Queues.Tree
variable {q : Queues} {p c : Pcb}

/-- Processes can move among the queues unless they become free. -/
theorem move {r : Queues} (h : q.Tree) (hc : r.pChild = q.pChild)
    (hp : ∀ p, (r.pcbs p).pParent = (q.pcbs p).pParent) (hf : ∀ p, p ∈ r.free → p ∈ q.free) :
    r.Tree where
  apart := hc ▸ h.apart
  parent p c hm := (hp c).trans (h.parent p c (hc ▸ hm))
  liveParent p c hm hp := h.liveParent p c (hc ▸ hm) (hf p hp)
  liveChild p c hm hp := h.liveChild p c (hc ▸ hm) (hf c hp)

theorem modPcb (h : q.Tree) {f : PcbT → PcbT} (hf : (f (q.pcbs p)).pParent = (q.pcbs p).pParent) :
    (q.modPcb p f).Tree := by
  refine h.move rfl (fun c => ?_) fun _ => id
  by_cases hc : c = p
  · subst hc
    simpa [Queues.modPcb] using hf
  · simp [Queues.modPcb, hc]

theorem unlink (h : q.Tree) (p : Pcb) : (q.unlink p).Tree :=
  h.move rfl (fun _ => rfl) fun _ hm => (Lists.mem_unlink.mp hm).1

theorem wake (h : q.Tree) (p : Pcb) : (q.wake p).Tree :=
  Tree.unlink (h.modPcb rfl) p

theorem moveLast (h : q.Tree) {k : Place} (hk : k ≠ .free) (p : Pcb) : (q.moveLast k p).Tree := by
  refine h.move rfl (fun _ => rfl) fun c hm => ?_
  rw [Queues.free, Queues.queue_moveLast, if_neg (fun e => hk e.symm)] at hm
  exact (Lists.mem_unlink.mp hm).1

theorem block (h : q.Tree) (a : Word) (p : Pcb) : (q.block a p).Tree :=
  Tree.moveLast (h.modPcb rfl) (by simp) p

theorem orphan (h : q.Tree) (c : Pcb) : (q.orphan c).Tree where
  apart := h.apart.unlink c
  parent p d hm := h.parent p d (Lists.mem_unlink.mp hm).1
  liveParent p d hm := h.liveParent p d (Lists.mem_unlink.mp hm).1
  liveChild p d hm := h.liveChild p d (Lists.mem_unlink.mp hm).1

/-- A childless orphan can be freed. -/
theorem release (h : q.Tree) (hp : ∀ d, p ∉ q.pChild d) (hn : q.pChild p = []) :
    (q.moveFirst .free p).Tree where
  apart := h.apart
  parent := h.parent
  liveParent d c hm hd := by
    rw [Queues.free, Queues.queue_moveFirst, if_pos rfl] at hd
    cases hd with
    | head =>
      rw [show (q.moveFirst .free p).pChild = q.pChild from rfl, hn] at hm
      cases hm
    | tail _ hd => exact h.liveParent d c hm (Lists.mem_unlink.mp hd).1
  liveChild d c hm hd := by
    rw [Queues.free, Queues.queue_moveFirst, if_pos rfl] at hd
    cases hd with
    | head => exact hp d hm
    | tail _ hd => exact h.liveChild d c hm (Lists.mem_unlink.mp hd).1

theorem no_child_of_free (h : q.Tree) (hp : p ∈ q.free) : q.pChild p = [] := by
  apply List.eq_nil_iff_forall_not_mem.mpr
  intro c hc
  exact h.liveParent p c hc hp

theorem no_parent_of_free (h : q.Tree) (hp : p ∈ q.free) (d : Pcb) : p ∉ q.pChild d :=
  fun hm => h.liveChild d p hm hp

theorem alloc (h : q.Tree) (hp : p ∈ q.free) : (q.alloc p).Tree := by
  have hc : (q.alloc p).pChild = q.pChild := by
    rw [Queues.alloc, ← h.no_child_of_free hp]
    exact Function.update_eq_self p q.pChild
  refine ⟨hc ▸ h.apart, fun d c hm => ?_, fun d c hm hd => ?_, fun d c hm hd => ?_⟩ <;> rw [hc] at hm
  · have hne : c ≠ p := fun e => h.no_parent_of_free hp d (e ▸ hm)
    simpa [Queues.alloc, Queues.modPcb, Queues.unlink, hne] using h.parent d c hm
  · exact h.liveParent d c hm (Lists.mem_unlink.mp hd).1
  · exact h.liveChild d c hm (Lists.mem_unlink.mp hd).1

theorem insertChild (h : q.Tree) (hp : p ∉ q.free) (hc : c ∉ q.free) : (q.insertChild p c).Tree where
  apart := (h.apart.unlink c).append fun _ => by simp
  parent d e hm := by
    rcases Lists.mem_append.mp hm with hm | ⟨rfl, rfl⟩
    · obtain ⟨hm, hne⟩ := Lists.mem_unlink.mp hm
      simpa [Queues.insertChild, Queues.modPcb, hne] using h.parent d e hm
    · simp [Queues.insertChild, Queues.modPcb]
  liveParent d e hm := by
    rcases Lists.mem_append.mp hm with hm | ⟨rfl, rfl⟩
    · exact h.liveParent d e (Lists.mem_unlink.mp hm).1
    · exact hp
  liveChild d e hm := by
    rcases Lists.mem_append.mp hm with hm | ⟨rfl, rfl⟩
    · exact h.liveChild d e (Lists.mem_unlink.mp hm).1
    · exact hc

end Queues.Tree

/-! ## Running kernel code -/

/-- From every kernel with nucleus `N`, `x` returns in a kernel with a nucleus
that satisfies `Q` or leaves in one that satisfies `E`. -/
def Runs {α : Type} (x : K α) (N : Nucleus) (Q : α → Nucleus → Prop) (E : Exit → Nucleus → Prop) :
    Prop :=
  ∀ s : Kernel, s.Refines N →
    Ends x s (fun a s' => ∃ N', s'.Refines N' ∧ Q a N') fun e s' => ∃ N', s'.Refines N' ∧ E e N'

namespace Runs
variable {α β : Type} {N : Nucleus} {E : Exit → Nucleus → Prop} {x : K α} {Q : α → Nucleus → Prop}

protected theorem pure {a : α} (h : Q a N) : Runs (pure a) N Q E := fun _ hs =>
  ends_pure.mpr ⟨N, hs, h⟩

protected theorem leave {e : Exit} (h : E e N) : Runs (K.leave e : K α) N Q E := fun _ hs =>
  ends_throw.mpr ⟨N, hs, h⟩

protected theorem bind {f : α → K β} {Q : β → Nucleus → Prop}
    (h : Runs x N (fun a N' => Runs (f a) N' Q E) E) : Runs (x >>= f) N Q E := by
  intro s hs
  rw [ends_bind]
  refine (h s hs).mono ?_ fun _ _ => id
  rintro a t ⟨N', ht, hf⟩
  exact hf t ht

protected theorem mono {Q' : α → Nucleus → Prop} {E' : Exit → Nucleus → Prop} (h : Runs x N Q E)
    (hq : ∀ a N, Q a N → Q' a N) (he : ∀ e N, E e N → E' e N) : Runs x N Q' E' := by
  intro s hs
  apply (h s hs).mono
  · rintro a t ⟨N', ht, hf⟩
    exact ⟨N', ht, hq a N' hf⟩
  · rintro e t ⟨N', ht, hf⟩
    exact ⟨N', ht, he e N' hf⟩

/-- Code that does not return leaves the kernel. -/
theorem leaves (h : Runs x N (fun _ _ => False) E) {s : Kernel} (hs : s.Refines N) :
    Ends x s (fun _ _ => False) fun e s' => ∃ N', s'.Refines N' ∧ E e N' :=
  (h s hs).mono (fun _ _ ⟨_, _, hf⟩ => hf) fun _ _ => id

/-- The code may read the kernel. -/
protected theorem get {f : Kernel → K α} (h : ∀ s, s.Refines N → Runs (f s) N Q E) :
    Runs (get >>= f) N Q E := by
  intro s hs
  rw [ends_bind, ends_get]
  exact h s hs s hs

/-- What is known of every nucleus. -/
theorem sound (h : N.Valid → Runs x N Q E) : Runs x N Q E := fun s hs => h hs.valid s hs

/-- The code keeps what is known of every nucleus. -/
theorem keeps_valid (h : Runs x N Q E) :
    Runs x N (fun a M => M.Valid ∧ Q a M) fun e M => M.Valid ∧ E e M := by
  intro s hs
  apply (h s hs).mono
  · rintro a t ⟨N', ht, hq⟩
    exact ⟨N', ht, ht.valid, hq⟩
  · rintro e t ⟨N', ht, he⟩
    exact ⟨N', ht, ht.valid, he⟩

/-- What two rules say of the same code. -/
protected theorem and {Q' : α → Nucleus → Prop} {E' : Exit → Nucleus → Prop} (h : Runs x N Q E)
    (h' : Runs x N Q' E') :
    Runs x N (fun a M => Q a M ∧ Q' a M) fun e M => E e M ∧ E' e M := by
  intro s hs
  have hq := h s hs
  have hq' := h' s hs
  unfold Ends at hq hq' ⊢
  cases hr : x s with
  | ok a t =>
    rw [hr] at hq hq'
    obtain ⟨M, hM, hQ⟩ := hq
    obtain ⟨M', hM', hQ'⟩ := hq'
    obtain rfl := hM.unique hM'
    exact ⟨M, hM, hQ, hQ'⟩
  | error e t =>
    rw [hr] at hq hq'
    obtain ⟨M, hM, hE⟩ := hq
    obtain ⟨M', hM', hE'⟩ := hq'
    obtain rfl := hM.unique hM'
    exact ⟨M, hM, hE, hE'⟩

/-- What holds however the code ends. -/
protected theorem final {P : Nucleus → Prop} (h : Runs x N (fun _ => P) fun _ => P) {s : Kernel}
    (hs : s.Refines N) : P (final x s).nucleus := by
  have hends : Ends x s (fun _ t => P t.nucleus) fun _ t => P t.nucleus := by
    apply (h s hs).mono
    · rintro a t ⟨M, hM, hP⟩
      exact hM.nucleus_eq.symm ▸ hP
    · rintro e t ⟨M, hM, hP⟩
      exact hM.nucleus_eq.symm ▸ hP
  exact final_of_ends (P := fun t : Kernel => P t.nucleus) hends

protected theorem ite {p : Prop} [Decidable p] {y : K α} (ht : p → Runs x N Q E)
    (he : ¬p → Runs y N Q E) : Runs (if p then x else y) N Q E := by
  split
  · next h => exact ht h
  · next h => exact he h

theorem setGlobals {f : Globals → Globals} {Q : Unit → Nucleus → Prop}
    (hc : Nucleus.Current ⟨N.toQueues, f N.toGlobals⟩)
    (h : Q () ⟨N.toQueues, f N.toGlobals⟩) : Runs (K.globals f) N Q E := by
  intro s hs
  refine ends_modify.mpr ⟨_, ?_, h⟩
  rw [hs.globals]
  exact hs.withGlobals hc

theorem globals {f : Globals → Globals} {Q : Unit → Nucleus → Prop}
    (hc : (f N.toGlobals).gCurrentProcess = N.gCurrentProcess)
    (h : Q () ⟨N.toQueues, f N.toGlobals⟩) : Runs (K.globals f) N Q E :=
  sound fun ⟨_, _, hcur⟩ => setGlobals (fun c hp => hcur c (hc.symm.trans hp)) h

theorem stck {Q : Word → Nucleus → Prop}
    (h : Q (N.stck N.stckReads) ⟨N.toQueues, { N.toGlobals with stckReads := N.stckReads + 1 }⟩) :
    Runs K.stck N Q E := by
  intro s hs
  have hst : s.stck s.stckReads = N.stck N.stckReads := by rw [hs.globals]
  refine ⟨⟨N.toQueues, { N.toGlobals with stckReads := N.stckReads + 1 }⟩, ⟨hs.queued, hs.queues, ?_,
    hs.tree, hs.current⟩, hst ▸ h⟩
  simp only [hs.globals]

/-- The code changes only the tables. -/
theorem tables {f : Tables → Tables} {q : Queues} {Q : Unit → Nucleus → Prop}
    (hf : ∀ t : Tables, t.Queued → t.queues = N.toQueues → (f t).Queued ∧ (f t).queues = q)
    (ht : q.Tree) (hc : Nucleus.Current ⟨q, N.toGlobals⟩)
    (h : Q () ⟨q, N.toGlobals⟩) : Runs (K.tables f) N Q E := by
  intro s hs
  obtain ⟨hq, he⟩ := hf _ hs.queued hs.queues
  exact ends_modify.mpr ⟨_, hs.withTables hq he ht hc, h⟩

theorem fromTables {f : Tables → α × Tables} {a : α} {q : Queues}
    (hf : ∀ t : Tables, t.Queued → t.queues = N.toQueues →
      (f t).1 = a ∧ (f t).2.Queued ∧ (f t).2.queues = q)
    (ht : q.Tree) (hc : Nucleus.Current ⟨q, N.toGlobals⟩)
    (h : Q a ⟨q, N.toGlobals⟩) : Runs (K.fromTables f) N Q E := by
  intro s hs
  obtain ⟨ha, hq, he⟩ := hf _ hs.queued hs.queues
  exact ⟨_, hs.withTables hq he ht hc, ha ▸ h⟩

theorem deref {o : Option Pcb} {Q : Pcb → Nucleus → Prop} (h : ∀ p, o = some p → Q p N)
    (hn : o = none → E .fault N) : Runs (K.deref o) N Q E := by
  cases o with
  | some p => exact Runs.pure (h p rfl)
  | none => exact Runs.leave (hn rfl)

theorem current {Q : Pcb → Nucleus → Prop} (h : ∀ p, N.gCurrentProcess = some p → Q p N)
    (hn : N.gCurrentProcess = none → E .fault N) : Runs K.current N Q E := by
  refine Runs.get fun s hs => ?_
  rw [hs.globals]
  exact deref h hn

theorem device {n : Int} {Q : Dev → Nucleus → Prop} (h : ∀ d : Dev, n = d.val → Q d N)
    (hn : ¬(0 ≤ n ∧ n < deviceNumber) → E .fault N) : Runs (K.device n) N Q E := by
  unfold K.device
  split
  · next hd => exact Runs.pure (h _ (by simp; omega))
  · next hd => exact Runs.leave (hn hd)

end Runs

end Pandos
