import Pandos.Phase1.Semaphore
import Mathlib.Data.Fintype.EquivFin

/-!
# The consistency of the process queues and the semaphore hash

`Queued` is what `process.c` and `semaphore.c` keep between calls. Over it the
hash is the map `waiters` from addresses to queues, and every operation is
described by what it does to that map.
-/

namespace Pandos.Tables
open Intrusive

/-- Every descriptor is either free or in the bucket of its key, and an active
one has a key of its own. -/
structure Hashed (t : Tables) : Prop where
  freeNodup : t.semdFreeH.Nodup
  bucketNodup : ∀ b, (t.semdH b).Nodup
  placed : ∀ b i, i ∈ t.semdH b ↔ i ∉ t.semdFreeH ∧ b = hashMin (t.sKey i)
  keyUnique : ∀ i j, i ∉ t.semdFreeH → j ∉ t.semdFreeH → t.sKey i = t.sKey j → i = j
  keyNe : ∀ i, i ∉ t.semdFreeH → t.sKey i ≠ 0

/-- Moreover every pcb is on at most one list threaded by `p_list`, a descriptor
is active exactly when a process waits on it, and `p_semAdd` tells the queue of
a blocked process. -/
structure Queued (t : Tables) : Prop extends Hashed t where
  apart : t.procQ.Apart
  waiting : ∀ i, t.procQ (.sProcq i) = [] ↔ i ∈ t.semdFreeH
  keyed : ∀ i, ∀ p ∈ t.procQ (.sProcq i), (t.pcbs p).pSemAdd = t.sKey i
  blocked : ∀ p, (t.pcbs p).pSemAdd ≠ 0 → ∃ i, p ∈ t.procQ (.sProcq i)

/-- The processes blocked on the semaphore at `a`, first to be woken first. -/
def waiters (t : Tables) (a : Word) : List Pcb :=
  match t.findSem a with
  | some i => t.procQ (.sProcq i)
  | none => []

variable {t : Tables} {a : Word} {i : Semd} {p : Pcb}

theorem Hashed.findSem_iff (h : Hashed t) : t.findSem a = some i ↔ i ∉ t.semdFreeH ∧ t.sKey i = a := by
  constructor
  · intro hf
    have hk : t.sKey i = a := by simpa using List.find?_some hf
    have hm := (h.placed _ _).mp (List.mem_of_find?_eq_some hf)
    exact ⟨hm.1, hk⟩
  · rintro ⟨hi, rfl⟩
    have hm : i ∈ t.semdH (hashMin (t.sKey i)) := (h.placed _ _).mpr ⟨hi, rfl⟩
    cases hf : t.findSem (t.sKey i) with
    | none =>
      have := List.find?_eq_none.mp hf i hm
      simp at this
    | some j =>
      have hk : t.sKey j = t.sKey i := by simpa using List.find?_some hf
      have hj := (h.placed _ _).mp (List.mem_of_find?_eq_some hf)
      rw [h.keyUnique j i hj.1 hi hk]

theorem Hashed.findSem_none (h : Hashed t) : t.findSem a = none ↔ ∀ i, i ∉ t.semdFreeH → t.sKey i ≠ a := by
  constructor
  · intro hf i hi hk
    have := h.findSem_iff.mpr ⟨hi, hk⟩
    simp [hf] at this
  · intro hn
    cases hf : t.findSem a with
    | none => rfl
    | some i =>
      have := h.findSem_iff.mp hf
      exact absurd this.2 (hn i this.1)

namespace Queued

theorem active_of_mem (h : Queued t) (hp : p ∈ t.procQ (.sProcq i)) : i ∉ t.semdFreeH := by
  intro hi
  rw [(h.waiting i).mpr hi] at hp
  cases hp

/-- A blocked process waits on the semaphore its `p_semAdd` names. -/
theorem mem_waiters (h : Queued t) : p ∈ t.waiters a ↔ a ≠ 0 ∧ (t.pcbs p).pSemAdd = a := by
  unfold waiters
  constructor
  · intro hp
    cases hf : t.findSem a with
    | none => simp [hf] at hp
    | some i =>
      have hi := h.findSem_iff.mp hf
      rw [hf] at hp
      exact ⟨hi.2 ▸ h.keyNe i hi.1, (h.keyed i p hp).trans hi.2⟩
  · rintro ⟨ha, hp⟩
    obtain ⟨i, hi⟩ := h.blocked p (hp ▸ ha)
    have hk := h.keyed i p hi
    rw [h.findSem_iff.mpr ⟨h.active_of_mem hi, hk.symm.trans hp⟩]
    exact hi

theorem waiters_nodup (h : Queued t) (a : Word) : (t.waiters a).Nodup := by
  unfold waiters
  split
  · exact h.apart.nodup _
  · exact List.nodup_nil

theorem semAdd_eq_zero (h : Queued t) :
    (t.pcbs p).pSemAdd = 0 ↔ ∀ i, p ∉ t.procQ (.sProcq i) := by
  constructor
  · intro hp i hi
    exact h.keyNe i (h.active_of_mem hi) ((h.keyed i p hi).symm.trans hp)
  · intro hn
    by_contra hp
    obtain ⟨i, hi⟩ := h.blocked p hp
    exact hn i hi

theorem semAdd_of_ready (h : Queued t) (hp : p ∈ t.ready) : (t.pcbs p).pSemAdd = 0 :=
  h.semAdd_eq_zero.mpr fun _ hi => by cases h.apart.unique hp hi

theorem semAdd_of_free (h : Queued t) (hp : p ∈ t.free) : (t.pcbs p).pSemAdd = 0 :=
  h.semAdd_eq_zero.mpr fun _ hi => by cases h.apart.unique hp hi

theorem not_free_of_ready (h : Queued t) (hp : p ∈ t.ready) : p ∉ t.free := fun hf => by
  cases h.apart.unique hp hf

/-- A queue that is not empty is the queue of an active descriptor. -/
theorem waiters_cons (h : Queued t) {l : List Pcb} (hw : t.waiters a = p :: l) :
    ∃ i, t.findSem a = some i ∧ t.procQ (.sProcq i) = p :: l ∧ i ∉ t.semdFreeH ∧ t.sKey i = a := by
  unfold waiters at hw
  cases hf : t.findSem a with
  | none => simp [hf] at hw
  | some i =>
    have hi := h.findSem_iff.mp hf
    exact ⟨i, rfl, by simpa [hf] using hw, hi⟩

theorem waiters_nil (h : Queued t) : t.waiters a = [] ↔ t.findSem a = none := by
  constructor
  · intro hw
    cases hf : t.findSem a with
    | none => rfl
    | some i =>
      have hi := (h.findSem_iff.mp hf).1
      simp only [waiters, hf] at hw
      exact absurd ((h.waiting i).mp hw) hi
  · intro hf
    simp [waiters, hf]

/-- Blocking cannot run out of descriptors: each active one has a process of
its own waiting, and `p` is none of them. -/
theorem semdFree_ne_nil (h : Queued t) (hp : (t.pcbs p).pSemAdd = 0) : t.semdFreeH ≠ [] := by
  intro hnil
  have hne : ∀ i, ∃ q, q ∈ t.procQ (.sProcq i) := by
    intro i
    apply List.exists_mem_of_ne_nil
    intro he
    have := (h.waiting i).mp he
    simp [hnil] at this
  choose f hf using hne
  have hinj : Function.Injective f := by
    intro i j hij
    have := h.apart.unique (hf i) (hij ▸ hf j)
    exact ProcQ.sProcq.inj this
  obtain ⟨i, hi⟩ := (Finite.injective_iff_surjective.mp hinj) p
  exact h.semAdd_eq_zero.mp hp i (hi ▸ hf i)

end Queued

end Pandos.Tables
