import Pandos.Phase1.Queued

/-!
# Where the processes are

The queues as phase 2 sees them: a pcb is free, ready, waiting on the semaphore
at some address, or nowhere. No descriptors and no hash.
-/

namespace Pandos
open Intrusive

inductive Place
  | free
  | ready
  | sem (a : Word)
  deriving DecidableEq

@[ext]
structure Queues where
  pcbs : Pcb → PcbT
  queue : Lists Place Pcb
  pChild : Lists Pcb Pcb

namespace Queues

abbrev free (q : Queues) : List Pcb := q.queue .free
abbrev ready (q : Queues) : List Pcb := q.queue .ready
abbrev waiters (q : Queues) (a : Word) : List Pcb := q.queue (.sem a)

def modPcb (q : Queues) (p : Pcb) (f : PcbT → PcbT) : Queues :=
  { q with pcbs := Function.update q.pcbs p (f (q.pcbs p)) }

/-- Off whatever queue it is on. -/
def unlink (q : Queues) (p : Pcb) : Queues := { q with queue := q.queue.unlink p }

/-- From wherever it is to the end of a queue. -/
def moveLast (q : Queues) (k : Place) (p : Pcb) : Queues :=
  { q with queue := (q.queue.unlink p).append k p }

/-- From wherever it is to the front of a queue. -/
def moveFirst (q : Queues) (k : Place) (p : Pcb) : Queues :=
  { q with queue := (q.queue.unlink p).push k p }

/-- Off the semaphore it waits on. -/
def wake (q : Queues) (p : Pcb) : Queues := (q.modPcb p ({ · with pSemAdd := 0 })).unlink p

/-- To the end of the queue of the semaphore at `a`. -/
def block (q : Queues) (a : Word) (p : Pcb) : Queues :=
  (q.modPcb p ({ · with pSemAdd := a })).moveLast (.sem a) p

/-- Off the free list, with an empty record. -/
def alloc (q : Queues) (p : Pcb) : Queues :=
  { (q.modPcb p fun _ => .zero).unlink p with pChild := Function.update q.pChild p [] }

/-- To the end of the children of `parent`. -/
def insertChild (q : Queues) (parent child : Pcb) : Queues :=
  { q.modPcb child ({ · with pParent := some parent }) with
    pChild := (q.pChild.unlink child).append parent child }

/-- Off the children of its parent. -/
def orphan (q : Queues) (child : Pcb) : Queues := { q with pChild := q.pChild.unlink child }

variable (q : Queues) (a : Word) (j k : Place) (p : Pcb)

@[simp] theorem queue_unlink : (q.unlink p).queue j = q.queue.unlink p j := rfl

@[simp] theorem queue_wake : (q.wake p).queue j = q.queue.unlink p j := rfl

@[simp] theorem queue_alloc : (q.alloc p).queue j = q.queue.unlink p j := rfl

theorem queue_moveLast :
    (q.moveLast k p).queue j = if j = k then q.queue.unlink p j ++ [p] else q.queue.unlink p j := by
  split
  · next h => exact h ▸ Lists.append_self
  · next h => exact Lists.append_of_ne h

theorem queue_moveFirst :
    (q.moveFirst k p).queue j = if j = k then p :: q.queue.unlink p j else q.queue.unlink p j := by
  split
  · next h => exact h ▸ Lists.push_self
  · next h => exact Lists.push_of_ne h

theorem queue_block : (q.block a p).queue j =
    if j = .sem a then q.queue.unlink p j ++ [p] else q.queue.unlink p j :=
  queue_moveLast _ j _ p

end Queues

namespace Tables

def queues (t : Tables) : Queues where
  pcbs := t.pcbs
  queue := fun
    | .free => t.free
    | .ready => t.ready
    | .sem a => t.waiters a
  pChild := t.pChild

variable {t : Tables} {a : Word} {p : Pcb}

/-- A pcb is in one place at most, and once. -/
theorem Queued.queue_apart (h : Queued t) : t.queues.queue.Apart where
  nodup
    | .free => h.apart.nodup _
    | .ready => h.apart.nodup _
    | .sem a => h.waiters_nodup a
  unique {j k p} hj hk := by
    have blocked : ∀ a, p ∈ t.waiters a → (t.pcbs p).pSemAdd = a ∧ a ≠ 0 := fun a hp =>
      (h.mem_waiters.mp hp).symm
    cases j with
    | free => cases k with
      | free => rfl
      | ready => exact absurd hj (h.not_free_of_ready hk)
      | sem b => exact absurd ((blocked b hk).1 ▸ h.semAdd_of_free hj) (blocked b hk).2
    | ready => cases k with
      | free => exact absurd hk (h.not_free_of_ready hj)
      | ready => rfl
      | sem b => exact absurd ((blocked b hk).1 ▸ h.semAdd_of_ready hj) (blocked b hk).2
    | sem a => cases k with
      | free => exact absurd ((blocked a hj).1 ▸ h.semAdd_of_free hk) (blocked a hj).2
      | ready => exact absurd ((blocked a hj).1 ▸ h.semAdd_of_ready hk) (blocked a hj).2
      | sem b => rw [← (blocked a hj).1, ← (blocked b hk).1]

end Tables

end Pandos
