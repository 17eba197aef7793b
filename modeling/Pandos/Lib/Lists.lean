import Mathlib.Logic.Function.Basic
import Mathlib.Data.List.Nodup

/-!
# Lists threaded through one link field

A node with a single link field is on at most one list at a time. `Lists H N`
gives, for every list head, the nodes on that list in order. The operations are
those of a doubly linked list with a sentinel: `unlink` needs only the node,
never the list it is on.
-/

namespace Intrusive

abbrev Lists (H N : Type*) := H → List N

namespace Lists
variable {H N : Type*}

/-- Take a node off whatever list it is on. -/
def unlink [DecidableEq N] (L : Lists H N) (n : N) : Lists H N := fun h => (L h).filter (· ≠ n)

/-- Put a node in front of the list at `h`. -/
def push [DecidableEq H] (L : Lists H N) (h : H) (n : N) : Lists H N :=
  Function.update L h (n :: L h)

/-- Put a node at the end of the list at `h`. -/
def append [DecidableEq H] (L : Lists H N) (h : H) (n : N) : Lists H N :=
  Function.update L h (L h ++ [n])

/-- Every node is on at most one list, and at most once. -/
structure Apart (L : Lists H N) : Prop where
  nodup : ∀ h, (L h).Nodup
  unique : ∀ {h k : H} {n : N}, n ∈ L h → n ∈ L k → h = k

section unlinking
variable [DecidableEq N] {L : Lists H N} {h k : H} {m n : N} {l : List N}

@[simp] theorem mem_unlink : m ∈ L.unlink n h ↔ m ∈ L h ∧ m ≠ n := by
  simp [unlink]

theorem unlink_of_not_mem (hn : n ∉ L h) : L.unlink n h = L h := by
  apply List.filter_eq_self.mpr
  intro m hm
  have : m ≠ n := fun e => hn (e ▸ hm)
  simpa using this

theorem unlink_of_free (hn : ∀ h, n ∉ L h) : L.unlink n = L := by
  funext h
  exact unlink_of_not_mem (hn h)

@[simp] theorem unlink_unlink : (L.unlink n).unlink n = L.unlink n := by
  funext k
  simp [unlink]

theorem Apart.unlink (ha : Apart L) (n : N) : Apart (L.unlink n) where
  nodup h := (ha.nodup h).filter _
  unique hh hk := ha.unique (mem_unlink.mp hh).1 (mem_unlink.mp hk).1

/-- Taking the first node off its list leaves the rest of that list. -/
theorem Apart.unlink_cons (ha : Apart L) (hc : L h = n :: l) : L.unlink n h = l := by
  have hd := List.nodup_cons.mp (hc ▸ ha.nodup h)
  rw [Lists.unlink, hc, List.filter_cons_of_neg (by simp)]
  apply List.filter_eq_self.mpr
  intro m hm
  have : m ≠ n := fun e => hd.1 (e ▸ hm)
  simpa using this

/-- A node that is not alone on its list leaves others behind. -/
theorem Apart.unlink_ne_nil (ha : Apart L) (hn : n ∈ L h) (hs : L h ≠ [n]) : L.unlink n h ≠ [] := by
  intro he
  have hall : ∀ m ∈ L h, m = n := by
    intro m hm
    by_contra hne
    have : m ∈ L.unlink n h := mem_unlink.mpr ⟨hm, hne⟩
    rw [he] at this
    cases this
  cases hl : L h with
  | nil =>
    rw [hl] at hn
    cases hn
  | cons m l =>
    obtain rfl : m = n := hall m (by simp [hl])
    have hd := List.nodup_cons.mp (hl ▸ ha.nodup h)
    cases l with
    | nil => exact hs hl
    | cons k l =>
      obtain rfl : k = m := hall k (by simp [hl])
      exact hd.1 List.mem_cons_self

/-- Taking a node off its list changes no other list. -/
theorem Apart.unlink_other (ha : Apart L) (hn : n ∈ L h) (hk : k ≠ h) : L.unlink n k = L k :=
  unlink_of_not_mem fun hm => hk (ha.unique hm hn)

end unlinking

section linking
variable [DecidableEq H] {L : Lists H N} {h k : H} {m n : N}

@[simp] theorem push_self : L.push h n h = n :: L h := by simp [push]

theorem push_of_ne (hk : k ≠ h) : L.push h n k = L k := by simp [push, hk]

@[simp] theorem append_self : L.append h n h = L h ++ [n] := by simp [append]

theorem append_of_ne (hk : k ≠ h) : L.append h n k = L k := by simp [append, hk]

theorem mem_append : m ∈ L.append h n k ↔ m ∈ L k ∨ k = h ∧ m = n := by
  by_cases hk : k = h
  · subst hk; simp
  · simp [append_of_ne hk, hk]

theorem mem_push : m ∈ L.push h n k ↔ m ∈ L k ∨ k = h ∧ m = n := by
  by_cases hk : k = h
  · subst hk; simp [or_comm]
  · simp [push_of_ne hk, hk]

/-- Linking a node that is on no list keeps the lists apart. -/
theorem Apart.link {L' : Lists H N} (ha : Apart L) (hn : ∀ k, n ∉ L k)
    (hd : (L' h).Nodup) (ho : ∀ k, k ≠ h → L' k = L k)
    (hm : ∀ k m, m ∈ L' k → m ∈ L k ∨ k = h ∧ m = n) : Apart L' where
  nodup k := by
    by_cases hk : k = h
    · exact hk ▸ hd
    · exact ho k hk ▸ ha.nodup k
  unique {a b m} h₁ h₂ := by
    rcases hm a m h₁ with h₁ | ⟨ea, en⟩ <;> rcases hm b m h₂ with h₂ | ⟨eb, en'⟩
    · exact ha.unique h₁ h₂
    · exact absurd (en' ▸ h₁) (hn a)
    · exact absurd (en ▸ h₂) (hn b)
    · exact ea.trans eb.symm

theorem Apart.append (ha : Apart L) (hn : ∀ k, n ∉ L k) : Apart (L.append h n) := by
  refine ha.link hn ?_ (fun k hk => append_of_ne hk) (fun k m => mem_append.mp)
  rw [append_self]
  have hd : ∀ a ∈ L h, a ≠ n := fun a hm e => hn h (e ▸ hm)
  exact List.nodup_append.mpr ⟨ha.nodup h, by simp, by simpa using hd⟩

theorem Apart.push (ha : Apart L) (hn : ∀ k, n ∉ L k) : Apart (L.push h n) := by
  refine ha.link hn ?_ (fun k hk => push_of_ne hk) (fun k m => mem_push.mp)
  rw [push_self]
  exact List.nodup_cons.mpr ⟨hn h, ha.nodup h⟩

/-- Taking a node off undoes putting it anywhere. -/
theorem unlink_append [DecidableEq N] : (L.append h n).unlink n = L.unlink n := by
  funext k
  by_cases hk : k = h
  · subst hk
    simp [unlink]
  · simp [unlink, append_of_ne hk]

/-- Taking a node off its list is erasing it from that list. -/
theorem Apart.unlink_eq_update [DecidableEq N] (ha : Apart L) (hn : n ∈ L h) :
    L.unlink n = Function.update L h ((L h).erase n) := by
  funext k
  by_cases hk : k = h
  · subst hk
    rw [Function.update_self, (ha.nodup k).erase_eq_filter]
    exact List.filter_congr fun m _ => Bool.eq_iff_iff.mpr (by simp)
  · rw [Function.update_of_ne hk]
    exact ha.unlink_other hn hk

end linking

end Lists

end Intrusive
