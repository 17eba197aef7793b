import Mathlib.Data.Fintype.Card
import Pandos.Lib.Forest

/-!
# Depth-first traversal

A recursion over child lists meets a node before its children, and them in
order. `preorder` lists the nodes it meets when it turns back at every node
that `keep` does not hold of. Descending through a finite forest ends.
-/

namespace Intrusive.Lists
variable {N : Type*}

/-- Nobody is on two child lists or his own descendant. -/
structure Forest (C : Lists N N) : Prop where
  apart : C.Apart
  acyclic : ∀ n, ¬C.Below n n

/-- Lists on which every node ranks below its children have no cycle. -/
theorem acyclic_of_rank {C : Lists N N} (rank : N → Nat) (h : ∀ a b, b ∈ C a → rank a < rank b)
    (n : N) : ¬C.Below n n := by
  have hlt : ∀ {a b}, C.Below a b → rank a < rank b := by
    intro a b hab
    induction hab with
    | single hb => exact h _ _ hb
    | tail _ hb ih => exact ih.trans (h _ _ hb)
  exact fun hn => Nat.lt_irrefl _ (hlt hn)

/-- The nodes met from `n` on, at most `fuel` generations deep. -/
def preorder (C : Lists N N) (keep : N → Bool) : Nat → N → List N
  | 0, _ => []
  | fuel + 1, n => if keep n then n :: (C n).flatMap (C.preorder keep fuel) else []

/-- `b` is a child of `a` that is kept. -/
def Kept (C : Lists N N) (keep : N → Bool) (a b : N) : Prop := b ∈ C a ∧ keep b

variable {C : Lists N N} {keep : N → Bool} {fuel : Nat} {a b n q : N}

theorem preorder_succ (hn : keep n) :
    C.preorder keep (fuel + 1) n = n :: (C n).flatMap (C.preorder keep fuel) := by
  simp only [preorder, hn, if_true]

theorem preorder_turned (hn : ¬keep n) : C.preorder keep fuel n = [] := by
  cases fuel with
  | zero => rfl
  | succ fuel => simp [preorder, hn]

/-- What is reached through kept nodes is reached. -/
theorem Kept.path (h : Relation.ReflTransGen (C.Kept keep) n q) :
    Relation.ReflTransGen (fun a b => b ∈ C a) n q :=
  Relation.ReflTransGen.mono (fun _ _ hk => hk.1) _ _ h

/-- What is met is kept, and all nodes on the way to it are. -/
theorem of_mem_preorder (hq : q ∈ C.preorder keep fuel n) :
    keep n ∧ Relation.ReflTransGen (C.Kept keep) n q := by
  induction fuel generalizing n with
  | zero => cases hq
  | succ fuel ih =>
    by_cases hn : keep n
    · rw [preorder_succ hn] at hq
      rcases List.mem_cons.mp hq with rfl | hq
      · exact ⟨hn, .refl⟩
      · obtain ⟨b, hb, hq⟩ := List.mem_flatMap.mp hq
        obtain ⟨hkeep, hpath⟩ := ih hq
        exact ⟨hn, .head ⟨hb, hkeep⟩ hpath⟩
    · rw [preorder_turned hn] at hq
      cases hq

theorem eq_or_below_of_mem (hq : q ∈ C.preorder keep fuel n) : q = n ∨ C.Below n q :=
  Relation.reflTransGen_iff_eq_or_transGen.mp (Kept.path (of_mem_preorder hq).2)

/-! ## How deep it is -/

section generations
variable [Fintype N]

open Classical in
/-- How many nodes are below `n`, so how far a descent from it can go. -/
noncomputable def depth (C : Lists N N) (n : N) : Nat := (Finset.univ.filter (C.Below n)).card

theorem Forest.depth_lt (h : Forest C) (hb : b ∈ C n) : C.depth b < C.depth n := by
  classical
  apply Finset.card_lt_card
  refine Finset.ssubset_iff_of_subset ?_ |>.mpr ⟨b, ?_, ?_⟩
  · intro q hq
    have hq : C.Below b q := (Finset.mem_filter.mp hq).2
    exact Finset.mem_filter.mpr ⟨Finset.mem_univ q, .head hb hq⟩
  · exact Finset.mem_filter.mpr ⟨Finset.mem_univ b, .single hb⟩
  · exact fun hm => h.acyclic b (Finset.mem_filter.mp hm).2

theorem Forest.depth_lt_card (h : Forest C) (n : N) : C.depth n < Fintype.card N := by
  classical
  apply Finset.card_lt_univ_of_notMem (x := n)
  simpa using h.acyclic n

/-- Enough fuel meets everything. -/
theorem Forest.mem_preorder (h : Forest C) (hf : C.depth n < fuel) :
    q ∈ C.preorder keep fuel n ↔ keep n ∧ Relation.ReflTransGen (C.Kept keep) n q := by
  refine ⟨of_mem_preorder, ?_⟩
  induction fuel generalizing n with
  | zero => omega
  | succ fuel ih =>
    rintro ⟨hn, hpath⟩
    rw [preorder_succ hn, List.mem_cons, List.mem_flatMap]
    rcases Relation.ReflTransGen.cases_head hpath with rfl | ⟨b, ⟨hb, hkeep⟩, hpath⟩
    · exact .inl rfl
    · have hlt := h.depth_lt hb
      exact .inr ⟨b, hb, ih (by omega) ⟨hkeep, hpath⟩⟩

end generations

/-! ## Nobody is met twice -/

/-- The trees below two siblings are apart. -/
theorem Forest.siblings (h : Forest C) (ha : a ∈ C n) (hb : b ∈ C n) (hne : a ≠ b)
    (hqa : Relation.ReflTransGen (fun a b => b ∈ C a) a q)
    (hqb : Relation.ReflTransGen (fun a b => b ∈ C a) b q) : False := by
  -- parents are unique, so one of the two is above the other
  have unique : Relator.RightUnique (Function.swap fun a b => b ∈ C a) := fun c x y hx hy =>
    h.apart.unique hx hy
  have cycle : ∀ {a b}, a ∈ C n → b ∈ C n → a ≠ b →
      Relation.ReflTransGen (Function.swap fun a b => b ∈ C a) a b → False := by
    intro a b ha hb hne hab
    have hab := Relation.reflTransGen_swap.mp hab
    rcases Relation.reflTransGen_iff_eq_or_transGen.mp hab with he | hlt
    · exact hne he
    · obtain ⟨c, hbc, hca⟩ := Relation.TransGen.tail'_iff.mp hlt
      obtain rfl : c = n := h.apart.unique hca ha
      exact h.acyclic c (.head' hb hbc)
  have hqa := Relation.reflTransGen_swap.mpr hqa
  have hqb := Relation.reflTransGen_swap.mpr hqb
  rcases hqa.total_of_right_unique unique hqb with hab | hba
  · exact cycle ha hb hne hab
  · exact cycle hb ha hne.symm hba

theorem Forest.nodup_preorder (h : Forest C) : (C.preorder keep fuel n).Nodup := by
  induction fuel generalizing n with
  | zero => exact List.nodup_nil
  | succ fuel ih =>
    by_cases hn : keep n
    · rw [preorder_succ hn, List.nodup_cons, List.nodup_flatMap]
      have below : ∀ {b q}, q ∈ C.preorder keep fuel b →
          Relation.ReflTransGen (fun a b => b ∈ C a) b q := fun hq =>
        Kept.path (of_mem_preorder hq).2
      refine ⟨fun hm => ?_, fun _ _ => ih, ?_⟩
      · obtain ⟨b, hb, hq⟩ := List.mem_flatMap.mp hm
        exact h.acyclic n (.head' hb (below hq))
      · apply (h.apart.nodup n).imp_of_mem
        intro a b ha hb hne q hqa hqb
        exact h.siblings ha hb hne (below hqa) (below hqb)
    · rw [preorder_turned hn]
      exact List.nodup_nil

/-! ## When nothing is cut off -/

/-- Whoever is between a node and one that is reached through kept nodes is
one of these. -/
theorem Forest.kept_between (h : Forest C) (hq : Relation.ReflTransGen (C.Kept keep) n q)
    (ha : C.Below n a) (haq : C.Below a q) : keep a := by
  induction hq with
  | refl => exact absurd (ha.trans haq) (h.acyclic n)
  | @tail b q hb hbq ih =>
    obtain ⟨c, hac, hcq⟩ := Relation.TransGen.tail'_iff.mp haq
    obtain rfl : c = b := h.apart.unique hcq hbq.1
    rcases Relation.reflTransGen_iff_eq_or_transGen.mp hac with rfl | hac
    · rcases Relation.ReflTransGen.cases_tail hb with he | ⟨_, _, hk⟩
      · exact absurd (he ▸ ha) (h.acyclic n)
      · exact hk.2
    · exact ih hac

theorem kept_of_between (hq : C.Below n q) (hk : keep q)
    (hb : ∀ a, C.Below n a → C.Below a q → keep a) :
    Relation.ReflTransGen (C.Kept keep) n q := by
  induction hq with
  | single hq => exact .single ⟨hq, hk⟩
  | @tail b q hnb hbq ih =>
    refine .tail (ih (hb b hnb (.single hbq)) fun a hna hab => ?_) ⟨hbq, hk⟩
    exact hb a hna (.tail hab hbq)

end Intrusive.Lists
