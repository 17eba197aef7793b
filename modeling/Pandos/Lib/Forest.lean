import Mathlib.Logic.Relation
import Pandos.Lib.Lists

/-!
# Trees of child lists

A tree kept as the list of the children of every node. It grows by leaves and
loses whole subtrees.
-/

namespace Intrusive.Lists
variable {N : Type*}

/-- `q` is a proper descendant of `p`. -/
def Below (C : Lists N N) (p q : N) : Prop := Relation.TransGen (fun a b => b ∈ C a) p q

/-- The nodes in `live` are the root and its descendants, and nobody is his own
descendant. -/
structure Rooted (C : Lists N N) (live : N → Prop) (root : N) : Prop where
  reach : ∀ n, live n → n = root ∨ C.Below root n
  top : ∀ a, root ∉ C a
  acyclic : ∀ n, ¬C.Below n n

variable {C D : Lists N N} {live : N → Prop} {root parent a b n : N}

theorem Below.mono (h : C.Below a b) (hC : ∀ a b, b ∈ C a → b ∈ D a) : D.Below a b :=
  Relation.TransGen.mono (fun a b => hC a b) _ _ h

section leaf
variable (hC : ∀ a b, b ∈ D a ↔ b ∈ C a ∨ a = parent ∧ b = n) (hn : C n = []) (hp : parent ≠ n)
include hC hn hp

/-- A new leaf is below others, but nobody is below it. -/
theorem Below.of_leaf (h : D.Below a b) (hb : b ≠ n) : C.Below a b := by
  have leaf : ∀ c, c ∉ D n := by
    intro c hc
    rcases (hC n c).mp hc with hc | ⟨hc, -⟩
    · rw [hn] at hc
      cases hc
    · exact hp hc.symm
  induction h with
  | single h =>
    rcases (hC _ _).mp h with h | ⟨-, h⟩
    · exact .single h
    · exact absurd h hb
  | @tail b c _ h ih =>
    have hbn : b ≠ n := fun e => leaf c (e ▸ h)
    rcases (hC _ _).mp h with h | ⟨-, h⟩
    · exact .tail (ih hbn) h
    · exact absurd h hb

theorem acyclic_leaf (h : ∀ m, ¬C.Below m m) (m : N) : ¬D.Below m m := by
  intro hm
  by_cases hmn : m = n
  · subst hmn
    obtain ⟨b, hb, -⟩ := Relation.TransGen.head'_iff.mp hm
    rcases (hC m b).mp hb with hb | ⟨hb, -⟩
    · rw [hn] at hb
      cases hb
    · exact hp hb.symm
  · exact h m (hm.of_leaf hC hn hp hmn)

theorem Rooted.leaf (h : Rooted C live root) (hparent : live parent) (hroot : root ≠ n)
    (horphan : ∀ a, n ∉ C a) : Rooted D (fun m => live m ∨ m = n) root where
  reach m hm := by
    have old : ∀ {a b}, C.Below a b → D.Below a b := fun h =>
      h.mono fun a b hb => (hC a b).mpr (.inl hb)
    have edge : n ∈ D parent := (hC parent n).mpr (.inr ⟨rfl, rfl⟩)
    rcases hm with hm | rfl
    · exact (h.reach m hm).imp id old
    · rcases h.reach parent hparent with hr | hr
      · exact .inr (hr ▸ .single edge)
      · exact .inr (.tail (old hr) edge)
  top a ha := by
    rcases (hC a root).mp ha with ha | ⟨-, ha⟩
    · exact h.top a ha
    · exact hroot ha
  acyclic := acyclic_leaf hC hn hp h.acyclic

end leaf

/-- Without the nodes in `S`, and with them everything below, it is a tree. -/
theorem Rooted.prune {S : N → Prop} (h : Rooted C live root)
    (hC : ∀ a b, b ∈ D a ↔ b ∈ C a ∧ ¬S b) (hS : ∀ a b, S a → b ∈ C a → S b) :
    Rooted D (fun m => live m ∧ ¬S m) root where
  reach m hm := by
    refine (h.reach m hm.1).imp id fun hb => ?_
    have down : ∀ {a b}, C.Below a b → S a → S b := by
      intro a b hab ha
      induction hab with
      | single h => exact hS _ _ ha h
      | tail _ h ih => exact hS _ _ ih h
    have keep : ∀ {a b}, C.Below a b → ¬S b → D.Below a b := by
      intro a b hab hb
      induction hab with
      | single h => exact .single ((hC _ _).mpr ⟨h, hb⟩)
      | tail _ h ih => exact .tail (ih fun ha => hb (hS _ _ ha h)) ((hC _ _).mpr ⟨h, hb⟩)
    exact keep hb hm.2
  top a ha := h.top a ((hC a root).mp ha).1
  acyclic m hm := h.acyclic m (hm.mono fun a b hb => ((hC a b).mp hb).1)

/-- Once the root is gone, everything is. -/
theorem Rooted.empty (h : Rooted C live root) (hC : ∀ a b, b ∈ C a → live a) (hr : ¬live root)
    (m : N) : ¬live m := by
  intro hm
  rcases h.reach m hm with rfl | hb
  · exact hr hm
  · obtain ⟨b, hb, -⟩ := Relation.TransGen.head'_iff.mp hb
    exact hr (hC root b hb)

end Intrusive.Lists
