import Mathlib.Data.Fintype.EquivFin
import Mathlib.Data.Finset.Card
import Pandos.Lib.Lists

/-!
# Queues under keys

A map from keys to first-in-first-out queues, of which only so many can be in
use. A key without a queue has the empty one.
-/

namespace KeyedFifo
open Intrusive

variable {K V : Type*}

/-- The queue of each key. -/
abbrev Map (K V : Type*) := Lists K V

/-- `cap` keys have a queue. -/
def Full (cap : Nat) (m : Map K V) : Prop := ∃ s : Finset K, s.card = cap ∧ ∀ k ∈ s, m k ≠ []

inductive Call (K V : Type*)
  | insert (k : K) (v : V)
  | remove (k : K)
  | out (v : V)
  | head (k : K)

/-- What a call returns: whether there was no room, or what it found. -/
inductive Answer (V : Type*)
  | full (b : Bool)
  | found (v : Option V)

section
variable [DecidableEq K] [DecidableEq V]

open Classical in
/-- What a call does, when no more than `cap` keys can have a queue. -/
noncomputable def Map.call (cap : Nat) (m : Map K V) : Call K V → Answer V × Map K V
  | .insert k v =>
    if m k = [] ∧ Full cap m then (.full true, m)
    else (.full false, Function.update m k (m k ++ [v]))
  | .remove k =>
    match m k with
    | [] => (.found none, m)
    | v :: l => (.found (some v), Function.update m k l)
  | .out v =>
    if ∃ k, v ∈ m k then (.found (some v), m.unlink v) else (.found none, m)
  | .head k => (.found (m k).head?, m)

/-- The runs that start without queues, with what every call returned. -/
inductive Run (cap : Nat) : List (Call K V × Answer V) → Map K V → Prop
  | start : Run cap [] fun _ => []
  | call {l : List (Call K V × Answer V)} {m : Map K V} (c : Call K V) : Run cap l m →
      Run cap (l ++ [(c, (m.call cap c).1)]) (m.call cap c).2

variable {cap : Nat} {m : Map K V} {k : K} {v : V} {l : List V}

theorem call_insert (h : ¬Full cap m) :
    m.call cap (.insert k v) = (.full false, Function.update m k (m k ++ [v])) :=
  if_neg fun hf => h hf.2

theorem call_remove_nil (h : m k = []) : m.call cap (.remove k) = (.found none, m) := by
  simp only [Map.call, h]

theorem call_remove_cons (h : m k = v :: l) :
    m.call cap (.remove k) = (.found (some v), Function.update m k l) := by
  simp only [Map.call, h]

theorem call_out (h : v ∈ m k) : m.call cap (.out v) = (.found (some v), m.unlink v) :=
  if_pos ⟨k, h⟩

theorem call_out_none (h : ∀ k, v ∉ m k) : m.call cap (.out v) = (.found none, m) :=
  if_neg fun ⟨k, hk⟩ => h k hk

end

/-- There is room as long as somebody is in no queue. -/
theorem not_full [Fintype V] {m : Map K V} {v : V} (ha : m.Apart) (hv : ∀ k, v ∉ m k) :
    ¬Full (Fintype.card V) m := by
  rintro ⟨s, hcard, hs⟩
  have hne : ∀ k : s, ∃ w, w ∈ m k := fun k => List.exists_mem_of_ne_nil _ (hs k k.2)
  choose f hf using hne
  have hinj : Function.Injective f := by
    intro j k hjk
    exact Subtype.ext (ha.unique (hf j) (hjk ▸ hf k))
  have hsurj := ((Fintype.bijective_iff_injective_and_card f).mpr
    ⟨hinj, (Fintype.card_coe s).trans hcard⟩).2
  obtain ⟨k, hk⟩ := hsurj v
  exact hv k (hk ▸ hf k)

end KeyedFifo
