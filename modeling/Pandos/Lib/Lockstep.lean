import Pandos.Lib.Outcome

/-!
# Two computations in lockstep

`Both x s y s' Q E` says of two pieces of `EStateM` code started in the states
`s` and `s'` that either both return, and `Q` holds of the results and states,
or both leave, and `E` holds of the exceptions and states. The states may be of
different types: code and what it refines, or two runs of the same code.
-/

namespace Outcome
variable {ε ε' σ σ' α α' β β' γ γ' : Type} {s : σ} {s' : σ'}

def Both (x : EStateM ε σ α) (s : σ) (y : EStateM ε' σ' β) (s' : σ')
    (Q : α → β → σ → σ' → Prop) (E : ε → ε' → σ → σ' → Prop) : Prop :=
  match x s, y s' with
  | .ok a t, .ok b t' => Q a b t t'
  | .error e t, .error e' t' => E e e' t t'
  | _, _ => False

variable {Q : α → β → σ → σ' → Prop} {E : ε → ε' → σ → σ' → Prop}

theorem both_pure {a : α} {b : β} : Both (pure a) s (pure b) s' Q E ↔ Q a b s s' := Iff.rfl

theorem both_pure_bind {a : γ} {b : γ'} {f : γ → EStateM ε σ α} {g : γ' → EStateM ε' σ' β} :
    Both (pure a >>= f) s (pure b >>= g) s' Q E ↔ Both (f a) s (g b) s' Q E := Iff.rfl

theorem both_modify_bind {f : σ → σ} {g : σ' → σ'} {x : PUnit → EStateM ε σ α}
    {y : PUnit → EStateM ε' σ' β} :
    Both (modify f >>= x) s (modify g >>= y) s' Q E ↔ Both (x ⟨⟩) (f s) (y ⟨⟩) (g s') Q E := Iff.rfl

/-- Reading the states changes nothing. -/
theorem both_get_bind {f : σ → EStateM ε σ α} {g : σ' → EStateM ε' σ' β} :
    Both (get >>= f) s (get >>= g) s' Q E ↔ Both (f s) s (g s') s' Q E := Iff.rfl

theorem Both.mono {x : EStateM ε σ α} {y : EStateM ε' σ' β} {Q' : α → β → σ → σ' → Prop}
    {E' : ε → ε' → σ → σ' → Prop} (h : Both x s y s' Q E) (hq : ∀ a b t t', Q a b t t' → Q' a b t t')
    (he : ∀ e e' t t', E e e' t t' → E' e e' t t') : Both x s y s' Q' E' := by
  unfold Both at h ⊢
  cases hx : x s <;> cases hy : y s' <;> rw [hx, hy] at h
  · exact hq _ _ _ _ h
  · exact h
  · exact h
  · exact he _ _ _ _ h

/-- Code in sequence: what comes after goes on in lockstep. -/
theorem Both.bind {x : EStateM ε σ α} {y : EStateM ε' σ' β} {f : α → EStateM ε σ α'}
    {g : β → EStateM ε' σ' β'} {Q' : α' → β' → σ → σ' → Prop} (h : Both x s y s' Q E)
    (hf : ∀ a b t t', Q a b t t' → Both (f a) t (g b) t' Q' E) :
    Both (x >>= f) s (y >>= g) s' Q' E := by
  unfold Both at h
  cases hx : x s <;> cases hy : y s' <;> rw [hx, hy] at h
  · unfold Both
    rw [bind_of_ok hx, bind_of_ok hy]
    exact hf _ _ _ _ h
  · exact h.elim
  · exact h.elim
  · unfold Both
    rw [bind_of_error hx, bind_of_error hy]
    exact h

/-- Both take the same branch. -/
theorem both_ite {p p' : Prop} [Decidable p] [Decidable p'] {x y : EStateM ε σ α}
    {x' y' : EStateM ε' σ' β} (hp : p ↔ p') (ht : p' → Both x s x' s' Q E)
    (hf : ¬p' → Both y s y' s' Q E) :
    Both (if p then x else y) s (if p' then x' else y') s' Q E := by
  by_cases h : p'
  · rw [if_pos h, if_pos (hp.mpr h)]
    exact ht h
  · rw [if_neg h, if_neg (fun hn => h (hp.mp hn))]
    exact hf h

/-- A loop over the same list, with accumulators that stay related. -/
theorem both_foldlM {R : α → β → σ → σ' → Prop} {f : α → γ → EStateM ε σ α}
    {g : β → γ → EStateM ε' σ' β} {l : List γ} {a : α} {b : β}
    (step : ∀ c ∈ l, ∀ a b t t', R a b t t' → Both (f a c) t (g b c) t' R E) (h : R a b s s') :
    Both (l.foldlM f a) s (l.foldlM g b) s' R E := by
  induction l generalizing a b s s' with
  | nil => exact both_pure.mpr h
  | cons c l ih =>
    rw [List.foldlM_cons, List.foldlM_cons]
    exact (step c (by simp) a b s s' h).bind fun a b t t' h =>
      ih (fun d hd => step d (by simp [hd])) h

end Outcome
