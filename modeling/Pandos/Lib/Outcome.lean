import Mathlib.Logic.Basic

/-!
# Computations that return or leave

`Ends x s Q E` says of `EStateM` code `x` started in state `s` that if it
returns, `Q` holds of its result and state, and if it leaves with an exception,
`E` holds of the exception and the state. The rules are equivalences, so that
`simp only` with them runs the code.
-/

namespace Outcome
variable {ε σ α β : Type} {s : σ}

def Ends (x : EStateM ε σ α) (s : σ) (Q : α → σ → Prop) (E : ε → σ → Prop) : Prop :=
  match x s with
  | .ok a t => Q a t
  | .error e t => E e t

variable {Q : α → σ → Prop} {E : ε → σ → Prop}

theorem ends_pure {a : α} : Ends (pure a) s Q E ↔ Q a s := Iff.rfl

theorem ends_throw {e : ε} : Ends (throw e) s Q E ↔ E e s := Iff.rfl

theorem ends_get {Q : σ → σ → Prop} : Ends get s Q E ↔ Q s s := Iff.rfl

theorem ends_modify {f : σ → σ} {Q : PUnit → σ → Prop} : Ends (modify f) s Q E ↔ Q ⟨⟩ (f s) :=
  Iff.rfl

theorem ends_bind {x : EStateM ε σ α} {f : α → EStateM ε σ β} {Q : β → σ → Prop} :
    Ends (x >>= f) s Q E ↔ Ends x s (fun a t => Ends (f a) t Q E) E := by
  simp only [Ends, bind, EStateM.bind]
  cases x s <;> rfl

theorem ends_ite {p : Prop} [Decidable p] {x y : EStateM ε σ α} :
    Ends (if p then x else y) s Q E ↔ if p then Ends x s Q E else Ends y s Q E := by
  split <;> rfl

theorem Ends.mono {x : EStateM ε σ α} {Q' : α → σ → Prop} {E' : ε → σ → Prop}
    (h : Ends x s Q E) (hq : ∀ a t, Q a t → Q' a t) (he : ∀ e t, E e t → E' e t) :
    Ends x s Q' E' := by
  simp only [Ends] at h ⊢
  cases hx : x s with
  | ok a t => rw [hx] at h; exact hq a t h
  | error e t => rw [hx] at h; exact he e t h

theorem ends_of_ok {x : EStateM ε σ α} {a : α} {t : σ} (h : x s = .ok a t) :
    Ends x s Q E ↔ Q a t := by
  simp only [Ends, h]

theorem ends_of_error {x : EStateM ε σ α} {e : ε} {t : σ} (h : x s = .error e t) :
    Ends x s Q E ↔ E e t := by
  simp only [Ends, h]

theorem ends_congr {x y : EStateM ε σ α} {t : σ} (h : x s = y t) : Ends x s Q E ↔ Ends y t Q E := by
  simp only [Ends, h]

/-- Code that returns is followed by what comes after it. -/
theorem bind_of_ok {x : EStateM ε σ α} {f : α → EStateM ε σ β} {a : α} {t : σ}
    (h : x s = .ok a t) : (x >>= f) s = f a t := by
  simp only [bind, EStateM.bind, h]

/-- Code that leaves is followed by nothing. -/
theorem bind_of_error {x : EStateM ε σ α} {f : α → EStateM ε σ β} {e : ε} {t : σ}
    (h : x s = .error e t) : (x >>= f) s = .error e t := by
  simp only [bind, EStateM.bind, h]

/-- The state in which code ends, however it ends. -/
def final (x : EStateM ε σ α) (s : σ) : σ :=
  match x s with
  | .ok _ t => t
  | .error _ t => t

theorem final_of_ends {x : EStateM ε σ α} {P : σ → Prop} (h : Ends x s (fun _ => P) fun _ => P) :
    P (final x s) := by
  unfold final
  cases hx : x s with
  | ok _ t => exact (ends_of_ok hx).mp h
  | error _ t => exact (ends_of_error hx).mp h

end Outcome
