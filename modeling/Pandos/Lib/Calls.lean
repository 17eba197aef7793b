import Mathlib.Data.List.Defs

/-!
# Sequences of calls

A component is called again and again. `exec` is its code, which may fail to
return; `spec` is what it is for, on the abstract state. If every single call
does what `spec` says and keeps `Rel`, so does every sequence of calls.
-/

namespace Calls
variable {C R σ α : Type*}

/-- The results of the calls, and the state after the last. -/
def run (exec : σ → C → Option (R × σ)) (s : σ) : List C → Option (List R × σ)
  | [] => some ([], s)
  | c :: cs => (exec s c).bind fun (r, s) => (run exec s cs).map fun (rs, s) => (r :: rs, s)

/-- The same with calls that always return. -/
def specRun (spec : α → C → R × α) (a : α) : List C → List R × α
  | [] => ([], a)
  | c :: cs =>
    let rest := specRun spec (spec a c).2 cs
    ((spec a c).1 :: rest.1, rest.2)

variable {exec : σ → C → Option (R × σ)} {spec : α → C → R × α} {s t : σ} {a : α} {cs : List C}
  {rs : List R}

variable (exec spec) in
theorem run_refines (Rel : σ → α → Prop) (ok : C → Prop)
    (step : ∀ s a c, Rel s a → ok c → ∃ t, exec s c = some ((spec a c).1, t) ∧ Rel t (spec a c).2)
    (h : Rel s a) (hc : ∀ c ∈ cs, ok c) :
    ∃ t, run exec s cs = some ((specRun spec a cs).1, t) ∧ Rel t (specRun spec a cs).2 := by
  induction cs generalizing s a with
  | nil => exact ⟨s, rfl, h⟩
  | cons c cs ih =>
    obtain ⟨s₁, h₁, hR₁⟩ := step s a c h (hc c (by simp))
    obtain ⟨s₂, h₂, hR₂⟩ := ih hR₁ fun d hd => hc d (by simp [hd])
    exact ⟨s₂, by simp [run, specRun, h₁, h₂], hR₂⟩

variable (spec) in
/-- Every call of the sequence satisfies `ok` when it is made. -/
def Along (ok : α → C → Prop) (a : α) : List C → Prop
  | [] => True
  | c :: cs => ok a c ∧ Along ok (spec a c).2 cs

instance decidableAlong {ok : α → C → Prop} [∀ a c, Decidable (ok a c)] (a : α) :
    (cs : List C) → Decidable (Along spec ok a cs)
  | [] => inferInstanceAs (Decidable True)
  | c :: cs => @instDecidableAnd _ _ _ (decidableAlong (spec a c).2 cs)

/-- Which calls may be made depends on those before. -/
theorem run_refines_along {Rel : σ → α → Prop} {ok : α → C → Prop}
    (step : ∀ s a c, Rel s a → ok a c → ∃ t, exec s c = some ((spec a c).1, t) ∧ Rel t (spec a c).2)
    (h : Rel s a) (hc : Along spec ok a cs) :
    ∃ t, run exec s cs = some ((specRun spec a cs).1, t) ∧ Rel t (specRun spec a cs).2 := by
  induction cs generalizing s a with
  | nil => exact ⟨s, rfl, h⟩
  | cons c cs ih =>
    obtain ⟨s₁, h₁, hR₁⟩ := step s a c h hc.1
    obtain ⟨s₂, h₂, hR₂⟩ := ih hR₁ hc.2
    exact ⟨s₂, by simp [run, specRun, h₁, h₂], hR₂⟩

/-- What every call keeps holds in the end, and each result is as it has to be. -/
theorem run_invariant (I : σ → Prop) (ok : C → Prop) (P : R → Prop)
    (step : ∀ s c r t, I s → ok c → exec s c = some (r, t) → P r ∧ I t)
    (h : I s) (hc : ∀ c ∈ cs, ok c) (hr : run exec s cs = some (rs, t)) : (∀ r ∈ rs, P r) ∧ I t := by
  induction cs generalizing s rs with
  | nil =>
    cases hr
    exact ⟨by simp, h⟩
  | cons c cs ih =>
    obtain ⟨⟨r, s₁⟩, h₁, hr⟩ := Option.bind_eq_some_iff.mp hr
    obtain ⟨⟨rs', s₂⟩, h₂, hr⟩ := Option.map_eq_some_iff.mp hr
    cases hr
    obtain ⟨hp, hI⟩ := step _ _ _ _ h (hc c (by simp)) h₁
    obtain ⟨hps, hI⟩ := ih hI (fun d hd => hc d (by simp [hd])) h₂
    exact ⟨by simpa using ⟨hp, hps⟩, hI⟩

end Calls
