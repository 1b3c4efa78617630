import Mathlib

/-!
# Runs of a machine

A machine takes one input after the other; a step that is not possible in a state has no result.
Runs may be restricted to inputs that are admitted in the state that they find. What every admitted
step keeps holds in every state that is reached.
-/

variable {σ ι : Type*}

/-- The state after the inputs, each of them admitted when it came. -/
inductive Reaches (step : σ → ι → Option σ) (admits : σ → ι → Prop) (start : σ) :
    List ι → σ → Prop
  | nil : Reaches step admits start [] start
  | snoc {inputs : List ι} {s s' : σ} {i : ι} : Reaches step admits start inputs s → admits s i →
      step s i = some s' → Reaches step admits start (inputs ++ [i]) s'

namespace Reaches

variable {step : σ → ι → Option σ} {admits : σ → ι → Prop} {start s s' : σ} {inputs : List ι}

theorem invariant (h : Reaches step admits start inputs s) {P : σ → Prop} (hstart : P start)
    (hstep : ∀ s i s', P s → admits s i → step s i = some s' → P s') : P s := by
  induction h with
  | nil => exact hstart
  | snoc _ hadmits hs ih => exact hstep _ _ _ ih hadmits hs

/-- As `invariant`, for properties that speak of the inputs too. -/
theorem invariant_inputs (h : Reaches step admits start inputs s) {P : List ι → σ → Prop}
    (hstart : P [] start)
    (hstep : ∀ inputs s i s', P inputs s → admits s i → step s i = some s' →
      P (inputs ++ [i]) s') : P inputs s := by
  induction h with
  | nil => exact hstart
  | snoc _ hadmits hs ih => exact hstep _ _ _ _ ih hadmits hs

section Guarded

variable [∀ s i, Decidable (admits s i)]

variable (step admits) in
/-- A step that is not admitted is not possible. -/
def guarded (s : σ) (i : ι) : Option σ := if admits s i then step s i else none

theorem of_foldlM (h : inputs.foldlM (guarded step admits) start = some s) :
    Reaches step admits start inputs s := by
  induction inputs using List.reverseRecOn generalizing s with
  | nil =>
    obtain rfl : start = s := by simpa using h
    exact .nil
  | append_singleton inputs i ih =>
    rw [List.foldlM_append] at h
    obtain ⟨s', hs', hi⟩ := Option.bind_eq_some_iff.mp h
    obtain ⟨hadmits, hstep⟩ : admits s' i ∧ step s' i = some s := by
      simpa [guarded] using hi
    exact .snoc (ih hs') hadmits hstep

/-- A run on fixed inputs is found by evaluation. -/
theorem get_foldlM (h : (inputs.foldlM (guarded step admits) start).isSome = true) :
    Reaches step admits start inputs (Option.get _ h) :=
  of_foldlM (Option.some_get h).symm

end Guarded

end Reaches
