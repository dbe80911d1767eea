import Mathlib.Algebra.BigOperators.Ring.Nat

/-! Labelled transition systems and the two rules every run argument of the
development uses: a property kept by each step holds along a run, and a relation
kept by paired steps relates whole runs. Nothing here knows a component. -/

namespace WebRtc.Transition
open List

variable {σ ι : Type}

/-- `Reaches step s t`: a finite run of `step` leads from `s` to `t`. -/
inductive Reaches (step : σ → ι → σ → Prop) (s : σ) : σ → Prop
  | refl : Reaches step s s
  | next {t u : σ} (a : ι) : Reaches step s t → step t a u → Reaches step s u

/-- **Invariant rule.** -/
theorem Reaches.invariant {step : σ → ι → σ → Prop} {s t : σ} (Inv : σ → Prop)
    (hr : Reaches step s t) (h0 : Inv s) (hstep : ∀ u a v, Inv u → step u a v → Inv v) : Inv t := by
  induction hr with
  | refl => exact h0
  | next a _ hs ih => exact hstep _ a _ ih hs

/-- Steps allowed by `ok` only: the guard reads the state before the step. -/
def Guarded (ok : σ → ι → Prop) (step : σ → ι → σ → Prop) (s : σ) (a : ι) (t : σ) : Prop :=
  ok s a ∧ step s a t

/-- A run that tests the guard before each step. -/
def guardedRun {ε ο : Type} (ok : σ → ι → Prop) [∀ s a, Decidable (ok s a)]
    (step : σ → ι → Except ε (σ × ο)) : σ → List ι → Option σ
  | s, [] => some s
  | s, a :: inputs =>
    if ok s a then
      match step s a with
      | .error _ => none
      | .ok (t, _) => guardedRun ok step t inputs
    else none

theorem Reaches.of_guardedRun {ε ο : Type} {ok : σ → ι → Prop} [∀ s a, Decidable (ok s a)]
    {step : σ → ι → Except ε (σ × ο)} {s₀ s t : σ}
    (hr : Reaches (Guarded ok fun s a t => ∃ out, step s a = .ok (t, out)) s₀ s) (inputs : List ι)
    (h : guardedRun ok step s inputs = some t) :
    Reaches (Guarded ok fun s a t => ∃ out, step s a = .ok (t, out)) s₀ t := by
  induction inputs generalizing s with
  | nil => cases h; exact hr
  | cons a inputs ih =>
    rw [guardedRun] at h
    split at h
    · next hok =>
      split at h
      · cases h
      · next out hstep => exact ih (hr.next a ⟨hok, out, hstep⟩) h
    · cases h

/-! ## Two runs -/

section Outputs

variable {τ κ ο : Type}

/-- The state after a list of inputs. -/
def final (step : σ → ι → σ × ο) (s : σ) (inputs : List ι) : σ :=
  inputs.foldl (fun s a => (step s a).1) s

/-- What comes out along a list of inputs. -/
def outputs (step : σ → ι → σ × ο) : σ → List ι → List ο
  | _, [] => []
  | s, a :: inputs => (step s a).2 :: outputs step (step s a).1 inputs

/-- **Two-run rule.** A relation that paired steps keep as long as they are `ok`, and under which
the outputs of one step agree exactly if it is `ok`, compares whole runs. -/
theorem outputs_eq_iff {step : σ → ι → σ × ο} {step' : τ → κ → τ × ο} {f : ι → κ}
    (R : σ → τ → Prop) (ok : σ → ι → Prop)
    (hout : ∀ s t a, R s t → ((step' t (f a)).2 = (step s a).2 ↔ ok s a))
    (hnext : ∀ s t a, R s t → ok s a → R (step s a).1 (step' t (f a)).1)
    (inputs : List ι) (s : σ) (t : τ) (h : R s t) :
    outputs step' t (inputs.map f) = outputs step s inputs ↔
      ∀ before a after, inputs = before ++ a :: after → ok (final step s before) a := by
  induction inputs generalizing s t with
  | nil => simp [outputs]
  | cons a inputs ih =>
    rw [map_cons, outputs, outputs, cons.injEq, hout s t a h]
    constructor
    · rintro ⟨hok, hrest⟩ before b after heq
      cases before with
      | nil =>
        rw [nil_append, cons.injEq] at heq
        exact heq.1 ▸ hok
      | cons _ before =>
        rw [cons_append, cons.injEq] at heq
        rw [← heq.1]
        exact (ih _ _ (hnext s t a h hok)).mp hrest before b after heq.2
    · intro hall
      have hok : ok s a := hall [] a inputs rfl
      refine ⟨hok, (ih _ _ (hnext s t a h hok)).mpr fun before b after heq => ?_⟩
      exact hall (a :: before) b after (by rw [heq, cons_append])

end Outputs

end WebRtc.Transition
