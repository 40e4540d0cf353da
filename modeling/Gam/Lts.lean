import Mathlib.Logic.Basic

/-! Labelled transition systems: runs, and what holds along them. -/

namespace Lts
universe u v
variable {σ : Type u} {α : Type v}

/-- Finitely many steps, with everything they show. -/
inductive Run (step : σ → List α → σ → Prop) (s : σ) : List α → σ → Prop
  | refl : Run step s [] s
  | tail {t t' : σ} {xs ys : List α} (run : Run step s xs t) (last : step t ys t') :
    Run step s (xs ++ ys) t'

namespace Run
variable {step : σ → List α → σ → Prop} {s t t' : σ} {xs ys : List α}

theorem single (one : step s xs t) : Run step s xs t := by
  simpa using Run.refl.tail one

theorem trans (first : Run step s xs t) (second : Run step t ys t') : Run step s (xs ++ ys) t' := by
  induction second with
  | refl => simpa using first
  | tail _ last ih => rw [← List.append_assoc]; exact ih.tail last

/-- What every step keeps holds at the end. -/
theorem invariant {P : σ → Prop} (run : Run step s xs t) (start : P s)
    (keep : ∀ s xs t, P s → step s xs t → P t) : P t := by
  induction run with
  | refl => exact start
  | tail _ last ih => exact keep _ _ _ ih last

end Run

end Lts
