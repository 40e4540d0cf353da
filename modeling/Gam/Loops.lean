import Mathlib.Data.List.Range

/-!
# Counting loops

Loops over a range as folds, and the rule that an invariant indexed by the counter holds at the end. A
computation `Returns` a value with a property unless it ends with one given error.
-/

namespace Gam
variable {σ : Type} {n : Nat} {s : σ} (Inv : Nat → σ → Prop)

/-- A loop that counts down from `first + n` to `first`. -/
theorem foldl_reverse_inv {first : Nat} {step : σ → Nat → σ} (start : Inv (first + n) s)
    (next : ∀ i, first ≤ i → i < first + n → ∀ s, Inv (i + 1) s → Inv i (step s i)) :
    Inv first ((List.range' first n).reverse.foldl step s) := by
  induction n generalizing first with
  | zero => exact start
  | succ n ih =>
    rw [List.range'_succ, List.reverse_cons, List.foldl_append]
    refine next first (Nat.le_refl _) (by omega) _ (ih ?_ fun i above below => next i (by omega) (by omega))
    rwa [Nat.add_right_comm, Nat.add_assoc]

/-- The value of a computation has the property `Q`, unless it ends with the error `e`. -/
def Returns {ε α : Type} (e : ε) (x : Except ε α) (Q : α → Prop) : Prop := x = .error e ∨ ∃ a, x = .ok a ∧ Q a

namespace Returns
variable {ε α β : Type} {e : ε} {x : Except ε α} {Q Q' : α → Prop} {R : β → Prop}

theorem ok {a : α} (holds : Q a) : Returns e (.ok a) Q := Or.inr ⟨a, rfl, holds⟩

theorem mono (returns : Returns e x Q) (weaker : ∀ a, Q a → Q' a) : Returns e x Q' :=
  returns.imp_right fun ⟨a, same, holds⟩ => ⟨a, same, weaker a holds⟩

theorem bind {f : α → Except ε β} (returns : Returns e x Q) (next : ∀ a, Q a → Returns e (f a) R) :
    Returns e (x >>= f) R := by
  rcases returns with rfl | ⟨a, rfl, holds⟩
  · exact Or.inl rfl
  · exact next a holds

/-- A loop whose rounds may end with the error. -/
theorem foldlM {first last : Nat} {step : σ → Nat → Except ε σ} (le : first ≤ last) (start : Inv first s)
    (next : ∀ i, first ≤ i → i < last → ∀ s, Inv i s → Returns e (step s i) (Inv (i + 1))) :
    Returns e ((List.range' first (last - first)).foldlM step s) (Inv last) := by
  obtain ⟨n, rfl⟩ := Nat.exists_eq_add_of_le le
  clear le
  rw [Nat.add_sub_cancel_left]
  induction n generalizing first s with
  | zero => exact ok start
  | succ n ih =>
    rw [List.range'_succ, List.foldlM_cons]
    refine (next first (Nat.le_refl _) (by omega) s start).bind fun s' inv => ?_
    rw [Nat.add_comm n, ← Nat.add_assoc]
    exact ih inv fun i above below => next i (by omega) (by omega)

end Returns

end Gam
