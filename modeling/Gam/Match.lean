import Gam.Agreement
import Gam.Side

/-! When a step of the code is matched by steps of the abstract protocol, and the pieces of such
arguments that all handlers share. -/

namespace Gam
variable {Node : Type} [DecidableEq Node]

/-- The result of a handler is reached by the abstract protocol as well, in one step or none. -/
def Matched (g : Guard Node) (b : Block Node) (res : BlockState Node × List (Out Node)) (a : Abs Node) : Prop :=
  ∃ a', (res.2 = [] ∧ a' = a ∨ Abs.Step g b a res.2 a') ∧ Rel b res.1 a'

variable {g : Guard Node} {b : Block Node} {s s' : BlockState Node} {a a' : Abs Node} {n : Node}

theorem Matched.stay (rel : Rel b s' a) : Matched g b (s', []) a := ⟨a, Or.inl ⟨rfl, rfl⟩, rel⟩

theorem Matched.single {outs : List (Out Node)} (step : Abs.Step g b a outs a') (rel : Rel b s' a') :
    Matched g b (s', outs) a :=
  ⟨a', Or.inr step, rel⟩

/-- A request that finds locks is refused if it only tries to get one. -/
theorem Matched.tried {q : List (Node × Msg Node)} {locked tried : Bool} {x y z : BlockState Node}
    (refuse : tried = true → Matched g b (x.extend n q, []) a)
    (insist : locked = true → tried ≠ true → Matched g b (y.extend n q, []) a)
    (serve : locked ≠ true → Matched g b (z.extend n q, []) a) :
    Matched g b ((if locked = true then if tried = true then x else y else z).extend n q, []) a := by
  by_cases held : locked = true
  · rw [if_pos held]
    by_cases tries : tried = true
    · rw [if_pos tries]
      exact refuse tries
    · rw [if_neg tries]
      exact insist held tries
  · rw [if_neg held]
    exact serve held

/-- Nothing the home keeps has changed. -/
theorem HomeRel.congr (rel : HomeRel b s a) (entry : s'.entry = s.entry)
    (pending : s'.pending b.wid = s.pending b.wid) (line : s'.line b.wid = s.line b.wid)
    (completions : s'.completions b.wid = s.completions b.wid) (chan : s'.chan b.wid b.wid = s.chan b.wid b.wid)
    (toServe : s'.toServe b.wid = s.toServe b.wid) (mem : s'.mem = s.mem)
    (mems_eq : ∀ n, mems (s'.chan n b.wid) = mems (s.chan n b.wid))
    (homeEq : a'.home = a.home) (locks : a'.dirLocks = a.dirLocks) (memEq : a'.mem = a.mem) : HomeRel b s' a' := by
  constructor
  · rw [entry, homeEq, locks]; exact rel.entry
  · rw [pending, homeEq]; exact rel.pending
  · rw [line]; exact rel.line
  · rw [completions]; exact rel.completions
  · rw [chan]; exact rel.chan
  · rw [toServe]; exact rel.clients
  · intro n; rw [mems_eq, homeEq]; exact rel.writers n
  · rw [homeEq, mem, memEq]; simp only [mems_eq]; exact rel.mem

/-- Only worker `n` has changed. -/
theorem Rel.only (rel : Rel b s a) (home : HomeRel b s' a') (framed : s'.AllFramed)
    (others : ∀ m, m ≠ b.wid → m ≠ n → s'.side b m = s.side b m ∧ a'.local m = a.local m)
    (mine : n ≠ b.wid → (s'.side b n).Shows b.wid (a'.local n)) : Rel b s' a' := by
  refine ⟨home, fun m away => ?_, framed⟩
  by_cases same : m = n
  · subst m; exact mine away
  · obtain ⟨side, loc⟩ := others m away same
    rw [side, loc]
    exact rel.node m away

end Gam
