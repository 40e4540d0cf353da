import Gam.Invariant

/-! The changes of phase that a worker makes by itself, one lemma each. -/

namespace Gam.Phase.Moves
variable {Node : Type} [DecidableEq Node]
variable {op : AccessOp} {ptr id : Nat} {flag : Flag} {rq : Req Node} {stage : Stage Node}

attribute [local simp] Owns Shares Exclusive Waits IsServed IsHanded WellFormed

theorem miss (ai : Option Nat) : (absent ai : Phase Node).Moves (.miss op ptr id flag rq (.sent ai)) := by
  constructor <;> simp +contextual

theorem upgrade : (shared ptr : Phase Node).Moves (.miss .writePermissionOnly ptr id flag rq (.sent none)) := by
  constructor <;> simp +contextual

theorem evictShared : (shared ptr : Phase Node).Moves (.absent (some ptr)) := by
  constructor <;> simp +contextual

theorem evictDirty : (dirty ptr : Phase Node).Moves (.evicting ptr id) := by
  constructor <;> simp +contextual

theorem gone {ph : Phase Node} (left : ph = .evicted ptr id ∨ ∃ flag, ph = .leaving ptr id flag) :
    ph.Moves (.absent none) := by
  rcases left with rfl | ⟨flag, rfl⟩ <;> constructor <;> simp

theorem readDone (answer : (Phase.miss op ptr id flag rq stage).ReadAnswer true) :
    (Phase.miss op ptr id flag rq stage).Moves (.shared ptr) := by
  cases stage with
  | reply ok =>
    obtain ⟨rfl, rfl⟩ := answer
    constructor <;> simp
  | peer o ok =>
    obtain rfl : ok = true := answer
    constructor <;> simp
  | _ => exact answer.elim

theorem readFailed (answer : (Phase.miss op ptr id flag rq stage).ReadAnswer false) :
    (Phase.miss op ptr id flag rq stage).Moves (.absent none) := by
  cases stage with
  | reply ok =>
    obtain ⟨rfl, rfl⟩ := answer
    constructor <;> simp
  | peer o ok =>
    obtain rfl : ok = false := answer
    constructor <;> simp
  | _ => exact answer.elim

theorem writeDone (answer : (Phase.miss op ptr id flag rq stage).LastAnswer true) :
    (Phase.miss op ptr id flag rq stage).Moves (.dirty ptr) := by
  cases stage with
  | reply ok =>
    obtain ⟨write, rfl⟩ := answer
    constructor <;> simp +contextual [write]
  | hand o ok got home =>
    obtain ⟨rfl, ⟨rfl, rfl⟩ | ⟨rfl, rfl⟩⟩ := answer <;> constructor <;> simp
  | _ => exact answer.elim

theorem writeFailed (answer : (Phase.miss .write ptr id flag rq stage).LastAnswer false) :
    (Phase.miss .write ptr id flag rq stage).Moves (.absent none) := by
  cases stage with
  | reply ok =>
    obtain ⟨-, rfl⟩ := answer
    constructor <;> simp
  | hand o ok got home =>
    obtain ⟨rfl, ⟨rfl, rfl⟩ | ⟨rfl, rfl⟩⟩ := answer <;> constructor <;> simp
  | _ => exact answer.elim

theorem undoUpgrade (answer : (Phase.miss .writePermissionOnly ptr id flag rq stage).LastAnswer false) :
    (Phase.miss .writePermissionOnly ptr id flag rq stage).Moves (.shared ptr) := by
  cases stage with
  | reply ok =>
    obtain ⟨-, rfl⟩ := answer
    constructor <;> simp
  | hand o ok got home =>
    obtain ⟨rfl, ⟨rfl, rfl⟩ | ⟨rfl, rfl⟩⟩ := answer <;> constructor <;> simp
  | _ => exact answer.elim

theorem ownerAnswer {o : Node} {ok : Bool} {home : Leg} (early : home ≠ .got) :
    (Phase.miss op ptr id flag rq (.hand o ok false home)).Moves (.miss op ptr id flag rq (.hand o ok true home)) := by
  cases home <;> cases ok <;> constructor <;> simp_all

theorem homeAnswer {o : Node} {ok : Bool} : (Phase.miss op ptr id flag rq (.hand o ok false .onWay)).Moves
      (.miss op ptr id flag rq (.hand o ok false .got)) := by
  cases ok <;> constructor <;> simp_all

theorem readRefused :
    (Phase.miss .read ptr id flag rq (.sent none)).Moves (.miss .read ptr id flag rq (.reply false)) := by
  constructor <;> simp

theorem writeRefused : (Phase.miss op ptr id flag rq (.sent none)).Moves (.miss op ptr id flag rq (.reply false)) := by
  constructor <;> simp

end Gam.Phase.Moves
