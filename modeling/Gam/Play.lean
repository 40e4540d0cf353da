import Gam.Runs

/-! Concrete runs of the cluster. -/

namespace Gam.Sys
variable {Node : Type} [DecidableEq Node]

/-- Take the given steps one after the other; one that cannot be taken is left out. -/
def play (s : Sys Node) (acts : List (Act Node)) : Sys Node :=
  acts.foldl (fun s act => (s.step act).getD s) s

/-- All steps of a list that can be taken are allowed. -/
def Allows (ok : Sys Node → Act Node → Prop) : Sys Node → List (Act Node) → Prop
  | _, [] => True
  | s, act :: acts => ok s act ∧ Allows ok ((s.step act).getD s) acts

instance decidableAllows (ok : Sys Node → Act Node → Prop) [∀ s act, Decidable (ok s act)] :
    (s : Sys Node) → (acts : List (Act Node)) → Decidable (Allows ok s acts)
  | _, [] => isTrue trivial
  | s, act :: acts =>
    have := decidableAllows ok ((s.step act).getD s) acts
    inferInstanceAs (Decidable (ok s act ∧ Allows ok ((s.step act).getD s) acts))

variable {ok : Sys Node → Act Node → Prop} {mem : Block Node → Data} {s : Sys Node}

theorem Reach.play {acts : List (Act Node)} (reach : Reach ok mem s) (allowed : Allows ok s acts) :
    Reach ok mem (s.play acts) := by
  induction acts generalizing s with
  | nil => exact reach
  | cons act acts ih =>
    have first : Reach ok mem ((s.step act).getD s) := by
      cases next : s.step act with
      | none => exact reach
      | some s' => exact reach.step allowed.1 next
    exact ih first allowed.2

theorem allows_any (acts : List (Act Node)) : Allows (fun _ _ => True) s acts := by
  induction acts generalizing s with
  | nil => trivial
  | cons act acts ih => exact ⟨trivial, ih⟩

/-- A request the library could build, for one byte at the start of block 0 of worker `home`. -/
def ask (rid : Nat) (node home : Nat) (op : Op) (tryLock : Bool) : Req Nat where
  rid := rid
  thread := ⟨node, rid⟩
  op := op
  addr := ⟨home, 0⟩
  size := 1
  async := match op with
    | .read | .rlock | .wlock => false
    | _ => true
  tryLock := tryLock
  buf _ := 1
  gfunc := none

/-- Worker 1 reads a block of worker 0, and keeps a shared copy. -/
def sharedBlock : List (Act Nat) :=
  [.issue (ask 0 1 0 .read false), .run 0 fun _ => 0, .run 7 fun _ => 0, .run 0 fun _ => 0,
    .deliver ⟨0, 0⟩ 1 0, .deliver ⟨0, 0⟩ 0 1, .deliver ⟨0, 0⟩ 0 1, .run 0 fun _ => 0, .run 0 fun _ => 0,
    .run 0 fun _ => 0]

/-! ### Many readers -/

section readers
variable {s : Sys Nat} {n first : Nat} {mem : Block Nat → Data}

/-- A thread asks for a read lock and gets it at once. -/
theorem play_rLock {rq : Req Nat} {bs : BlockState Nat} (op : rq.op = .rlock) (sync : rq.async = false)
    (plain : rq.gfunc = none) (idle : s.todo = []) (free : s.waiting rq.thread = none)
    (lowered : s.fence rq.thread = Fence.init) (unknown : s.isIssued rq.rid = false)
    (granted : (s.blk rq.addr.toBlock).step rq.addr.toBlock
      (.request rq.thread.node rq ⟨s.psn rq.thread.node + 1, 0, fun _ => 0⟩) = (bs, [.granted rq])) :
    let s' := s.play [.issue rq, .run 0 fun _ => 0, .run 0 fun _ => 0]
    s'.blk = Function.update s.blk rq.addr.toBlock bs ∧ s'.todo = [] ∧ s'.fence = s.fence ∧
      s'.waiting = s.waiting ∧ s'.log = [.returned rq, .granted rq, .started rq, .issued rq] ++ s.log := by
  have block : (⟨rq.addr.wid, rq.addr.toBlock.idx⟩ : Block Nat) = rq.addr.toBlock := rfl
  simp only [play, List.foldl_cons, List.foldl_nil]
  simp [step, issue, idle, free, wellFormed, op, sync, plain, unknown, perform, processLocalRequest, lockFence,
    lowered, Fence.init, Fence.isFenced, enter, blockRound, block, Sys.block, granted, emitAll, emit, isPostponed,
    finish]

/-- Nothing runs, and no request from number `first` on has been made at worker `n`. -/
structure Calm (n first : Nat) (s : Sys Nat) : Prop where
  todo : s.todo = []
  waiting : ∀ rid, first ≤ rid → s.waiting ⟨n, rid⟩ = none
  fence : ∀ rid, first ≤ rid → s.fence ⟨n, rid⟩ = Fence.init
  unknown : ∀ rid, first ≤ rid → s.isIssued rid = false

/-- As many threads of worker `n` as are given the lock hold it at the same time. -/
theorem Reach.readers (home : Nat) (holds : Nat → BlockState Nat → Prop) {most : Nat}
    (grant : ∀ k bs fresh, k < most → holds k bs → ∃ bs', bs.step ⟨home, 0⟩
      (.request n (ask (first + k) n home .rlock false) fresh) =
        (bs', [.granted (ask (first + k) n home .rlock false)]) ∧ holds (k + 1) bs')
    (reach : Reach (fun _ _ => True) mem s) (calm : Calm n first s) (start : holds 0 (s.blk ⟨home, 0⟩)) :
    ∀ k, k ≤ most → ∃ s', Reach (fun _ _ => True) mem s' ∧ Calm n (first + k) s' ∧ holds k (s'.blk ⟨home, 0⟩) := by
  intro k enough
  induction k with
  | zero => exact ⟨s, reach, calm, start⟩
  | succ k ih =>
    obtain ⟨s, reach, calm, held⟩ := ih (by omega)
    obtain ⟨bs, granted, held⟩ := grant k _ ⟨s.psn n + 1, 0, fun _ => 0⟩ (by omega) held
    have there : (ask (first + k) n home .rlock false).addr.toBlock = ⟨home, 0⟩ := by
      simp [ask, GAddr.toBlock]
    obtain ⟨blk, todo, fence, waiting, log⟩ := play_rLock
      (rfl : (ask (first + k) n home .rlock false).op = .rlock) rfl rfl calm.todo
      (calm.waiting (first + k) (Nat.le_refl _)) (calm.fence (first + k) (Nat.le_refl _))
      (calm.unknown (first + k) (Nat.le_refl _)) (by rw [there]; exact granted)
    refine ⟨_, reach.play (allows_any _), ⟨todo, fun rid later => ?_, fun rid later => ?_, fun rid later => ?_⟩, ?_⟩
    · rw [waiting]
      exact calm.waiting rid (by omega)
    · rw [fence]
      exact calm.fence rid (by omega)
    · have other : first + k ≠ rid := by omega
      have before := calm.unknown rid (by omega)
      simp only [isIssued] at before ⊢
      rw [log]
      simpa [ask, other] using before
    · rw [blk, there, Function.update_self]
      exact held

end readers

end Gam.Sys
