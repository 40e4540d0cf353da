import Gam.Reply

/-! The branches of the handlers that the results name in their assumptions. -/

namespace Gam

def Reply.id : Reply → Nat
  | .imm id | .readReply id _ | .writeReply id _ _ => id

namespace BlockState
variable {Node : Type} [DecidableEq Node]

/-- A read at worker `n` hits a line in transition: in `CACHE_TO_INVALID`, or locked in
`CACHE_TO_DIRTY`. -/
def hitsMoving (n : Node) (s : BlockState Node) : Bool :=
  match s.line n with
  | none => false
  | some l => decide (l.state = .toInvalid ∨ (l.state = .toDirty ∧ l.locks.isBlockLocked = true))

/-- The answer `r` of worker `client` is the last one to a failed `WRITE_PERMISSION_ONLY` of worker
`n`, which goes back to `CACHE_SHARED`. -/
def undoesUpgrade (b : Block Node) (n client : Node) (r : Reply) (s : BlockState Node) : Bool :=
  match s.getPending n r.id with
  | none => false
  | some p =>
    decide (p.op = .access .writePermissionOnly) &&
      match r with
      | .imm _ => decide (p.status ≠ .success) && decide (countReply b client false p.counter = 0)
      | .readReply _ _ => false
      | .writeReply _ status counter =>
        if status ≠ .success then decide (client = b.wid) || decide (p.counter = 1)
        else decide (p.status ≠ .success) && decide (p.counter + counter = 0)

/-- Worker `n` agrees to the invalidation `c` of a locked line in `CACHE_TO_DIRTY` (deadlock
case 3). -/
def acksLocked (n : Node) (c : Command Node) (s : BlockState Node) : Bool :=
  match s.line n with
  | none => false
  | some l =>
    c.op.isInvalidate && decide (l.state = .toDirty) && l.locks.isBlockLocked && !c.flag.tryLock

end BlockState

end Gam
