import Mathlib.Logic.Function.Basic
import Mathlib.Data.List.Basic

/-! Addresses, blocks, application requests and the messages workers exchange.
`Node` is the type of worker ids and stays a parameter of the whole development. -/

namespace Gam

/-- `BLOCK_SIZE` of `settings.h`. -/
def blockSize : Nat := 4096

abbrev Byte := UInt8

/-- The content of one block, by offset. -/
abbrev Data := Nat → Byte

/-- A global address: a worker id and an offset into the memory of that worker. The
shared list of a directory entry holds such addresses too, with the worker that
caches the block and the place of its line. -/
structure GAddr (Node : Type) where
  wid : Node
  off : Nat
deriving DecidableEq, Repr

/-- A block of the global memory; `wid` is its home. -/
structure Block (Node : Type) where
  wid : Node
  idx : Nat
deriving DecidableEq, Repr

/-- `TOBLOCK`. -/
def GAddr.toBlock {Node : Type} (a : GAddr Node) : Block Node := ⟨a.wid, a.off / blockSize⟩

/-- The operations an application thread can request. -/
inductive Op
  | read | write | rlock | wlock | unlock | mfence | sfence
deriving DecidableEq, Repr

/-- An application thread: the worker it runs on and its file descriptor there. -/
structure Thread (Node : Type) where
  node : Node
  fd : Nat
deriving DecidableEq, Repr

/-- A `WorkRequest` of an application thread, as far as it never changes. `rid` stands for
the identity of the request; `buf` is what a write copies, `gfunc` the function a write
with the flag `GFUNC` runs on the memory at a given offset instead. -/
structure Req (Node : Type) where
  rid : Nat
  thread : Thread Node
  op : Op
  addr : GAddr Node
  size : Nat
  async : Bool
  tryLock : Bool
  buf : Nat → Byte
  gfunc : Option (Nat → Data → Data)

namespace Req
variable {Node : Type}

/-- One past the last byte of the request. -/
def stop (rq : Req Node) : Nat := rq.addr.off + rq.size

/-- Does the request cover byte `j` of block `b`? -/
def covers (rq : Req Node) (b : Block Node) (j : Nat) : Prop :=
  rq.addr.off ≤ b.idx * blockSize + j ∧ b.idx * blockSize + j < rq.stop ∧ j < blockSize

instance (rq : Req Node) (b : Block Node) (j : Nat) : Decidable (rq.covers b j) :=
  inferInstanceAs (Decidable (_ ∧ _ ∧ _))

/-- What a write leaves in block `b`: the `memcpy` of the part of its buffer that falls into
the block, or its function run at the first byte of the request in the block. -/
def apply (rq : Req Node) (b : Block Node) (d : Data) : Data :=
  match rq.gfunc with
  | some f => f (rq.addr.off - b.idx * blockSize) d
  | none => fun j => if rq.covers b j then rq.buf (b.idx * blockSize + j - rq.addr.off) else d j

/-- The copy made before the permission for a write arrives; a function is not run then. -/
def early (rq : Req Node) (b : Block Node) (d : Data) : Data :=
  match rq.gfunc with
  | some _ => d
  | none => rq.apply b d

end Req

/-- The two flags of a request that other workers read. -/
structure Flag where
  locked : Bool
  tryLock : Bool
deriving DecidableEq, Repr

inductive Status
  | success | lockFailed | readError | writeError
deriving DecidableEq, Repr

inductive AccessOp
  | read | write | writePermissionOnly
deriving DecidableEq, Repr

/-- What a caching worker sends to the home of a block on its own account. -/
inductive Request
  | access (op : AccessOp) (id ptr : Nat) (flag : Flag)
  | activeInvalidate (ptr : Nat)
  | writeBack (id ptr : Nat)
deriving DecidableEq, Repr

/-- What the home asks of a worker that caches the block. A forwarded request carries the
line, the request id and the worker (`ptr`, `pid`, `pwid`) the data has to go to. -/
inductive CommandOp (Node : Type)
  | fetchAndShared
  | readForward (ptr pid : Nat) (pwid : Node)
  | fetchAndInvalidate
  | invalidate
  | invalidateForward
  | writeForward (ptr pid : Nat) (pwid : Node)
deriving DecidableEq, Repr

/-- Is it an invalidation of a shared copy? -/
def CommandOp.isInvalidate {Node : Type} : CommandOp Node → Bool
  | .invalidate | .invalidateForward => true
  | _ => false

structure Command (Node : Type) where
  op : CommandOp Node
  id : Nat
  flag : Flag
deriving DecidableEq, Repr

/-- Answers. `imm` is the immediate value of an RDMA write, the normal acknowledgement. -/
inductive Reply
  | imm (id : Nat)
  | readReply (id : Nat) (status : Status)
  | writeReply (id : Nat) (status : Status) (counter : Int)
deriving DecidableEq, Repr

inductive Msg (Node : Type)
  | request (r : Request)
  | command (c : Command Node)
  | reply (r : Reply)
deriving DecidableEq, Repr

/-- One element of a channel between two workers: an RDMA write into the home memory of
the block or into a line buffer, or a message. -/
inductive Item (Node : Type)
  | mem (d : Data)
  | line (ptr : Nat) (d : Data)
  | msg (m : Msg Node)

/-- The request of a remote worker that a pending work request at the home stands for. -/
structure Remote (Node : Type) where
  op : AccessOp
  id : Nat
  ptr : Nat
  wid : Node
deriving DecidableEq, Repr

inductive PendingOp (Node : Type)
  | access (op : AccessOp)
  | writeBack
  | pendingInvalidate
  | fetchAndShared
  | readForward (parent : Remote Node)
  | fetchAndInvalidate
  | invalidate
  | invalidateForward (parent : Remote Node)
  | writeForward (parent : Remote Node)
deriving DecidableEq, Repr

/-- An entry of `pending_works`; `parent` is the application request it serves. -/
structure Pending (Node : Type) where
  op : PendingOp Node
  id : Nat
  flag : Flag
  counter : Int
  status : Status
  parent : Option (Req Node)

end Gam
