import Mathlib.Data.BitVec
import Gam.Lock.Range
import Gam.Transfer

/-!
# The slices of a request

A read or a write goes over the blocks of its range (`Cache::ReadWrite`, `ProcessLocalRead`,
`ProcessLocalWrite`). What it can copy at once it copies there; for the other blocks it sends a request for
the whole block, and the handler of the reply (`ProcessPendingRead`, `ProcessPendingWrite`) copies. Only the
copies are kept here, with the arithmetic of the source. What a block is ready for is left open.
-/

namespace Gam.Slices

/-- `BADD(i, 1)`. -/
def nextBlock (i : Word) : Word := toBlock (i + 4096#64)

/-- `OFF`. -/
def off (g : Word) : Word := g &&& 0xFFFFFFFFFFFF#64

/-- `TO_LOCAL`. -/
def toLocal (base g : Word) : Word := off g + base

inductive Op where
  | read | write
deriving DecidableEq, Repr

/-- The fields of a `WorkRequest` that a copy depends on. `ptr` is the buffer of the caller. -/
structure Request where
  op : Op
  addr : Word
  size : Word
  ptr : Word

/-- Where the blocks of a request are: in lines of the cache, or in the memory of the node itself. -/
inductive Store where
  | cache (line : Word → Word)
  | home (base : Word)

/-- `cline->line`, or `laddr`. -/
def Store.block (store : Store) (i : Word) : Word :=
  match store with
  | .cache line => line i
  | .home base => toLocal base i

/-- `cs` for the address `gs` of block `i`, or `ToLocal(gs)`. -/
def Store.slice (store : Store) (i gs : Word) : Word :=
  match store with
  | .cache line => line i + (gs - i)
  | .home base => toLocal base gs

/-- The arguments of a `memcpy`. -/
structure Copy where
  dst : Word
  src : Word
  len : Word

/-- `memcpy(ls, cs, len)` for a read and `memcpy(cs, ls, len)` for a write. -/
def Op.copy (op : Op) (ls cs len : Word) : Copy :=
  match op with
  | .read => ⟨ls, cs, len⟩
  | .write => ⟨cs, ls, len⟩

/-- The copy of the loops for block `i`. There the length is an `int`. -/
def loopCopy (store : Store) (wr : Request) (i : Word) : Copy :=
  let start := wr.addr
  let fin := wr.addr + wr.size
  let nextb := nextBlock i
  let gs := if start < i then i else start
  let ls := wr.ptr + (gs - start)
  let len : BitVec 32 := (if fin < nextb then fin - gs else nextb - gs).setWidth 32
  wr.op.copy ls (store.slice i gs) (len.signExtend 64)

/-- A request for a whole block, which is sent to another node. -/
structure BlockRequest where
  addr : Word
  size : Word
  ptr : Word

def blockRequest (store : Store) (i : Word) : BlockRequest := ⟨i, 4096#64, store.block i⟩

/-- The copy of the handlers of replies. -/
def replyCopy (parent : Request) (wr : BlockRequest) : Copy :=
  let pend := parent.addr + parent.size
  let fin := wr.addr + wr.size
  let gs := if parent.addr < wr.addr then wr.addr else parent.addr
  let ls := parent.ptr + (gs - parent.addr)
  let cs := wr.ptr + (gs - wr.addr)
  let len := if pend < fin then pend - gs else fin - gs
  parent.op.copy ls cs len

/-- What happens to a block in the loop: it is copied, it is asked for, it is copied in advance and asked
for (a write of a line that is shared), or it is in transition and the whole request is tried again later. -/
inductive Turn where
  | hit | miss | upgrade | inTransition
deriving DecidableEq, Repr

/-- What the loop did: the copies, the requests that are pending now, and whether it came to its end. -/
structure Outcome where
  copies : List Copy
  pending : List BlockRequest
  finished : Bool

/-- The loop over the blocks from `i` on. -/
def loop (store : Store) (wr : Request) (turn : Word → Turn) : Nat → Word → Option Outcome
  | 0, _ => none
  | rounds + 1, i =>
    if i < wr.addr + wr.size then match turn i with
      | .inTransition => some ⟨[], [], false⟩
      | .hit => (loop store wr turn rounds (nextBlock i)).map fun out => { out with copies := loopCopy store wr i :: out.copies }
      | .miss => (loop store wr turn rounds (nextBlock i)).map fun out => { out with pending := blockRequest store i :: out.pending }
      | .upgrade => (loop store wr turn rounds (nextBlock i)).map fun out =>
        { out with copies := loopCopy store wr i :: out.copies, pending := blockRequest store i :: out.pending }
    else some ⟨[], [], true⟩

/-- All that is copied for a request in some attempts and after the replies to what they asked for. -/
def copies (wr : Request) (outs : List Outcome) : List Copy :=
  outs.flatMap Outcome.copies ++ (outs.flatMap Outcome.pending).map (replyCopy wr)

/-- `memcpy`, byte by byte. -/
def Copy.transfer (c : Copy) : Transfer Word := fun a => if a - c.dst < c.len then some (c.src + (a - c.dst)) else none

end Gam.Slices
