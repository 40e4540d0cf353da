import Gam.Memory
import Gam.Slab.Heap

/-!
# Requests that allocate

`ProcessLocalMalloc`, `ProcessRemoteMalloc` and `SetCLine`, with the part of a worker they use. What a
null pointer is used for is a fault; `conf->size * conf->cache_th` is known by what lies below it.
-/

namespace Gam.Slab

open Function

/-- What the language does not define: a write through a null pointer, the use of a client that is not
there, and a look-up in `stats_map` that fails. -/
inductive Fault where
  | nullWrite | nullClient | unknownChunk
deriving DecidableEq, Repr

structure Conf where
  belowReserve : UInt64 → Bool
  ghostTh : UInt64
  cacheOnly : Bool

structure Client where
  size : UInt64
  free : UInt64
deriving DecidableEq, Repr

/-- The buffer of a cache line, `none` for a null pointer, and its block. -/
structure CacheLine where
  line : Option Nat
  addr : UInt64
deriving DecidableEq, Repr

/-- A worker. The maps list the numbers of the workers in the order of iteration. -/
structure Worker where
  wid : Nat
  base : UInt64
  conf : Conf
  sb : SlabAllocator
  mem : Memory
  ghostSize : UInt64
  usedBytes : UInt64
  caches : UInt64 → Option CacheLine
  client : Nat → Client
  widCliMap : List Nat
  widCliMapWorker : List Nat

inductive Status where
  | success | allocError
deriving DecidableEq, Repr

/-- A `WorkRequest` for memory with its flags. -/
structure Request where
  addr : UInt64
  size : UInt64
  remote : Bool
  random : Bool
  aligned : Bool
deriving DecidableEq, Repr

/-- A request is sent to another worker, or answered. -/
inductive Outcome where
  | forwarded (wid : Nat)
  | answered (status : Status) (addr : UInt64)
deriving DecidableEq, Repr

namespace Worker

variable (w : Worker)

def allocate (wr : Request) (ok : Bool) : Option Nat × SlabAllocator :=
  if wr.aligned then w.sb.sbAlignedMalloc wr.size 4096 ok else w.sb.sbMalloc wr.size ok

/-- `GTOBLOCK`. -/
def toBlock (addr : UInt64) : UInt64 := addr &&& ~~~0xfff

/-- `SetCLine`. A line that is in the cache gets another buffer if one is given. -/
def setCLine (addr : UInt64) (line : Option Nat) (ok : Bool) : Except Fault (CacheLine × Worker) :=
  let block := toBlock addr
  match w.caches block, line with
  | some cl, none => .ok (cl, w)
  | some cl, some p =>
    match w.sb.sbFree (cl.line.getD 0) with
    | none => .error .unknownChunk
    | some sb =>
      let cl : CacheLine := { line := some p, addr := block }
      .ok (cl, { w with sb := sb, usedBytes := w.usedBytes - 4096, caches := update w.caches block (some cl) })
  | none, some p =>
    let cl : CacheLine := { line := some p, addr := 0 }
    .ok (cl, { w with caches := update w.caches block (some cl) })
  | none, none =>
    let (ptr, sb) := w.sb.sbAlignedMalloc (1 * 4096) 4096 ok
    let cl : CacheLine := { line := ptr, addr := block }
    .ok (cl, { w with
      sb := sb
      mem := match ptr with
        | some p => w.mem.store p (List.replicate 4096 0)
        | none => w.mem
      usedBytes := w.usedBytes + 4096
      caches := update w.caches block (some cl) })

end Worker

end Gam.Slab
