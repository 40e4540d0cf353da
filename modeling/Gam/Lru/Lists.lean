import Gam.Cache

/-!
# The LRU lists of a cache

`LinkLRU` and both forms of `UnLinkLRU` (`cache.cc`) on lines that are named by their pointers. An update
of a list is one step, as under the lock of the list; which list is taken depends on random numbers and
on the locks that are free.
-/

namespace Gam.Lru

open Function

/-- `LRU_NUM`, which is also `sample_num`. -/
def lruNum : Nat := 10

/-- A `CacheLine` without its buffer; `pos` is `none` for -1. -/
structure Line (Node : Type) where
  addr : Block Node
  state : CacheState
  locks : Locks Node
  next : Option Nat := none
  prev : Option Nat := none
  pos : Option Nat := none

/-- The requests a cache waits for: those it sent for a block, and the completion of a write that carries
an evicted line or one that was fetched. -/
inductive PendingOp where
  | read | write | writePermissionOnly | writeBack | invalidate
deriving DecidableEq, Repr

/-- An entry of `pending_works` for a cached block; `lock` is the address of a lock request. -/
structure Pending (Node : Type) where
  block : Block Node
  op : PendingOp
  lock : Option (GAddr Node) := none

/-- A cache: its lines, its table, the ends of its lists, what it waits for and its counters. The buffers of
the lines are memory of the node, so the 64 bits of a counter do not run over. -/
structure State (Node : Type) where
  lines : Nat → Option (Line Node)
  caches : Block Node → Option Nat
  heads : Nat → Option Nat
  tails : Nat → Option Nat
  pending : List (Pending Node)
  usedBytes : Int
  toEvicted : Int

/-- What decides in which list `LinkLRU` puts a line: the random numbers, whether the lock of each of those
lists is free, whether it is free when the lists are tried in order, and a last random number. -/
structure Pick where
  draws : Nat → Nat
  free : Nat → Bool
  inOrder : Nat → Bool
  last : Nat

/-- The list that `LinkLRU` takes. -/
def Pick.list (pick : Pick) : Nat :=
  match (List.range lruNum).find? pick.free with
  | some j => pick.draws j % lruNum
  | none =>
    match (List.range lruNum).find? pick.inOrder with
    | some j => j
    | none => pick.last % lruNum

namespace State

variable {Node : Type}

/-- No lines, the heads and tails are null and the counters are zero. -/
def init : State Node := ⟨fun _ => none, fun _ => none, fun _ => none, fun _ => none, [], 0, 0⟩

/-- A change of the line at a pointer. -/
def modify (p : Nat) (f : Line Node → Line Node) (s : State Node) : State Node :=
  { s with lines := update s.lines p ((s.lines p).map f) }

/-- A change of the line at a pointer unless it is null. -/
def modifyAt (q : Option Nat) (f : Line Node → Line Node) (s : State Node) : State Node :=
  match q with
  | none => s
  | some q => s.modify q f

/-- `LinkLRU`. -/
def linkLRU (pick : Pick) (p : Nat) (s : State Node) : State Node :=
  let i := pick.list
  let front := s.heads i
  let s := s.modify p fun l => { l with pos := some i, prev := none, next := front }
  let s := s.modifyAt front fun l => { l with prev := some p }
  { s with
    heads := update s.heads i (some p)
    tails := if s.tails i = none then update s.tails i (some p) else s.tails }

/-- `UnLinkLRU(cline, i)`, which leaves `pos` as it is. -/
def unLinkAt (p i : Nat) (s : State Node) : State Node :=
  match s.lines p with
  | none => s
  | some l =>
    let s := { s with
      heads := if s.heads i = some p then update s.heads i l.next else s.heads
      tails := if s.tails i = some p then update s.tails i l.prev else s.tails }
    let s := s.modifyAt l.next fun x => { x with prev := l.prev }
    let s := s.modifyAt l.prev fun x => { x with next := l.next }
    s.modify p fun x => { x with next := none, prev := none }

/-- `UnLinkLRU(cline)`. -/
def unLinkLRU (p : Nat) (s : State Node) : State Node :=
  match (s.lines p).bind Line.pos with
  | none => s
  | some i => (s.modify p fun l => { l with pos := none }).unLinkAt p i

end State

end Gam.Lru
