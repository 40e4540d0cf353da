import Gam.Phase

/-! The protocol of one block without channels and queues: what can happen to the phases of the
workers, the state of the home, the copies of the block and the locks. Every handler of the
code performs at most one of these steps at a time. -/

namespace Gam

open Function
variable {Node : Type} [DecidableEq Node]

/-- The abstract state of a block. `raw` is what the line of a worker holds now, `copy` what it
holds once the data under way to it has landed; `mem` is the home memory in the same sense. -/
structure Abs (Node : Type) where
  home : Home Node
  phase : Node → Phase Node
  raw : Node → Data
  copy : Node → Data
  mem : Data
  locks : Node → Locks Node
  dirLocks : Locks Node

namespace Abs

@[simps -fullyApplied] def setHome (a : Abs Node) (home : Home Node) : Abs Node := { a with home }
@[simps -fullyApplied] def setMem (a : Abs Node) (mem : Data) : Abs Node := { a with mem }
@[simps -fullyApplied] def setDirLocks (a : Abs Node) (dirLocks : Locks Node) : Abs Node := { a with dirLocks }

@[simps -fullyApplied] def setPhase (a : Abs Node) (n : Node) (ph : Phase Node) : Abs Node :=
  { a with phase := update a.phase n ph }

@[simp] theorem setPhase_self (a : Abs Node) (n : Node) : a.setPhase n (a.phase n) = a := by
  simp [setPhase]

@[simps -fullyApplied] def setLocks (a : Abs Node) (n : Node) (t : Locks Node) : Abs Node :=
  { a with locks := update a.locks n t }

/-- Data is on its way to the line of worker `n`. -/
@[simps -fullyApplied] def post (a : Abs Node) (n : Node) (d : Data) : Abs Node :=
  { a with copy := update a.copy n d }

@[simp] theorem post_self (a : Abs Node) (n : Node) : a.post n (a.copy n) = a := by
  simp [post]

/-- The line of worker `n` is written in place. -/
@[simps -fullyApplied] def setData (a : Abs Node) (n : Node) (d : Data) : Abs Node :=
  { a with raw := update a.raw n d, copy := update a.copy n d }

def init (mem : Data) : Abs Node where
  home := .unshared
  phase _ := .absent none
  raw _ := fun _ => 0
  copy _ := fun _ => 0
  mem := mem
  locks _ := ∅
  dirLocks := ∅

end Abs

namespace Phase

/-- Lines whose content serves reads, in or out of transition. -/
def Readable : Phase Node → Prop
  | .shared _ | .dirty _ | .evicting _ _ | .evicted _ _ | .leaving _ _ _ => True
  | _ => False

/-- A line that is not in transition. -/
def Stable : Phase Node → Prop
  | .shared _ | .dirty _ => True
  | _ => False

/-- A line in transition. -/
def Moving : Phase Node → Prop
  | .absent _ | .shared _ | .dirty _ => False
  | _ => True

def HasLine : Phase Node → Prop
  | .absent _ => False
  | _ => True

/-- The next answer to a write request is the last one, and says whether it succeeded. -/
def LastAnswer : Phase Node → Bool → Prop
  | .miss op _ _ _ _ (.reply ok), res => op ≠ .read ∧ ok = res
  | .miss _ _ _ _ _ (.hand _ ok got home), res =>
    ok = res ∧ ((got = true ∧ home = .onWay) ∨ (got = false ∧ home = .got))
  | _, _ => False

/-- The next answer to a read request says whether it succeeded. -/
def ReadAnswer : Phase Node → Bool → Prop
  | .miss op _ _ _ _ (.reply ok), res => op = .read ∧ ok = res
  | .miss _ _ _ _ _ (.peer _ ok), res => ok = res
  | _, _ => False

end Phase

namespace Home

/-- `Directory::Clear`. -/
def clear (addr : GAddr Node) : Home Node → Home Node
  | .shared L =>
    let left := L.filter fun a => decide (a ≠ addr)
    if left.isEmpty then .unshared else .shared left
  | .dirty o => if o = addr then .unshared else .dirty o
  | home => home

/-- Neither in transition nor owned by a caching worker. -/
def Idle : Home Node → Prop
  | .unshared | .shared _ => True
  | _ => False

/-- Not in transition. -/
def Settled : Home Node → Prop
  | .unshared | .shared _ | .dirty _ => True
  | _ => False

/-- Everyone in `who` is asked. -/
def askAll (who : List Node) : Node → Option Answer :=
  fun n => if n ∈ who then some .opened else none

/-- Worker `n` has been heard. -/
def heard (answer : Node → Option Answer) (n : Node) : Node → Option Answer :=
  update answer n none

/-- The shared list after the answer of worker `n`: it leaves the list when it has agreed. -/
def hear (L : List (GAddr Node)) (n : Node) (ok : Bool) : List (GAddr Node) :=
  if ok then L.eraseP fun a => decide (a.wid = n) else L

/-- The status of a round after one more answer. -/
def verdict (status : Status) (ok : Bool) : Status := if ok then status else .lockFailed

end Home

namespace Req

/-- The flags a request is sent with. -/
def flag (rq : Req Node) : Flag := ⟨decide (rq.op = .rlock ∨ rq.op = .wlock), rq.tryLock⟩

/-- Does it need a copy, or ownership? -/
def Reads (rq : Req Node) : Prop := rq.op = .read ∨ rq.op = .rlock
def Writes (rq : Req Node) : Prop := rq.op = .write ∨ rq.op = .wlock

end Req

/-- What a result assumes about the runs it speaks of: the requests of each worker, when a line in
transition may serve a read, when a failed upgrade may go back to its shared copy, and when a
locked line may agree to an invalidation. -/
structure Guard (Node : Type) where
  req : Node → Req Node → Prop
  hit : Abs Node → Node → Req Node → Prop
  undo : Abs Node → Node → Prop
  ack : Abs Node → Node → Prop

namespace Abs

/-- Worker `n` is in the middle of something, or locks hold the block there. -/
def Busy (b : Block Node) (a : Abs Node) (n : Node) : Prop :=
  if n = b.wid then ¬ a.home.Settled ∨ a.dirLocks.isBlockLocked = true
  else (a.phase n).Moving ∨ (a.locks n).isBlockLocked = true

/-- A write of the home has everything it waited for. A write lock waits on when readers of
the home hold the address. -/
inductive HomeWritten (b : Block Node) (rq : Req Node) (flag : Flag) (a : Abs Node) :
    List (Out Node) → Abs Node → Prop
  | applied (unlocked : flag.locked = false) :
    HomeWritten b rq flag a [.applied rq, .replied rq, .process b.wid] (a.setMem (rq.apply b a.mem))
  | granted (locked : flag.locked = true) (free : ∀ k, a.dirLocks.lookup rq.addr = some k → k ≤ 0) :
    HomeWritten b rq flag a [.granted rq, .decremented rq, .notify rq, .process b.wid] (a.setDirLocks (Locks.exclude rq.addr a.dirLocks))
  | waits (locked : flag.locked = true) (k : Int) (held : a.dirLocks.lookup rq.addr = some k)
    (positive : 0 < k) :
    HomeWritten b rq flag a [.decremented rq, .postponed rq, .process b.wid] a

/-- Worker `n` agrees to an invalidation: an unlocked copy is dropped; a line in
`CACHE_TO_DIRTY` or `CACHE_TO_INVALID`, locked or not, stays as it is. -/
inductive Invalidated (g : Guard Node) (a : Abs Node) (n : Node) : Phase Node → Prop
  | drops (ptr : Nat) (phase : a.phase n = .shared ptr)
    (unlocked : (a.locks n).isBlockLocked = false) : Invalidated g a n (.absent none)
  | lacks (ai : Option Nat) (phase : a.phase n = .absent ai) : Invalidated g a n (.absent ai)
  | evicts (ptr id : Nat) (phase : a.phase n = .evicting ptr id) :
    Invalidated g a n (.evicting ptr id)
  | writes (op : AccessOp) (ptr id : Nat) (flag : Flag) (rq : Req Node) (stage : Stage Node)
    (phase : a.phase n = .miss op ptr id flag rq stage) (write : op ≠ .read)
    (unanswered : (a.phase n).replies = [])
    (allowed : (a.locks n).isBlockLocked = true → g.ack a n) :
    Invalidated g a n (.miss op ptr id flag rq stage)

/-- One step of the protocol of block `b`, with what the handler tells the requests. -/
inductive Step (g : Guard Node) (b : Block Node) (a : Abs Node) : List (Out Node) → Abs Node → Prop
  -- a caching worker by itself
  | readHit (n : Node) (rq : Req Node) (away : n ≠ b.wid) (mine : g.req n rq) (op : rq.op = .read)
    (readable : (a.phase n).Readable) (allowed : ¬ (a.phase n).Stable → g.hit a n rq) :
    Step g b a [.served rq (a.raw n)] a
  | readUpgrading (n : Node) (rq : Req Node) (away : n ≠ b.wid) (mine : g.req n rq)
    (opEq : rq.op = .read) (op : AccessOp) (ptr id : Nat) (flag : Flag) (rq' : Req Node)
    (stage : Stage Node) (phase : a.phase n = .miss op ptr id flag rq' stage) (write : op ≠ .read)
    (locked : (a.locks n).isBlockLocked = true) (allowed : g.hit a n rq) :
    Step g b a [.served rq (a.raw n)] a
  | writeHit (n : Node) (rq : Req Node) (away : n ≠ b.wid) (mine : g.req n rq) (op : rq.op = .write)
    (ptr : Nat) (phase : a.phase n = .dirty ptr) :
    Step g b a [.applied rq] (a.setData n (rq.apply b (a.copy n)))
  | rLockHit (n : Node) (rq : Req Node) (away : n ≠ b.wid) (mine : g.req n rq) (op : rq.op = .rlock)
    (stable : (a.phase n).Stable) (free : Cache.isWLocked rq.addr (a.locks n) = false) :
    Step g b a [.granted rq] (a.setLocks n (Locks.share rq.addr (a.locks n)))
  | wLockHit (n : Node) (rq : Req Node) (away : n ≠ b.wid) (mine : g.req n rq) (op : rq.op = .wlock)
    (ptr : Nat) (phase : a.phase n = .dirty ptr)
    (free : Cache.isWLocked rq.addr (a.locks n) = false)
    (free' : Cache.isRLocked rq.addr (a.locks n) = false) :
    Step g b a [.granted rq] (a.setLocks n (Locks.exclude rq.addr (a.locks n)))
  | refused (n : Node) (rq : Req Node) (mine : g.req n rq) (tried : rq.tryLock = true)
    (lock : rq.op = .rlock ∨ rq.op = .wlock) : Step g b a [.refused rq] a
  | postponed (n : Node) (rq : Req Node) (mine : g.req n rq) (kind : rq.Reads ∨ rq.Writes)
    (busy : a.Busy b n) :
    Step g b a [.postponed rq] a
  | unLock (n : Node) (rq : Req Node) (away : n ≠ b.wid) (mine : g.req n rq) (op : rq.op = .unlock)
    (cached : (a.phase n).HasLine) :
    Step g b a [.released rq, .process n] (a.setLocks n (Cache.releaseLock rq.addr (a.locks n)))
  | unLockNothing (n : Node) (rq : Req Node) (mine : g.req n rq) (op : rq.op = .unlock)
    (nothing : if n = b.wid then a.dirLocks = ∅ else ¬ (a.phase n).HasLine) :
    Step g b a [.released rq, .process n] a
  | miss (n : Node) (rq : Req Node) (away : n ≠ b.wid) (mine : g.req n rq) (op : AccessOp)
    (ptr id : Nat) (d : Data) (ai : Option Nat) (phase : a.phase n = .absent ai)
    (fetch : op ≠ .writePermissionOnly) (kind : if op = .read then rq.Reads else rq.Writes) :
    Step g b a [.sent rq] ((a.setPhase n (.miss op ptr id rq.flag rq (.sent ai))).setData n d)
  | upgrade (n : Node) (rq : Req Node) (away : n ≠ b.wid) (mine : g.req n rq) (ptr id : Nat)
    (d : Data) (phase : a.phase n = .shared ptr) (kind : rq.Writes)
    (data : d = if rq.flag.locked then a.copy n else rq.early b (a.copy n)) :
    Step g b a [.sent rq]
      ((a.setPhase n (.miss .writePermissionOnly ptr id rq.flag rq (.sent none))).setData n d)
  | evictShared (n : Node) (away : n ≠ b.wid) (ptr : Nat) (phase : a.phase n = .shared ptr)
    (unlocked : (a.locks n).isBlockLocked = false) :
    Step g b a [] (a.setPhase n (.absent (some ptr)))
  | evictDirty (n : Node) (away : n ≠ b.wid) (ptr id : Nat) (phase : a.phase n = .dirty ptr)
    (unlocked : (a.locks n).isBlockLocked = false) :
    Step g b a [] ((a.setPhase n (.evicting ptr id)).setMem (a.copy n))
  -- answers reach a caching worker
  | land (n : Node) (away : n ≠ b.wid) : Step g b a [] { a with raw := update a.raw n (a.copy n) }
  | readDone (n : Node) (rq : Req Node) (away : n ≠ b.wid) (op : AccessOp) (ptr id : Nat)
    (flag : Flag) (stage : Stage Node) (phase : a.phase n = .miss op ptr id flag rq stage)
    (answer : (a.phase n).ReadAnswer true) (unlocked : flag.locked = false)
    (landed : a.raw n = a.copy n) :
    Step g b a [.served rq (a.copy n), .replied rq, .process n] (a.setPhase n (.shared ptr))
  | rLockDone (n : Node) (rq : Req Node) (away : n ≠ b.wid) (op : AccessOp) (ptr id : Nat)
    (flag : Flag) (stage : Stage Node) (phase : a.phase n = .miss op ptr id flag rq stage)
    (answer : (a.phase n).ReadAnswer true) (locked : flag.locked = true)
    (free : Cache.isWLocked rq.addr (a.locks n) = false) (landed : a.raw n = a.copy n) :
    Step g b a [.granted rq, .replied rq, .process n]
      ((a.setPhase n (.shared ptr)).setLocks n (Locks.share rq.addr (a.locks n)))
  | rLockLost (n : Node) (rq : Req Node) (away : n ≠ b.wid) (op : AccessOp) (ptr id : Nat)
    (flag : Flag) (stage : Stage Node) (phase : a.phase n = .miss op ptr id flag rq stage)
    (answer : (a.phase n).ReadAnswer true) (locked : flag.locked = true)
    (taken : Cache.isWLocked rq.addr (a.locks n) = true) (landed : a.raw n = a.copy n) :
    Step g b a [.replied rq, .process n] (a.setPhase n (.shared ptr))
  | readFailed (n : Node) (rq : Req Node) (away : n ≠ b.wid) (op : AccessOp) (ptr id : Nat)
    (flag : Flag) (stage : Stage Node) (phase : a.phase n = .miss op ptr id flag rq stage)
    (answer : (a.phase n).ReadAnswer false) :
    Step g b a [.refused rq, .notify rq, .process n] ((a.setPhase n (.absent none)).setLocks n ∅)
  | ownerAnswer (n : Node) (away : n ≠ b.wid) (op : AccessOp) (ptr id : Nat) (flag : Flag)
    (rq : Req Node) (o : Node) (ok : Bool) (home : Leg) (early : home ≠ .got)
    (phase : a.phase n = .miss op ptr id flag rq (.hand o ok false home)) :
    Step g b a [] (a.setPhase n (.miss op ptr id flag rq (.hand o ok true home)))
  | homeAnswer (n : Node) (away : n ≠ b.wid) (op : AccessOp) (ptr id : Nat) (flag : Flag)
    (rq : Req Node) (o : Node) (ok : Bool)
    (phase : a.phase n = .miss op ptr id flag rq (.hand o ok false .onWay)) :
    Step g b a [] (a.setPhase n (.miss op ptr id flag rq (.hand o ok false .got)))
  | writeDone (n : Node) (rq : Req Node) (away : n ≠ b.wid) (op : AccessOp) (ptr id : Nat)
    (flag : Flag) (stage : Stage Node) (phase : a.phase n = .miss op ptr id flag rq stage)
    (answer : (a.phase n).LastAnswer true) (unlocked : flag.locked = false)
    (landed : a.raw n = a.copy n) :
    Step g b a [.applied rq, .replied rq, .process n] ((a.setPhase n (.dirty ptr)).setData n (rq.apply b (a.copy n)))
  | wLockDone (n : Node) (rq : Req Node) (away : n ≠ b.wid) (op : AccessOp) (ptr id : Nat)
    (flag : Flag) (stage : Stage Node) (phase : a.phase n = .miss op ptr id flag rq stage)
    (answer : (a.phase n).LastAnswer true) (locked : flag.locked = true)
    (free : Cache.isWLocked rq.addr (a.locks n) = false)
    (free' : Cache.isRLocked rq.addr (a.locks n) = false) (landed : a.raw n = a.copy n) :
    Step g b a [.granted rq, .decremented rq, .notify rq, .process n]
      ((a.setPhase n (.dirty ptr)).setLocks n (Locks.exclude rq.addr (a.locks n)))
  | wLockWaits (n : Node) (rq : Req Node) (away : n ≠ b.wid) (op : AccessOp) (ptr id : Nat)
    (flag : Flag) (stage : Stage Node) (phase : a.phase n = .miss op ptr id flag rq stage)
    (answer : (a.phase n).LastAnswer true) (locked : flag.locked = true)
    (held : (a.locks n).isBlockLocked = true) (landed : a.raw n = a.copy n) :
    Step g b a [.decremented rq, .postponed rq, .process n] (a.setPhase n (.dirty ptr))
  | writeFailed (n : Node) (rq : Req Node) (away : n ≠ b.wid) (ptr id : Nat) (flag : Flag)
    (stage : Stage Node) (phase : a.phase n = .miss .write ptr id flag rq stage)
    (answer : (a.phase n).LastAnswer false) :
    Step g b a (BlockState.giveUp n rq) ((a.setPhase n (.absent none)).setLocks n ∅)
  | undoUpgrade (n : Node) (rq : Req Node) (away : n ≠ b.wid) (ptr id : Nat) (flag : Flag)
    (stage : Stage Node) (phase : a.phase n = .miss .writePermissionOnly ptr id flag rq stage)
    (answer : (a.phase n).LastAnswer false) (allowed : g.undo a n) :
    Step g b a (BlockState.giveUp n rq) (a.setPhase n (.shared ptr))
  | gone (n : Node) (away : n ≠ b.wid) (ptr id : Nat)
    (phase : a.phase n = .evicted ptr id ∨ ∃ flag, a.phase n = .leaving ptr id flag) :
    Step g b a [.process n] ((a.setPhase n (.absent none)).setLocks n ∅)
  -- the home by itself
  | homeRead (rq : Req Node) (mine : g.req b.wid rq) (op : rq.op = .read) (idle : a.home.Idle) :
    Step g b a [.served rq a.mem] a
  | homeWrite (rq : Req Node) (mine : g.req b.wid rq) (op : rq.op = .write)
    (unshared : a.home = .unshared) : Step g b a [.applied rq] (a.setMem (rq.apply b a.mem))
  | homeRLock (rq : Req Node) (mine : g.req b.wid rq) (op : rq.op = .rlock) (idle : a.home.Idle)
    (free : a.home = .unshared → a.dirLocks.lookup rq.addr ≠ some exclusiveLockTag) :
    Step g b a [.granted rq] (a.setDirLocks (Locks.share rq.addr a.dirLocks))
  | homeWLock (rq : Req Node) (mine : g.req b.wid rq) (op : rq.op = .wlock)
    (unshared : a.home = .unshared) (free : ∀ k, a.dirLocks.lookup rq.addr = some k → k ≤ 0) :
    Step g b a [.granted rq] (a.setDirLocks (Locks.exclude rq.addr a.dirLocks))
  | homeUnLock (rq : Req Node) (mine : g.req b.wid rq) (op : rq.op = .unlock) :
    Step g b a [.released rq, .process b.wid]
      (a.setDirLocks (Directory.releaseLock rq.addr ⟨a.home.dirState, a.home.sharers, a.dirLocks⟩))
  | fetchShared (rq : Req Node) (mine : g.req b.wid rq) (kind : rq.Reads) (id : Nat) (o : GAddr Node)
    (dirty : a.home = .dirty o) :
    Step g b a [.sent rq] (a.setHome (.fetchShared rq id rq.flag o .opened))
  | fetchInvalidate (rq : Req Node) (mine : g.req b.wid rq) (kind : rq.Writes) (id : Nat)
    (o : GAddr Node) (dirty : a.home = .dirty o) :
    Step g b a [.sent rq] (a.setHome (.fetchInvalidate rq id rq.flag o .opened))
  | invalidate (rq : Req Node) (mine : g.req b.wid rq) (kind : rq.Writes) (id : Nat)
    (L : List (GAddr Node)) (shared : a.home = .shared L) :
    Step g b a [.sent rq]
      (a.setHome (.invalidate rq id rq.flag L (Home.askAll (L.map GAddr.wid)) .success))
  -- the home serves a request of worker `c`
  | readRefused (c : Node) (away : c ≠ b.wid) (ptr id : Nat) (flag : Flag) (rq : Req Node)
    (phase : a.phase c = .miss .read ptr id flag rq (.sent none)) (idle : a.home.Idle)
    (tried : flag.tryLock = true) :
    Step g b a [] (a.setPhase c (.miss .read ptr id flag rq (.reply false)))
  | readServed (c : Node) (away : c ≠ b.wid) (ptr id : Nat) (flag : Flag) (rq : Req Node)
    (phase : a.phase c = .miss .read ptr id flag rq (.sent none)) (idle : a.home.Idle)
    (unlocked : a.dirLocks.isBlockWLocked = false) :
    Step g b a []
      (((a.setPhase c (.miss .read ptr id flag rq (.reply true))).setHome
        (.shared (a.home.sharers ++ [⟨c, ptr⟩]))).post c a.mem)
  | readForwarded (c : Node) (away : c ≠ b.wid) (ptr id : Nat) (flag : Flag) (rq : Req Node)
    (newId : Nat) (o : GAddr Node)
    (phase : a.phase c = .miss .read ptr id flag rq (.sent none)) (dirty : a.home = .dirty o) :
    Step g b a []
      ((a.setPhase c (.miss .read ptr id flag rq .served)).setHome
        (.readForward ⟨.read, id, ptr, c⟩ newId flag o .opened))
  | writeRefused (c : Node) (away : c ≠ b.wid) (op : AccessOp) (ptr id : Nat) (flag : Flag)
    (rq : Req Node) (phase : a.phase c = .miss op ptr id flag rq (.sent none)) (write : op ≠ .read)
    (idle : a.home.Idle) (tried : flag.tryLock = true) :
    Step g b a [] (a.setPhase c (.miss op ptr id flag rq (.reply false)))
  | writeGranted (c : Node) (away : c ≠ b.wid) (op : AccessOp) (ptr id : Nat) (flag : Flag)
    (rq : Req Node) (phase : a.phase c = .miss op ptr id flag rq (.sent none)) (write : op ≠ .read)
    (unshared : a.home = .unshared) (unlocked : a.dirLocks.isBlockLocked = false) :
    Step g b a []
      (((a.setPhase c (.miss op ptr id flag rq (.reply true))).setHome (.dirty ⟨c, ptr⟩)).post c a.mem)
  | upgradeGranted (c : Node) (away : c ≠ b.wid) (op : AccessOp) (ptr id : Nat) (flag : Flag)
    (rq : Req Node) (L : List (GAddr Node))
    (phase : a.phase c = .miss op ptr id flag rq (.sent none)) (write : op ≠ .read)
    (shared : a.home = .shared L) (only : ∀ x ∈ L, x.wid = c)
    (unlocked : a.dirLocks.isBlockLocked = false) :
    Step g b a []
      ((a.setPhase c (.miss op ptr id flag rq (.reply true))).setHome (.dirty ⟨c, ptr⟩))
  | writeInvalidates (c : Node) (away : c ≠ b.wid) (op : AccessOp) (ptr id : Nat) (flag : Flag)
    (rq : Req Node) (newId : Nat) (L : List (GAddr Node))
    (phase : a.phase c = .miss op ptr id flag rq (.sent none)) (write : op ≠ .read)
    (shared : a.home = .shared L) (others : ∃ x ∈ L, x.wid ≠ c)
    (unlocked : a.dirLocks.isBlockLocked = false) :
    Step g b a []
      ((a.setPhase c (.miss op ptr id flag rq .served)).setHome (.invalidateForward ⟨op, id, ptr, c⟩ newId flag L
          (Home.askAll ((L.map GAddr.wid).filter fun n => decide (n ≠ c))) .success))
  | writeForwarded (c : Node) (away : c ≠ b.wid) (op : AccessOp) (ptr id : Nat) (flag : Flag)
    (rq : Req Node) (newId : Nat) (o : GAddr Node)
    (phase : a.phase c = .miss op ptr id flag rq (.sent none)) (write : op ≠ .read)
    (dirty : a.home = .dirty o) :
    Step g b a []
      ((a.setPhase c (.miss op ptr id flag rq .served)).setHome (.writeForward ⟨op, id, ptr, c⟩ newId flag o .opened))
  | dropped (c : Node) (away : c ≠ b.wid) (ptr : Nat) (settled : a.home.Settled)
    (phase : a.phase c = .absent (some ptr)) :
    Step g b a [] ((a.setPhase c (.absent none)).setHome (a.home.clear ⟨c, ptr⟩))
  | droppedFirst (c : Node) (away : c ≠ b.wid) (ptr : Nat) (settled : a.home.Settled)
    (op : AccessOp) (ptr' id : Nat) (flag : Flag) (rq : Req Node)
    (phase : a.phase c = .miss op ptr' id flag rq (.sent (some ptr))) :
    Step g b a []
      ((a.setPhase c (.miss op ptr' id flag rq (.sent none))).setHome (a.home.clear ⟨c, ptr⟩))
  | writtenBack (c : Node) (away : c ≠ b.wid) (ptr id : Nat) (settled : a.home.Settled)
    (phase : a.phase c = .evicting ptr id) :
    Step g b a [] ((a.setPhase c (.evicted ptr id)).setHome (a.home.clear ⟨c, ptr⟩))
  -- the owner answers a command
  | fetchRefused (rq : Req Node) (id : Nat) (flag : Flag) (o : GAddr Node) (tried : flag.tryLock = true)
    (home : a.home = .fetchShared rq id flag o .opened) :
    Step g b a [] (a.setHome (.fetchShared rq id flag o (.acked false)))
  | takeRefused (rq : Req Node) (id : Nat) (flag : Flag) (o : GAddr Node) (tried : flag.tryLock = true)
    (home : a.home = .fetchInvalidate rq id flag o .opened) :
    Step g b a [] (a.setHome (.fetchInvalidate rq id flag o (.acked false)))
  | readForwardRefused (r : Remote Node) (id : Nat) (flag : Flag) (o : GAddr Node)
    (tried : flag.tryLock = true) (home : a.home = .readForward r id flag o .opened) (rq : Req Node)
    (phase : a.phase r.wid = .miss r.op r.ptr r.id flag rq .served) :
    Step g b a []
      ((a.setPhase r.wid (.miss r.op r.ptr r.id flag rq (.peer o.wid false))).setHome
        (.readForward r id flag o (.acked false)))
  | writeForwardRefused (r : Remote Node) (id : Nat) (flag : Flag) (o : GAddr Node)
    (tried : flag.tryLock = true) (home : a.home = .writeForward r id flag o .opened) (rq : Req Node)
    (phase : a.phase r.wid = .miss r.op r.ptr r.id flag rq .served) :
    Step g b a []
      ((a.setPhase r.wid (.miss r.op r.ptr r.id flag rq (.hand o.wid false false .due))).setHome
        (.writeForward r id flag o (.acked false)))
  | fetched (rq : Req Node) (id : Nat) (flag : Flag) (o : GAddr Node) (ph : Phase Node)
    (home : a.home = .fetchShared rq id flag o .opened)
    (keeps : (a.phase o.wid = .dirty o.off ∧ ph = .shared o.off) ∨
      (∃ id', a.phase o.wid = .evicting o.off id') ∧ ph = a.phase o.wid)
    (unlocked : (a.locks o.wid).isBlockWLocked = false) :
    Step g b a []
      (((a.setPhase o.wid ph).setHome (.fetchShared rq id flag o (.acked true))).setMem (a.copy o.wid))
  | readForwardAnswered (r : Remote Node) (id : Nat) (flag : Flag) (o : GAddr Node) (ph : Phase Node)
    (home : a.home = .readForward r id flag o .opened) (rq : Req Node)
    (phase : a.phase r.wid = .miss r.op r.ptr r.id flag rq .served)
    (keeps : (a.phase o.wid = .dirty o.off ∧ ph = .shared o.off) ∨
      (∃ id', a.phase o.wid = .evicting o.off id') ∧ ph = a.phase o.wid)
    (unlocked : (a.locks o.wid).isBlockWLocked = false) :
    Step g b a []
      (((((a.setPhase o.wid ph).setPhase r.wid (.miss r.op r.ptr r.id flag rq (.peer o.wid true))).setHome
          (.readForward r id flag o (.acked true))).setMem (a.copy o.wid)).post r.wid (a.copy o.wid))
  | taken (rq : Req Node) (id : Nat) (flag : Flag) (o : GAddr Node) (ph : Phase Node) (newId : Nat)
    (home : a.home = .fetchInvalidate rq id flag o .opened)
    (gives : (a.phase o.wid = .dirty o.off ∧ (a.locks o.wid).isBlockLocked = false ∧ ph = .leaving o.off newId flag) ∨
      (∃ id', a.phase o.wid = .evicting o.off id') ∧ ph = a.phase o.wid) :
    Step g b a []
      (((a.setPhase o.wid ph).setHome (.fetchInvalidate rq id flag o (.acked true))).setMem (a.copy o.wid))
  | writeForwardAnswered (r : Remote Node) (id : Nat) (flag : Flag) (o : GAddr Node) (ph : Phase Node)
    (newId : Nat) (home : a.home = .writeForward r id flag o .opened) (rq : Req Node)
    (phase : a.phase r.wid = .miss r.op r.ptr r.id flag rq .served)
    (gives : (a.phase o.wid = .dirty o.off ∧ (a.locks o.wid).isBlockLocked = false ∧ ph = .leaving o.off newId flag) ∨
      (∃ id', a.phase o.wid = .evicting o.off id') ∧ ph = a.phase o.wid) :
    Step g b a []
      ((((a.setPhase o.wid ph).setPhase r.wid (.miss r.op r.ptr r.id flag rq (.hand o.wid true false .due))).setHome
          (.writeForward r id flag o (.acked true))).post r.wid (a.copy o.wid))
  -- the home hears the owner
  | fetchDone (rq : Req Node) (id : Nat) (flag : Flag) (o : GAddr Node)
    (home : a.home = .fetchShared rq id flag o (.acked true)) (unlocked : flag.locked = false) :
    Step g b a [.served rq a.mem, .replied rq, .process b.wid] (a.setHome (.shared [o]))
  | fetchLockDone (rq : Req Node) (id : Nat) (flag : Flag) (o : GAddr Node)
    (home : a.home = .fetchShared rq id flag o (.acked true)) (locked : flag.locked = true) :
    Step g b a [.granted rq, .replied rq, .process b.wid]
      ((a.setHome (.shared [o])).setDirLocks (Locks.share rq.addr a.dirLocks))
  | fetchFailed (rq : Req Node) (id : Nat) (flag : Flag) (o : GAddr Node)
    (home : a.home = .fetchShared rq id flag o (.acked false)) :
    Step g b a [.refused rq, .notify rq, .process b.wid] (a.setHome (.dirty o))
  | readForwardDone (r : Remote Node) (id : Nat) (flag : Flag) (o : GAddr Node)
    (home : a.home = .readForward r id flag o (.acked true)) :
    Step g b a [.process b.wid] (a.setHome (.shared [o, ⟨r.wid, r.ptr⟩]))
  | readForwardFailed (r : Remote Node) (id : Nat) (flag : Flag) (o : GAddr Node)
    (home : a.home = .readForward r id flag o (.acked false)) :
    Step g b a [.process b.wid] (a.setHome (.dirty o))
  | takeDone (rq : Req Node) (id : Nat) (flag : Flag) (o : GAddr Node) (outs : List (Out Node))
    (a' : Abs Node) (home : a.home = .fetchInvalidate rq id flag o (.acked true))
    (written : HomeWritten b rq flag (a.setHome .unshared) outs a') : Step g b a outs a'
  | takeFailed (rq : Req Node) (id : Nat) (flag : Flag) (o : GAddr Node)
    (home : a.home = .fetchInvalidate rq id flag o (.acked false)) :
    Step g b a (BlockState.giveUp b.wid rq) (a.setHome (.dirty o))
  | writeForwardDone (r : Remote Node) (id : Nat) (flag : Flag) (o : GAddr Node) (ok got : Bool)
    (rq : Req Node) (home : a.home = .writeForward r id flag o (.acked ok))
    (phase : a.phase r.wid = .miss r.op r.ptr r.id flag rq (.hand o.wid ok got .due)) :
    Step g b a [.process b.wid]
      ((a.setPhase r.wid (.miss r.op r.ptr r.id flag rq (.hand o.wid ok got .onWay))).setHome
        (.dirty (if ok then ⟨r.wid, r.ptr⟩ else o)))
  -- an invalidation round of the home, and one on behalf of worker `r.wid`
  | invalidated (rq : Req Node) (id : Nat) (flag : Flag) (L : List (GAddr Node))
    (answer : Node → Option Answer) (status : Status) (n : Node) (ph : Phase Node)
    (home : a.home = .invalidate rq id flag L answer status) (asked : answer n = some .opened)
    (gives : Invalidated g a n ph) :
    Step g b a []
      ((a.setPhase n ph).setHome (.invalidate rq id flag L (update answer n (some (.acked true))) status))
  | invalidateRefused (rq : Req Node) (id : Nat) (flag : Flag) (L : List (GAddr Node))
    (answer : Node → Option Answer) (status : Status) (n : Node)
    (home : a.home = .invalidate rq id flag L answer status) (asked : answer n = some .opened)
    (tried : flag.tryLock = true) :
    Step g b a []
      (a.setHome (.invalidate rq id flag L (update answer n (some (.acked false))) status))
  | invalidatedForward (r : Remote Node) (id : Nat) (flag : Flag) (L : List (GAddr Node))
    (answer : Node → Option Answer) (status : Status) (n : Node) (ph : Phase Node)
    (home : a.home = .invalidateForward r id flag L answer status)
    (asked : answer n = some .opened) (gives : Invalidated g a n ph) :
    Step g b a []
      ((a.setPhase n ph).setHome (.invalidateForward r id flag L (update answer n (some (.acked true))) status))
  | invalidateForwardRefused (r : Remote Node) (id : Nat) (flag : Flag) (L : List (GAddr Node))
    (answer : Node → Option Answer) (status : Status) (n : Node)
    (home : a.home = .invalidateForward r id flag L answer status)
    (asked : answer n = some .opened) (tried : flag.tryLock = true) :
    Step g b a []
      (a.setHome (.invalidateForward r id flag L (update answer n (some (.acked false))) status))
  | invalidateHeard (rq : Req Node) (id : Nat) (flag : Flag) (L : List (GAddr Node))
    (answer : Node → Option Answer) (status : Status) (n : Node) (ok : Bool)
    (home : a.home = .invalidate rq id flag L answer status) (acked : answer n = some (.acked ok))
    (more : Home.outstanding L answer ≠ 1) :
    Step g b a []
      (a.setHome (.invalidate rq id flag (Home.hear L n ok) (Home.heard answer n) (Home.verdict status ok)))
  | invalidateForwardHeard (r : Remote Node) (id : Nat) (flag : Flag) (L : List (GAddr Node))
    (answer : Node → Option Answer) (status : Status) (n : Node) (ok : Bool)
    (home : a.home = .invalidateForward r id flag L answer status)
    (acked : answer n = some (.acked ok)) (more : Home.outstanding L answer ≠ 1) :
    Step g b a []
      (a.setHome (.invalidateForward r id flag (Home.hear L n ok) (Home.heard answer n) (Home.verdict status ok)))
  | invalidateDone (rq : Req Node) (id : Nat) (flag : Flag) (L : List (GAddr Node))
    (answer : Node → Option Answer) (n : Node) (outs : List (Out Node)) (a' : Abs Node)
    (home : a.home = .invalidate rq id flag L answer .success)
    (acked : answer n = some (.acked true)) (last : Home.outstanding L answer = 1)
    (written : HomeWritten b rq flag (a.setHome .unshared) outs a') : Step g b a outs a'
  | invalidateFailed (rq : Req Node) (id : Nat) (flag : Flag) (L : List (GAddr Node))
    (answer : Node → Option Answer) (status : Status) (n : Node) (ok : Bool)
    (home : a.home = .invalidate rq id flag L answer status) (acked : answer n = some (.acked ok))
    (last : Home.outstanding L answer = 1) (failed : Home.verdict status ok ≠ .success) :
    Step g b a (BlockState.giveUp b.wid rq) (a.setHome (.shared (Home.hear L n ok)))
  | invalidateForwardDone (r : Remote Node) (id : Nat) (flag : Flag) (L : List (GAddr Node))
    (answer : Node → Option Answer) (n : Node) (rq : Req Node)
    (home : a.home = .invalidateForward r id flag L answer .success)
    (acked : answer n = some (.acked true)) (last : Home.outstanding L answer = 1)
    (phase : a.phase r.wid = .miss r.op r.ptr r.id flag rq .served) :
    Step g b a [.process b.wid]
      (((a.setPhase r.wid (.miss r.op r.ptr r.id flag rq (.reply true))).setHome (.dirty ⟨r.wid, r.ptr⟩)).post r.wid
          (if r.op = .write ∨ (Home.hear L n true = [] ∧ a.dirLocks.isBlockLocked = false) then a.mem
            else a.copy r.wid))
  | invalidateForwardFailed (r : Remote Node) (id : Nat) (flag : Flag) (L : List (GAddr Node))
    (answer : Node → Option Answer) (status : Status) (n : Node) (ok : Bool) (rq : Req Node)
    (home : a.home = .invalidateForward r id flag L answer status)
    (acked : answer n = some (.acked ok)) (last : Home.outstanding L answer = 1)
    (failed : Home.verdict status ok ≠ .success)
    (phase : a.phase r.wid = .miss r.op r.ptr r.id flag rq .served) :
    Step g b a [.process b.wid]
      ((a.setPhase r.wid (.miss r.op r.ptr r.id flag rq (.reply false))).setHome (.shared (Home.hear L n ok)))

end Abs

end Gam
