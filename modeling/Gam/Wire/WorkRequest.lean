import Gam.Codec

/-!
# Work requests on the wire

`Ser` and `Deser` of `workrequest.cc` in the default build. Integers are copied byte by byte, so a
field is kept as the bits it has in memory, and the union of `key`, `addr` and `free` is one field.
-/

namespace Gam.Wire

/-- The operations that `Ser` has a case for. The other operations never leave the node. -/
inductive Work where
  | malloc
  | read
  | fetchAndShared
  | readForward
  | write
  | writePermissionOnly
  | fetchAndInvalidate
  | invalidate
  | invalidateForward
  | writeForward
  | writePermissionOnlyForward
  | updateMemStats
  | fetchMemStats
  | broadcastMemStats
  | free
  | activeInvalidate
  | writeBack
  | put
  | get
  | mallocReply
  | fetchMemStatsReply
  | readReply
  | writeReply
  | getReply
deriving DecidableEq, Repr

/-- The value of the enumerator; `REPLY` is `1 << 16`. -/
def Work.code : Work → Nat
  | malloc => 1
  | read => 2
  | fetchAndShared => 3
  | readForward => 4
  | write => 5
  | writePermissionOnly => 6
  | fetchAndInvalidate => 7
  | invalidate => 8
  | invalidateForward => 9
  | writeForward => 10
  | writePermissionOnlyForward => 11
  | updateMemStats => 13
  | fetchMemStats => 14
  | broadcastMemStats => 15
  | free => 24
  | activeInvalidate => 25
  | writeBack => 26
  | put => 28
  | get => 29
  | mallocReply => 65537
  | fetchMemStatsReply => 65538
  | readReply => 65539
  | writeReply => 65540
  | getReply => 65543

def Work.all : List Work :=
  [malloc, read, fetchAndShared, readForward, write, writePermissionOnly, fetchAndInvalidate,
    invalidate, invalidateForward, writeForward, writePermissionOnlyForward, updateMemStats,
    fetchMemStats, broadcastMemStats, free, activeInvalidate, writeBack, put, get, mallocReply,
    fetchMemStatsReply, readReply, writeReply, getReply]

def Work.ofCode (n : Nat) : Option Work := Work.all.find? fun op => op.code = n

theorem Work.ofCode_code (op : Work) : Work.ofCode op.code = some op := by
  cases op <;> rfl

theorem Work.code_lt (op : Work) : op.code < 256 ^ 4 := by
  cases op <;> decide

/-- The functions a write can carry, in the order of `GAllocFactory::gfuncs`. -/
inductive GFunc where
  | incr
  | incrDouble
  | gatherPagerank
  | applyPagerank
  | scatterPagerank
deriving DecidableEq, Repr

def gfuncs : List GFunc := [.incr, .incrDouble, .gatherPagerank, .applyPagerank, .scatterPagerank]

/-- `GetGFuncID`, with `-1` for no function. -/
def getGFuncID (gfunc : Option GFunc) : UInt32 :=
  match gfunc with
  | none => -1
  | some f => UInt32.ofNat (gfuncs.idxOf f)

/-- `GetGFunc`. -/
def getGFunc (gid : UInt32) : Option GFunc := if gid = -1 then none else gfuncs[gid.toNat]?

theorem getGFunc_getGFuncID (gfunc : Option GFunc) : getGFunc (getGFuncID gfunc) = gfunc := by
  cases gfunc with
  | none => rfl
  | some f => cases f <;> rfl

/-- The fields of a request that are sent. `addr` stands for the whole union, and `data` for the
bytes at `ptr`: `size` bytes of a value, or the characters of a string before its zero byte. -/
structure WorkRequest where
  op : Work
  id : UInt32 := 0
  pid : UInt32 := 0
  pwid : UInt32 := 0
  addr : UInt64 := 0
  size : UInt64 := 0
  status : UInt32 := 0
  flag : UInt32 := 0
  ptr : UInt64 := 0
  wid : UInt32 := 0
  counter : UInt32 := 0
  gfunc : Option GFunc := none
  arg : UInt64 := 0
  data : List UInt8 := []
deriving DecidableEq, Repr

inductive Field where
  | id | pid | pwid | addr | size | status | flag | ptr | wid | counter | gid | arg
deriving DecidableEq, Repr

namespace Field

def width : Field → Nat
  | addr | size | ptr | arg => 8
  | id | pid | pwid | status | flag | wid | counter | gid => 4

def get : Field → WorkRequest → Nat
  | id, wr => wr.id.toNat
  | pid, wr => wr.pid.toNat
  | pwid, wr => wr.pwid.toNat
  | addr, wr => wr.addr.toNat
  | size, wr => wr.size.toNat
  | status, wr => wr.status.toNat
  | flag, wr => wr.flag.toNat
  | ptr, wr => wr.ptr.toNat
  | wid, wr => wr.wid.toNat
  | counter, wr => wr.counter.toNat
  | gid, wr => (getGFuncID wr.gfunc).toNat
  | arg, wr => wr.arg.toNat

def set : Field → Nat → WorkRequest → WorkRequest
  | id, n, wr => { wr with id := UInt32.ofNat n }
  | pid, n, wr => { wr with pid := UInt32.ofNat n }
  | pwid, n, wr => { wr with pwid := UInt32.ofNat n }
  | addr, n, wr => { wr with addr := UInt64.ofNat n }
  | size, n, wr => { wr with size := UInt64.ofNat n }
  | status, n, wr => { wr with status := UInt32.ofNat n }
  | flag, n, wr => { wr with flag := UInt32.ofNat n }
  | ptr, n, wr => { wr with ptr := UInt64.ofNat n }
  | wid, n, wr => { wr with wid := UInt32.ofNat n }
  | counter, n, wr => { wr with counter := UInt32.ofNat n }
  | gid, n, wr => { wr with gfunc := getGFunc (UInt32.ofNat n) }
  | arg, n, wr => { wr with arg := UInt64.ofNat n }

theorem get_lt (f : Field) (wr : WorkRequest) : f.get wr < 256 ^ f.width := by
  have word : ∀ x : UInt32, x.toNat < 256 ^ 4 := fun x => x.toNat_lt
  have long : ∀ x : UInt64, x.toNat < 256 ^ 8 := fun x => x.toNat_lt
  cases f <;> first | exact word _ | exact long _

theorem get_set (f : Field) (wr wr' : WorkRequest) : f.get (f.set (f.get wr') wr) = f.get wr' := by
  cases f <;> simp only [get, set, UInt32.ofNat_toNat, UInt64.ofNat_toNat, getGFunc_getGFuncID]

theorem get_set_other (f g : Field) (n : Nat) (wr : WorkRequest) (other : f ≠ g) : f.get (g.set n wr) = f.get wr := by
  cases f <;> cases g <;> first | rfl | exact absurd rfl other

end Field

/-- How `appendInteger` and `readInteger` see a request. -/
def layout : Layout Field WorkRequest where
  width := Field.width
  get := Field.get
  set := Field.set
  get_lt := Field.get_lt
  get_set := Field.get_set
  get_set_other := Field.get_set_other

/-- The integers that `Ser` appends after the operation. -/
def serFields : Work → List Field
  | .updateMemStats => [.wid, .size, .addr]
  | .fetchMemStatsReply | .broadcastMemStats => [.size]
  | .get => [.id, .wid, .addr]
  | .put | .getReply => [.id, .wid, .addr, .size]
  | .fetchMemStats => [.wid]
  | .malloc => [.id, .wid, .size, .flag]
  | .mallocReply => [.id, .wid, .addr, .status]
  | .free => [.id, .wid, .addr]
  | .write => [.id, .wid, .addr, .size, .ptr, .flag, .gid, .arg]
  | .writePermissionOnly => [.id, .wid, .addr, .size, .ptr, .flag, .gid, .arg]
  | .read | .fetchAndShared | .fetchAndInvalidate | .invalidate =>
    [.id, .wid, .addr, .size, .ptr, .flag]
  | .readForward | .writeForward | .invalidateForward | .writePermissionOnlyForward =>
    [.id, .wid, .addr, .size, .ptr, .flag, .pid, .pwid]
  | .readReply => [.id, .wid, .status]
  | .writeReply => [.id, .wid, .status, .counter]
  | .activeInvalidate | .writeBack => [.id, .wid, .addr, .ptr]

/-- The bytes that `Ser` copies from `ptr` after the integers: `strlen` of them, or `size`. -/
def WorkRequest.payload (wr : WorkRequest) : List UInt8 :=
  match wr.op with
  | .fetchMemStatsReply | .broadcastMemStats => wr.data.takeWhile (· ≠ 0)
  | .put | .getReply => wr.data.take wr.size.toNat
  | _ => []

def WorkRequest.ser (wr : WorkRequest) : List UInt8 :=
  bytesOf 4 wr.op.code ++ layout.encode (serFields wr.op) wr ++ wr.payload

/-- The integers that `Deser` reads after the operation. -/
def deserFields : Work → List Field
  | .updateMemStats => [.wid, .size, .addr]
  | .fetchMemStatsReply | .broadcastMemStats => [.size]
  | .get => [.id, .wid, .addr]
  | .put | .getReply => [.id, .wid, .addr, .size]
  | .fetchMemStats => [.wid]
  | .malloc => [.id, .wid, .size, .flag]
  | .mallocReply => [.id, .wid, .addr, .status]
  | .free => [.id, .wid, .addr]
  | .write => [.id, .wid, .addr, .size, .ptr, .flag, .gid, .arg]
  | .writePermissionOnly => [.id, .wid, .addr, .size, .ptr, .flag, .gid, .arg]
  | .read | .fetchAndShared | .fetchAndInvalidate | .invalidate =>
    [.id, .wid, .addr, .size, .ptr, .flag]
  | .readForward | .writeForward | .invalidateForward | .writePermissionOnlyForward =>
    [.id, .wid, .addr, .size, .ptr, .flag, .pid, .pwid]
  | .readReply => [.id, .wid, .status]
  | .writeReply => [.id, .wid, .status, .counter]
  | .activeInvalidate | .writeBack => [.id, .wid, .addr, .ptr]

/-- The length that `Deser` finds for the bytes after the integers: `strlen`, or the size read. -/
def payloadLength (wr : WorkRequest) (rest : List UInt8) : Nat :=
  match wr.op with
  | .fetchMemStatsReply | .broadcastMemStats => (rest.takeWhile (· ≠ 0)).length
  | .put | .getReply => wr.size.toNat
  | _ => 0

/-- `Deser` of a new request from the bytes at `buf`, with the number of bytes it consumed. An
unknown operation consumes only its own code. -/
def deser (buf : List UInt8) : Option WorkRequest × Nat :=
  match Work.ofCode (valueOf (buf.take 4)) with
  | none => (none, 4)
  | some op =>
    let (wr, rest) := layout.decode (deserFields op) { op := op } (buf.drop 4)
    let len := payloadLength wr rest
    (some { wr with data := rest.take len }, len + (buf.length - rest.length))

end Gam.Wire
