import Mathlib.Data.List.Nodup
import Mathlib.Data.List.Range
import Mathlib.Tactic.Ring
import Gam.Basic

/-!
# Locks on ranges of addresses

`GAlloc::Lock` (`gallocator.cc`) takes a lock on the first address of a range and on the start of
every later block of it, one synchronous request after the other, and gives back what it took when
one of them fails. The function is kept as the requests it sends and what it does with each status.
-/

namespace Gam

/-- A `GAddr` as the 64-bit word it is. -/
abbrev Word := BitVec 64

/-- `TOBLOCK`, by `BLOCK_MASK`. -/
def toBlock (x : Word) : Word := x &&& 0xFFFFFFFFFFFFF000#64

/-- `GADD(start_blk, i*BLOCK_SIZE)`. The product is an `int` and only then becomes an offset. -/
def blockAdd (start : Word) (i : BitVec 32) : Word := start + (i * 4096#32).signExtend 64

inductive LockOp
  | rlock | wlock | unlock
deriving DecidableEq, Repr

/-- The arguments of `GAlloc::Lock`; `tryLock` is the one flag its callers pass. -/
structure RangeCall where
  op : LockOp
  addr : Word
  count : Word
  tryLock : Bool
deriving DecidableEq, Repr

/-- What a `WorkRequest` of `Lock` carries to the worker. -/
structure LockRequest where
  op : LockOp
  addr : Word
  tryLock : Bool
deriving DecidableEq, Repr

/-- Where a call is: before its request number `i`, before the request that gives back the first
lock or lock number `j` after a failure at `i`, or returned. -/
inductive RangePc
  | acquire (i : BitVec 32)
  | undoFirst (i : BitVec 32)
  | undo (i j : BitVec 32)
  | done (ret : Int)
deriving DecidableEq, Repr

namespace RangeCall
variable (call : RangeCall)

def startBlk : Word := toBlock call.addr

/-- `GADD(addr, count - 1)`. -/
def last : Word := call.addr + (call.count - 1)

def endBlk : Word := toBlock call.last

/-- The request a call waits for. -/
def request : RangePc → Option LockRequest
  | .acquire i =>
    some ⟨call.op, if i = 0 then call.addr else blockAdd call.startBlk i, call.tryLock⟩
  | .undoFirst _ => some ⟨.unlock, call.addr, call.tryLock⟩
  | .undo _ j => some ⟨.unlock, blockAdd call.startBlk j, call.tryLock⟩
  | .done _ => none

/-- What a call does when its request came back; `failed` is a status other than `SUCCESS`. -/
def resume (failed : Bool) : RangePc → RangePc
  | .acquire i =>
    if failed then
      if call.op = .unlock then .done 0
      else if (1#32).sle i then .undoFirst i else .done (-1)
    else if call.endBlk < blockAdd call.startBlk (i + 1) then .done 0 else .acquire (i + 1)
  | .undoFirst i => if (1#32).slt i then .undo i 1 else .done (-1)
  | .undo i j => if (j + 1).slt i then .undo i (j + 1) else .done (-1)
  | .done ret => .done ret

end RangeCall

/-- A call alone with a lock service that may refuse any lock and never an unlock: `refused n` is
the answer to request number `n`. The log has each request with whether it failed. -/
def RangeCall.exec (call : RangeCall) (refused : Nat → Bool) :
    Nat → RangePc × List (LockRequest × Bool)
  | 0 => (.acquire 0, [])
  | n + 1 =>
    let s := call.exec refused n
    match call.request s.1 with
    | none => s
    | some r =>
      let failed := decide (r.op ≠ .unlock) && refused n
      (call.resume failed s.1, s.2 ++ [(r, failed)])

/-! The keys of a range: its first address and the starts of the later blocks in it. -/

section keys
variable {addr count : Nat}

/-- The number of block starts behind `addr` in the range. -/
def laterBlocks (addr count : Nat) : Nat := (addr + count - 1) / blockSize - addr / blockSize

def rangeKeys (addr count : Nat) : List Nat :=
  addr :: (List.range (laterBlocks addr count)).map fun j => (addr / blockSize + (j + 1)) * blockSize

theorem mem_rangeKeys (nonempty : 0 < count) {key : Nat} : key ∈ rangeKeys addr count ↔
    key = addr ∨ key % blockSize = 0 ∧ addr < key ∧ key < addr + count := by
  simp only [rangeKeys, List.mem_cons, List.mem_map, List.mem_range, laterBlocks, blockSize]
  refine or_congr_right ⟨?_, ?_⟩
  · rintro ⟨j, below, rfl⟩
    omega
  · rintro ⟨aligned, behind, inside⟩
    exact ⟨key / 4096 - addr / 4096 - 1, by omega, by omega⟩

end keys

section words
variable {start : Word} {i : Nat}

theorem toNat_toBlock (x : Word) : (toBlock x).toNat = x.toNat / blockSize * blockSize := by
  have mask : (0xFFFFFFFFFFFFF000 : Nat) = (2 ^ 52 - 1) <<< 12 := by decide
  have high : x.toNat / 4096 < 2 ^ 52 := by omega
  rw [toBlock, BitVec.toNat_and, BitVec.toNat_ofNat, Nat.mod_eq_of_lt (by decide), mask, blockSize]
  apply Nat.eq_of_testBit_eq
  intro k
  have shift : x.toNat / 4096 * 4096 = (x.toNat >>> 12) <<< 12 := by
    rw [Nat.shiftRight_eq_div_pow, Nat.shiftLeft_eq]
  rw [shift, Nat.testBit_and, Nat.testBit_shiftLeft, Nat.testBit_shiftLeft, Nat.testBit_shiftRight,
    Nat.testBit_two_pow_sub_one]
  by_cases low : 12 ≤ k
  · rw [Nat.add_sub_cancel' low]
    by_cases inside : k - 12 < 52
    · simp [low, inside]
    · have zero : x.toNat.testBit k = false := by
        apply Nat.testBit_lt_two_pow
        exact Nat.lt_of_lt_of_le x.isLt (Nat.pow_le_pow_right (by decide) (by omega))
      simp [zero]
  · simp [low]

/-- The product of a small block number does not overflow. -/
theorem toNat_blockAdd (small : i < 2 ^ 19) (room : start.toNat + i * blockSize < 2 ^ 64) :
    (blockAdd start (BitVec.ofNat 32 i)).toNat = start.toNat + i * blockSize := by
  unfold blockSize at room ⊢
  have product : (BitVec.ofNat 32 i * 4096#32).toNat = i * 4096 := by
    rw [BitVec.toNat_mul, BitVec.toNat_ofNat, BitVec.toNat_ofNat]
    omega
  have positive : (BitVec.ofNat 32 i * 4096#32).msb = false := by
    rw [BitVec.msb_eq_false_iff_two_mul_lt, product]
    omega
  rw [blockAdd, BitVec.signExtend_eq_setWidth_of_msb_false positive, BitVec.toNat_add,
    BitVec.toNat_setWidth, product]
  omega

theorem toInt_ofNat_small (small : i < 2 ^ 19) : (BitVec.ofNat 32 i).toInt = i := by
  have value : (BitVec.ofNat 32 i).toNat = i := by
    rw [BitVec.toNat_ofNat]
    omega
  rw [BitVec.toInt_eq_toNat_of_lt (by omega), value]

theorem slt_ofNat_small {j : Nat} (small : j < 2 ^ 19) (small' : i < 2 ^ 19) :
    (BitVec.ofNat 32 j).slt (BitVec.ofNat 32 i) = decide (j < i) := by
  rw [BitVec.slt_eq_decide, toInt_ofNat_small small, toInt_ofNat_small small']
  simp

end words

namespace RangeCall
variable {call : RangeCall} {i j : Nat}

/-- The address of request number `i`. -/
def key (call : RangeCall) (i : Nat) : Word :=
  if i = 0 then call.addr else blockAdd call.startBlk (BitVec.ofNat 32 i)

def size (call : RangeCall) : Nat := laterBlocks call.addr.toNat call.count.toNat + 1

def keys (call : RangeCall) : List Word := (List.range call.size).map call.key

/-- A range that is not empty, ends before the last block of the address space and has fewer than
`2 ^ 19` blocks, so that no product of a block number and the block size overflows an `int`. -/
structure Fits (call : RangeCall) : Prop where
  nonempty : 0 < call.count.toNat
  bounded : call.addr.toNat + call.count.toNat + blockSize ≤ 2 ^ 64
  few : call.size < 2 ^ 19

theorem toNat_endBlk (fits : call.Fits) : call.endBlk.toNat =
    (call.addr.toNat + call.count.toNat - 1) / blockSize * blockSize := by
  obtain ⟨nonempty, bounded, _⟩ := fits
  unfold blockSize at bounded
  have last : call.last.toNat = call.addr.toNat + call.count.toNat - 1 := by
    have one : (1 : BitVec 64).toNat = 1 := rfl
    rw [RangeCall.last, BitVec.toNat_add, BitVec.toNat_sub, one]
    omega
  rw [endBlk, toNat_toBlock, last]

/-- The block start number `i` of a range, up to the one behind the range. -/
theorem toNat_blockAdd_startBlk (fits : call.Fits) (below : i ≤ call.size) :
    (blockAdd call.startBlk (BitVec.ofNat 32 i)).toNat =
      (call.addr.toNat / blockSize + i) * blockSize := by
  obtain ⟨nonempty, bounded, few⟩ := fits
  have start : call.startBlk.toNat = call.addr.toNat / blockSize * blockSize := toNat_toBlock _
  rw [toNat_blockAdd (Nat.lt_of_le_of_lt below few), start, Nat.add_mul]
  rw [start]
  unfold size laterBlocks blockSize at *
  omega

theorem map_toNat_keys (fits : call.Fits) :
    call.keys.map BitVec.toNat = rangeKeys call.addr.toNat call.count.toNat := by
  rw [keys, size, List.range_succ_eq_map, rangeKeys]
  simp only [List.map_cons, List.map_map, key, if_true]
  congr 1
  apply List.map_congr_left
  intro j below
  rw [List.mem_range] at below
  exact toNat_blockAdd_startBlk fits (Nat.succ_le_succ (Nat.le_of_lt below))

/-- The keys are the first address and the later block starts of the range. -/
theorem mem_keys (fits : call.Fits) {key : Word} : key ∈ call.keys ↔
    key = call.addr ∨ key.toNat % blockSize = 0 ∧ call.addr.toNat < key.toNat ∧
      key.toNat < call.addr.toNat + call.count.toNat := by
  rw [← BitVec.toNat_inj, ← mem_rangeKeys fits.nonempty, ← map_toNat_keys fits,
    List.mem_map_of_injective fun _ _ => BitVec.eq_of_toNat_eq]

/-- A call that has taken `i` keys. -/
def takePc (call : RangeCall) (i : Nat) : RangePc :=
  if i < call.size then .acquire (BitVec.ofNat 32 i) else .done 0

/-- A call that failed at its request number `i` and has given back `j` keys. -/
def undoPc (i j : Nat) : RangePc :=
  if j = i then .done (-1)
  else if j = 0 then .undoFirst (BitVec.ofNat 32 i)
  else .undo (BitVec.ofNat 32 i) (BitVec.ofNat 32 j)

theorem takePc_zero : call.takePc 0 = .acquire 0 := by simp [takePc, size]

theorem request_takePc (fits : call.Fits) (below : i < call.size) :
    call.request (call.takePc i) = some ⟨call.op, call.key i, call.tryLock⟩ := by
  have small := fits.few
  have zero : BitVec.ofNat 32 i = 0 ↔ i = 0 := by
    rw [← BitVec.toNat_inj, BitVec.toNat_ofNat]
    simp
    omega
  simp only [takePc, below, if_true, request, zero, key]

theorem resume_takePc (fits : call.Fits) (below : i < call.size) :
    call.resume false (call.takePc i) = call.takePc (i + 1) := by
  have past : call.endBlk < blockAdd call.startBlk (BitVec.ofNat 32 (i + 1)) ↔ ¬ i + 1 < call.size := by
    rw [BitVec.lt_def, toNat_blockAdd_startBlk fits below, toNat_endBlk fits]
    obtain ⟨nonempty, -, -⟩ := fits
    simp only [size, laterBlocks, blockSize] at below ⊢
    omega
  have next : BitVec.ofNat 32 i + 1 = BitVec.ofNat 32 (i + 1) := by simp [BitVec.ofNat_add]
  simp only [takePc, below, if_true, resume, next, past, ite_not]
  rfl

theorem resume_takePc_failed (fits : call.Fits) (below : i < call.size) (locks : call.op ≠ .unlock) :
    call.resume true (call.takePc i) = undoPc i 0 := by
  have small := fits.few
  have first : (1#32).sle (BitVec.ofNat 32 i) = decide (1 ≤ i) := by
    have one : (1#32).toInt = 1 := rfl
    rw [BitVec.sle_eq_decide, one, toInt_ofNat_small (Nat.lt_trans below small)]
    simp
  simp only [takePc, below, if_true, resume, locks, if_false, first, decide_eq_true_eq, undoPc]
  cases i with
  | zero => rfl
  | succ i => simp

theorem request_undoPc (before : j < i) :
    call.request (undoPc i j) = some ⟨.unlock, call.key j, call.tryLock⟩ := by
  by_cases first : j = 0
  · simp [undoPc, request, key, first, Nat.ne_of_lt (first ▸ before)]
  · simp [undoPc, request, key, first, Nat.ne_of_lt before]

theorem resume_undoPc (before : j < i) (small : i < 2 ^ 19) (failed : Bool) :
    call.resume failed (undoPc i j) = undoPc i (j + 1) := by
  have next : BitVec.ofNat 32 j + 1 = BitVec.ofNat 32 (j + 1) := by simp [BitVec.ofNat_add]
  have more : (BitVec.ofNat 32 (j + 1)).slt (BitVec.ofNat 32 i) = decide (j + 1 < i) :=
    slt_ofNat_small (by omega) small
  have resumed : call.resume failed (undoPc i j) =
      if j + 1 < i then .undo (BitVec.ofNat 32 i) (BitVec.ofNat 32 (j + 1)) else .done (-1) := by
    by_cases first : j = 0
    · subst first
      simp only [undoPc, Nat.ne_of_lt before, if_false, if_true, resume]
      simpa using congrArg (fun b : Bool => if b then RangePc.undo (BitVec.ofNat 32 i) 1#32 else .done (-1)) more
    · simp only [undoPc, Nat.ne_of_lt before, first, if_false, resume, next, more, decide_eq_true_eq]
  rw [resumed, undoPc]
  by_cases last : j + 1 = i
  · simp [last]
  · simp [last, Nat.lt_of_le_of_ne before last]

end RangeCall

end Gam
