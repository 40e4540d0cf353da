import Gam.Database.GAddrArray
import Gam.Objects

/-!
# `HashIndex`

A hash index in global memory (`HashIndex.h`, `HashIndexHelper.h`): per bucket a list of nodes, one
for each key, and per node a list of item blocks with the addresses of the records. Each function
reads and writes whole structures, as words. A single thread runs them, so the bucket lock is always
granted. `garbage` is what uninitialised slots of a structure on the stack hold.
-/

namespace Gam.Database

open Heap (Stop)

/-- `SLOT_NUM`. -/
def slotNum : Nat := 2

structure Items where
  recordPtrs : List Nat
  recordPtrsCount : Nat
  next : Nat
deriving DecidableEq, Repr

namespace Items

def words (items : Items) : List Nat := items.recordPtrs ++ [items.recordPtrsCount, items.next]

def ofWords (words : List Nat) : Items :=
  ⟨words.take slotNum, words.getD slotNum 0, words.getD (slotNum + 1) 0⟩

def read (h : Heap) (p : Nat) : Items := ofWords (h.readWords p (slotNum + 2))

/-- `Init` leaves the slots as they are. -/
def init (garbage : Nat → UInt64) : Items := ⟨(List.range slotNum).map fun i => (garbage i).toNat, 0, 0⟩

/-- `AddRecordPtr`. -/
def addRecordPtr (recordPtr : Nat) (items : Items) : Except Stop (Bool × Items) :=
  if slotNum < items.recordPtrsCount then .error .assertion
  else if items.recordPtrsCount = slotNum then .ok (false, items)
  else .ok (true, { items with
    recordPtrs := items.recordPtrs.set items.recordPtrsCount recordPtr
    recordPtrsCount := items.recordPtrsCount + 1 })

end Items

/-- `ItemsIter`; `pos` is -1 before the items are read. -/
structure ItemsIter where
  itemsAddr : Nat
  pos : Int
  items : Items

namespace ItemsIter

def getNext (h : Heap) (it : ItemsIter) : Except Stop (Nat × ItemsIter) :=
  if it.itemsAddr = 0 then .ok (0, it)
  else
    let it := if it.pos < 0 then { it with items := Items.read h it.itemsAddr, pos := 0 } else it
    if it.pos < it.items.recordPtrsCount then
      let ret := it.items.recordPtrs.getD it.pos.toNat 0
      let it := { it with pos := it.pos + 1 }
      if it.pos = it.items.recordPtrsCount then .ok (ret, { it with itemsAddr := it.items.next, pos := -1 })
      else .ok (ret, it)
    else .error .assertion

/-- Calls `getNext` until it returns `Gnullptr`. -/
def collect (h : Heap) : Nat → ItemsIter → Except Stop (List Nat)
  | 0, _ => .error .loop
  | fuel + 1, it => do
    let (ret, it) ← it.getNext h
    if ret = 0 then return [] else return ret :: (← collect h fuel it)

end ItemsIter

structure BucketNode where
  key : Nat
  next : Nat
  itemsList : Nat
deriving DecidableEq, Repr

namespace BucketNode

def words (node : BucketNode) : List Nat := [node.key, node.next, node.itemsList]

def ofWords (words : List Nat) : BucketNode := ⟨words.getD 0 0, words.getD 1 0, words.getD 2 0⟩

def read (h : Heap) (p : Nat) : BucketNode := ofWords (h.readWords p 3)

end BucketNode

namespace BucketHeader

/-- The loop of `InsertNode` and `SearchNode`: the node with the key, or null, and the one before. -/
def find (h : Heap) (key : Nat) : Nat → Nat → Nat → Except Stop (Nat × Nat)
  | 0, _, _ => .error .loop
  | fuel + 1, cur, prev =>
    if cur = 0 then .ok (0, prev)
    else if (BucketNode.read h cur).key = key then .ok (cur, prev)
    else find h key fuel (BucketNode.read h cur).next cur

/-- `InsertNode` when the key has a node. -/
def insertOld (supply : Supply) (garbage : Nat → Nat → UInt64) (recordPtr cur : Nat) (h : Heap) :
    Except Stop Heap := do
  let node := BucketNode.read h cur
  let (added, items) ← (Items.read h node.itemsList).addRecordPtr recordPtr
  if added then return h.writeWords node.itemsList items.words
  else
    let (_, items) ← (Items.init (garbage h.tick)).addRecordPtr recordPtr
    let items := { items with next := node.itemsList }
    let (addr, h) ← h.malloc supply 32
    return (h.writeWords addr items.words).writeWords cur { node with itemsList := addr }.words

/-- The end of `InsertNode`: the new node is hung behind `prev`, or is the first one. -/
def hang (head prev nodeAddr : Nat) (h : Heap) : Except Stop (Nat × Heap) :=
  if prev ≠ 0 then
    let node := BucketNode.read h prev
    if node.next = 0 then .ok (head, h.writeWords prev { node with next := nodeAddr }.words) else .error .assertion
  else if head = 0 then .ok (nodeAddr, h)
  else .error .assertion

/-- `InsertNode` when it has none; `prev` is the last node of the bucket, or null. -/
def insertNew (supply : Supply) (garbage : Nat → Nat → UInt64) (head key recordPtr prev : Nat) (h : Heap) :
    Except Stop (Nat × Heap) := do
  let (_, items) ← (Items.init (garbage h.tick)).addRecordPtr recordPtr
  let (itemsAddr, h) ← h.malloc supply 32
  let h := h.writeWords itemsAddr items.words
  let (nodeAddr, h) ← h.malloc supply 24
  hang head prev nodeAddr (h.writeWords nodeAddr (BucketNode.words ⟨key, 0, itemsAddr⟩))

/-- `InsertNode`: whether the key is new, the head of the bucket and the heap. -/
def insertNode (supply : Supply) (garbage : Nat → Nat → UInt64) (fuel head key recordPtr : Nat) (h : Heap) :
    Except Stop (Bool × Nat × Heap) := do
  let (cur, prev) ← find h key fuel head 0
  if cur ≠ 0 then return (false, head, ← insertOld supply garbage recordPtr cur h)
  else
    let (head, h) ← insertNew supply garbage head key recordPtr prev h
    return (true, head, h)

/-- `SearchNode`: the item list of the key. -/
def searchNode (fuel head key : Nat) (h : Heap) : Except Stop (Option Nat) := do
  let (cur, _) ← find h key fuel head 0
  if cur ≠ 0 then return some (BucketNode.read h cur).itemsList else return none

end BucketHeader

structure HashIndex where
  buckets : GAddrArray
  bucketsCount : UInt64
  recordCount : UInt64

namespace HashIndex

/-- `Hash`. -/
def hash (index : HashIndex) (key : UInt64) : Nat := key.toNat % index.bucketsCount.toNat

/-- The address of the header of a bucket. -/
def header (index : HashIndex) (offset : Nat) (h : Heap) : Except Stop Nat :=
  match index.buckets.getElementGAddr offset h with
  | some p => .ok p
  | none => .error .assertion

/-- One round of the loop of `Init`: an empty header is serialised. -/
def initHeader (index : HashIndex) (h : Heap) (i : Nat) : Except Stop Heap := do
  let bkHdAddr ← index.header i h
  return h.writeWords bkHdAddr [0]

def init (supply : Supply) (old : GAddrArray) (bucketsCount : UInt64) (h : Heap) : Except Stop (HashIndex × Heap) :=
  match GAddrArray.init supply old bucketsCount 8 h with
  | none => .error .assertion
  | some (buckets, h) =>
    if h.sound then do
      let index : HashIndex := ⟨buckets, bucketsCount, 0⟩
      let h ← (List.range bucketsCount.toNat).foldlM index.initHeader h
      return (index, h)
    else .error .memory

def insertRecord (supply : Supply) (garbage : Nat → Nat → UInt64) (fuel : Nat) (key recordPtr : UInt64)
    (index : HashIndex) (h : Heap) : Except Stop (Bool × HashIndex × Heap) := do
  let hdAddr ← index.header (index.hash key) h
  let head := h.readWord hdAddr
  let (ret, head, h) ← BucketHeader.insertNode supply garbage fuel head key.toNat recordPtr.toNat h
  return (ret, { index with recordCount := index.recordCount + 1 }, h.writeWords hdAddr [head])

/-- All records of a key, by an iterator over its item list. -/
def records (fuel : Nat) (key : UInt64) (index : HashIndex) (h : Heap) : Except Stop (List Nat) := do
  let hdAddr ← index.header (index.hash key) h
  match ← BucketHeader.searchNode fuel (h.readWord hdAddr) key.toNat h with
  | some items => ItemsIter.collect h fuel ⟨items, -1, ⟨[], 0, 0⟩⟩
  | none => return []

/-- A sequence of insertions and what they returned. -/
def insertAll (supply : Supply) (garbage : Nat → Nat → UInt64) (fuel : Nat) :
    List (UInt64 × UInt64) → HashIndex → Heap → Except Stop (List Bool × HashIndex × Heap)
  | [], index, h => .ok ([], index, h)
  | (key, recordPtr) :: calls, index, h => do
    let (ret, index, h) ← index.insertRecord supply garbage fuel key recordPtr h
    let (rets, index, h) ← insertAll supply garbage fuel calls index h
    return (ret :: rets, index, h)

end HashIndex

end Gam.Database
