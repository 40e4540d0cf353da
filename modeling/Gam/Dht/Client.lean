import Gam.Heap

/-!
# The hash table of the DHT build

`kvClient` of `dht/kvclient.cc` with the entry format of `dht/kv.h`. A bucket is 128 bytes of global
memory: ten entries of a tag, a size and an address, and the address of an overflow bucket. `Malloc` and
`Free` of the allocator are those of a heap, with the fresh memory set to zero as `ProcessLocalMalloc`
does, and a read or write of global memory always succeeds.
-/

namespace Gam.Dht

open Heap (Stop)

def bktSize : Nat := 128

def entrySize : Nat := 12

/-- `BKT_SLOT`. -/
def bktSlot : Nat := bktSize / entrySize

/-- `TAG`: the lowest eleven bits. -/
def tag (hash : UInt64) : UInt32 := (hash &&& 0x7ff).toUInt32

/-- `BUCKET`: the next twenty-four bits. -/
def bucket (hash : UInt64) : Nat := ((hash >>> 11) &&& 0xffffff).toNat

/-- `TBL`: the other bits. -/
def tbl (hash : UInt64) : Nat := (hash >>> 35).toNat

/-! ## Entries -/

structure Entry where
  etag : UInt32
  addr : UInt64
deriving DecidableEq, Repr

namespace Entry

def bytes (e : Entry) : List UInt8 := bytesOf 4 e.etag.toNat ++ bytesOf 8 e.addr.toNat

def ofBytes (b : List UInt8) : Entry := ⟨UInt32.ofNat (valueOf (b.take 4)), UInt64.ofNat (valueOf ((b.drop 4).take 8))⟩

/-- `parseEntry`: the tag, the size and the address. -/
def parse (e : Entry) : UInt32 × UInt32 × UInt64 :=
  let t := e.etag &&& 0x7fffffff
  (t >>> 20, t &&& 0xfffff, e.addr)

/-- `updateEntry`. -/
def update (tag size : UInt32) (addr : UInt64) : Entry := ⟨(0x80000000 : UInt32) ||| (tag <<< 20) ||| (size &&& 0xfffff), addr⟩

def matchTag (e : Entry) (tag : UInt32) : Bool := e.etag ≠ 0 && (e.etag &&& 0x7fffffff) >>> 20 = tag

def containTag (e : Entry) : Bool := e.etag ≠ 0

end Entry

/-! ## Buckets -/

/-- The entry at a position of `bkt_`. -/
def slot (bkt : List UInt8) (pos : Nat) : Entry := .ofBytes (bkt.drop (pos * entrySize))

def setSlot (bkt : List UInt8) (pos : Nat) (e : Entry) : List UInt8 :=
  bkt.take (pos * entrySize) ++ e.bytes ++ bkt.drop (pos * entrySize + entrySize)

/-- The address of the overflow bucket. -/
def next (bkt : List UInt8) : Nat := valueOf ((bkt.drop (entrySize * bktSlot)).take 8)

def setNext (bkt : List UInt8) (addr : Nat) : List UInt8 := bkt.take (entrySize * bktSlot) ++ bytesOf 8 addr

/-- The loop over the entries of a bucket: the position where it stops. -/
def scan (stops : Entry → Bool) (bkt : List UInt8) : Nat :=
  ((List.range bktSlot).find? fun pos => stops (slot bkt pos)).getD bktSlot

/-! ## Keys with values -/

/-- The bytes of a `kv`. -/
def kvBytes (key value : List UInt8) : List UInt8 := bytesOf 4 key.length ++ bytesOf 4 value.length ++ key ++ value

/-- The key and the value of a `kv` read back from its bytes. -/
def ofKvBytes (b : List UInt8) : List UInt8 × List UInt8 :=
  let klen := valueOf (b.take 4)
  let vlen := valueOf ((b.drop 4).take 4)
  ((b.drop 8).take klen, (b.drop (8 + klen)).take vlen)

/-! ## The client -/

/-- Global memory, with the buckets that are locked. -/
structure Mem where
  heap : Heap
  locked : List Nat := []

namespace Mem

def lock (bktAddr : Nat) (m : Mem) : Mem := { m with locked := bktAddr :: m.locked }

def unLock (bktAddr : Nat) (m : Mem) : Mem := { m with locked := m.locked.erase bktAddr }

def read (addr size : Nat) (m : Mem) : List UInt8 := m.heap.mem.load addr size

def write (addr : Nat) (data : List UInt8) (m : Mem) : Mem := { m with heap := m.heap.write addr data }

def malloc (supply : Supply) (size : Nat) (m : Mem) : Except Stop (Nat × Mem) := do
  let (addr, h) ← m.heap.malloc supply size
  return (addr, { m with heap := h.write addr (List.replicate size 0) })

def free (supply : Supply) (addr : Nat) (m : Mem) : Mem := { m with heap := m.heap.free supply addr }

end Mem

/-- `getBktAddr`; the number of the table is a `uint16_t`. -/
def getBktAddr (htables : List Nat) (key : UInt64) : Except Stop Nat :=
  match htables[tbl key % htables.length % 2 ^ 16]? with
  | none => .error .undefined
  | some table => .ok (table + bktSize * bucket key)

/-- The first loop of `put`: the bucket, its bytes and the position of an entry with the tag or of a free
one. The bucket stays locked. -/
def putFind (supply : Supply) (t : UInt32) : Nat → Nat → Mem → Except Stop (Nat × List UInt8 × Nat × Mem)
  | 0, _, _ => .error .loop
  | fuel + 1, bktAddr, m => do
    let m := m.lock bktAddr
    let bkt := m.read bktAddr bktSize
    let pos := scan (fun e => e.matchTag t || !e.containTag) bkt
    if pos < bktSlot then return (bktAddr, bkt, pos, m)
    let (tmp, m) ←
      if next bkt = 0 then do
        let (tmp, m) ← m.malloc supply bktSize
        pure (tmp, m.write bktAddr (setNext bkt tmp))
      else pure (next bkt, m)
    putFind supply t fuel tmp (m.unLock bktAddr)

/-- The block for `size` bytes: the one of the entry if it is large enough, else a new one. -/
def putBlock (supply : Supply) (e : Entry) (size : Nat) (m : Mem) : Except Stop (Nat × Mem) :=
  let (t, old, addr) := e.parse
  if old.toNat < size then
    (if 0 < t then m.free supply addr.toNat else m).malloc supply size
  else .ok (addr.toNat, m)

/-- `put` of the characters of two strings; `stoull` reads the number of the key. -/
def put (supply : Supply) (stoull : List UInt8 → UInt64) (htables : List Nat) (fuel : Nat) (key value : List UInt8) (m : Mem) :
    Except Stop (Int × Mem) := do
  let kvp := kvBytes key value
  let hkey := stoull key
  let bktAddr ← getBktAddr htables hkey
  let (bktAddr, bkt, pos, m) ← putFind supply (tag hkey) fuel bktAddr m
  let (_, size, _) := (slot bkt pos).parse
  let (addr, m) ← putBlock supply (slot bkt pos) kvp.length m
  let m := if size.toNat ≠ kvp.length then
      m.write bktAddr (setSlot bkt pos (.update (tag hkey) (UInt32.ofNat kvp.length) (UInt64.ofNat addr)))
    else m
  return (kvp.length, (m.write addr kvp).unLock bktAddr)

/-- The first loop of `get`: the bucket, its bytes and the position of an entry with the tag, or
`BKT_SLOT` in the last bucket. -/
def getFind (t : UInt32) : Nat → Nat → Mem → Except Stop (Nat × List UInt8 × Nat × Mem)
  | 0, _, _ => .error .loop
  | fuel + 1, bktAddr, m =>
    let m := m.lock bktAddr
    let bkt := m.read bktAddr bktSize
    let pos := scan (fun e => e.matchTag t) bkt
    if pos < bktSlot then .ok (bktAddr, bkt, pos, m)
    else if next bkt = 0 then .ok (bktAddr, bkt, pos, m)
    else getFind t fuel (next bkt) (m.unLock bktAddr)

/-- `get`: what it returns, and the key and the value it finds. -/
def get (htables : List Nat) (fuel : Nat) (key : UInt64) (m : Mem) : Except Stop (Int × Option (List UInt8 × List UInt8) × Mem) := do
  let bktAddr ← getBktAddr htables key
  let (bktAddr, bkt, pos, m) ← getFind (tag key) fuel bktAddr m
  if pos = bktSlot then return (-1, none, m.unLock bktAddr)
  let (_, size, addr) := (slot bkt pos).parse
  let kv := m.read addr.toNat size.toNat
  return (if size.toNat = 0 then -1 else size.toNat, some (ofKvBytes kv), m.unLock bktAddr)

/-- The first loop of `del`. It compares the position with `BKT_SIZE`, so it ends in the first bucket. -/
def delFind (t : UInt32) : Nat → Nat → Mem → Except Stop (Nat × List UInt8 × Nat × Mem)
  | 0, _, _ => .error .loop
  | fuel + 1, bktAddr, m =>
    let m := m.lock bktAddr
    let bkt := m.read bktAddr bktSize
    let pos := scan (fun e => e.matchTag t) bkt
    if pos < bktSize then .ok (bktAddr, bkt, pos, m)
    else if next bkt = 0 then .ok (bktAddr, bkt, pos, m)
    else delFind t fuel (next bkt) (m.unLock bktAddr)

/-- `del`. When the loop over the entries finds nothing, `p` is left at the last entry. -/
def del (supply : Supply) (htables : List Nat) (fuel : Nat) (key : UInt64) (m : Mem) : Except Stop (Int × Mem) := do
  let bktAddr ← getBktAddr htables key
  let (bktAddr, bkt, pos, m) ← delFind (tag key) fuel bktAddr m
  if pos = bktSize then return (-1, m)
  let p := if pos < bktSlot then pos else bktSlot - 1
  let (_, _, addr) := (slot bkt p).parse
  let m := m.free supply addr.toNat
  return (0, (m.write bktAddr (setSlot bkt p (.update 0 0 0))).unLock bktAddr)

end Gam.Dht
