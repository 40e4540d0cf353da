import Gam.Codec
import Gam.RingContents

/-!
# The log

`Log` of `logging.cc`. Records are copied to a ring buffer, and `write` appends the part `[epos, spos)` of it to
the log file. A call that leaves less than half of the buffer free starts a `write` of its own thread, which
ends at some later time; here that is a flush between two calls.
-/

namespace Gam.Logging

structure Log where
  buf : Nat → UInt8
  spos : Nat
  epos : Nat
  file : List UInt8

/-- The constructor; what is in the new buffer is not known. -/
def Log.new (cap : Nat) (buf : Nat → UInt8) : Log := { buf := buf, spos := 0, epos := cap, file := [] }

def distance (cap start fin : Nat) : Nat := if start < fin then fin - start else fin + cap - start

/-- The argument of one `::write`. -/
def slice (buf : Nat → UInt8) (start len : Nat) : List UInt8 := (List.range len).map fun i => buf (start + i)

/-- `Log::write`. -/
def write (cap : Nat) (log : Log) : Log :=
  let start := log.epos % cap
  let fin := log.spos
  let out :=
    if start < fin then slice log.buf start (fin - start)
    else slice log.buf fin (cap - fin) ++ slice log.buf 0 start
  { log with file := log.file ++ out, epos := fin }

/-- `reserve`, with a bound on the turns of its loop. A turn without enough room calls `write`, or waits for the
one that is under way. -/
def reserve (cap : Nat) : Nat → Log → Nat → Option (Nat × Log)
  | 0, _, _ => none
  | turns + 1, log, sz =>
    if sz ≤ distance cap log.spos log.epos then some (log.spos, { log with spos := (log.spos + sz) % cap })
    else reserve cap turns (write cap log) sz

def memcpy (buf : Nat → UInt8) (pos : Nat) (bytes : List UInt8) : Nat → UInt8 := fun cell =>
  if pos ≤ cell ∧ cell < pos + bytes.length then bytes.getD (cell - pos) 0 else buf cell

/-- `writeToBuf`, with the position behind the bytes. -/
def writeToBuf (cap : Nat) (buf : Nat → UInt8) (bytes : List UInt8) (spos : Nat) : (Nat → UInt8) × Nat :=
  if spos + bytes.length < cap then (memcpy buf spos bytes, spos + bytes.length)
  else
    let bytesToEnd := cap - spos
    (memcpy (memcpy buf spos (bytes.take bytesToEnd)) 0 (bytes.drop bytesToEnd), bytes.length - bytesToEnd)

/-- The copies of one call, one after the other. -/
def writeAll (cap : Nat) : (Nat → UInt8) → List (List UInt8) → Nat → (Nat → UInt8)
  | buf, [], _ => buf
  | buf, bytes :: rest, spos =>
    let (buf, spos) := writeToBuf cap buf bytes spos
    writeAll cap buf rest spos

/-- The common part of `logWrite` and `logOwner`. -/
def append (cap turns : Nat) (log : Log) (parts : List (List UInt8)) (sz : Nat) : Option Log := do
  let (spos, log) ← reserve cap turns log sz
  pure { log with buf := writeAll cap log.buf parts spos }

/-- `logWrite`. The bytes are read at `TO_LOCAL(addr, base_)`, not at `content`; `bytes` is what is there. -/
def logWrite (cap turns : Nat) (log : Log) (addr : UInt64) (bytes : List UInt8) : Option Log :=
  append cap turns log [bytesOf 8 addr.toNat, bytesOf 8 bytes.length, bytes] (bytes.length + 8 + 8)

/-- `id` of `logOwner`, the node with the highest bit set. -/
def ownerId (node : Int32) : UInt64 := node.toInt64.toUInt64 ||| 0x8000000000000000

def logOwner (cap turns : Nat) (log : Log) (node : Int32) (addr : UInt64) : Option Log :=
  append cap turns log [bytesOf 8 addr.toNat, bytesOf 8 (ownerId node).toNat] (8 + 8)

inductive Event where
  | logWrite (addr : UInt64) (bytes : List UInt8)
  | logOwner (node : Int32) (addr : UInt64)
  | flush

def step (cap turns : Nat) (log : Log) : Event → Option Log
  | .logWrite addr bytes => logWrite cap turns log addr bytes
  | .logOwner node addr => logOwner cap turns log node addr
  | .flush => some (write cap log)

def run (cap turns : Nat) : Log → List Event → Option Log
  | log, [] => some log
  | log, e :: rest => (step cap turns log e).bind fun log => run cap turns log rest

/-! ## What the log is for -/

/-- The record of a call. -/
def Event.record : Event → List UInt8
  | .logWrite addr bytes => bytesOf 8 addr.toNat ++ (bytesOf 8 bytes.length ++ bytes)
  | .logOwner node addr => bytesOf 8 addr.toNat ++ bytesOf 8 (ownerId node).toNat
  | .flush => []

/-- How many bytes of the buffer are not in the file yet. -/
def Log.used (cap : Nat) (log : Log) : Nat := (log.spos + cap - log.epos % cap) % cap

/-- The cells of the buffer that are not in the file yet. -/
def Log.cells (cap : Nat) (log : Log) : List Nat := Ring.window cap (log.epos % cap) (log.used cap)

def Log.unflushed (cap : Nat) (log : Log) : List UInt8 := Ring.contents cap log.buf (log.epos % cap) (log.used cap)

/-- There is something to flush, and it does not go around the end of the buffer. -/
def Log.Straight (cap : Nat) (log : Log) : Prop := log.epos % cap < log.spos

/-- What is asked of an event in the state before it: a flush, also the one of a call that finds too little
room, is of a part that does not go around, and a call does not use up the free part to its last byte. -/
def Event.Admitted (cap : Nat) (log : Log) : Event → Prop
  | .flush => log.Straight cap
  | e => e.record.length ≠ distance cap log.spos log.epos ∧ (distance cap log.spos log.epos < e.record.length → log.Straight cap)

/-- Every event of a run is admitted in the state it finds. -/
def AllAdmitted (cap turns : Nat) : Log → List Event → Prop
  | _, [] => True
  | log, e :: rest => e.Admitted cap log ∧ ∀ log', step cap turns log e = some log' → AllAdmitted cap turns log' rest

end Gam.Logging
