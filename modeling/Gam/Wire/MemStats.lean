import Gam.Decimal
import Gam.Wire.Receive

/-!
# Memory statistics

The master prints what it knows of the memory of its workers into one text (`ProcessRequest` of
`master.cc`), and a worker splits it back (`ProcessRemoteMemStat`). A text that does not fit its buffer
and an index out of bounds are `none`.
-/

namespace Gam.Wire

/-- The fields of a client that are sent. -/
structure MemStat where
  qp : UInt32
  wid : Int32
  total : Int64
  free : Int64
deriving DecidableEq, Repr

/-- `MAX_REQUEST_SIZE`. -/
def maxRequestSize : Nat := 1024

/-- `MAX_MEM_STATS_SIZE`. -/
def maxMemStatsSize : Nat := 64

/-- `DEFAULT_SPLIT_CHAR`. -/
def splitChar : UInt8 := 58

/-- The two messages that carry statistics: what `UPDATE_MEM_STATS` broadcasts once there are
`unsynced_th` of them, and the answer to `FETCH_MEM_STATS`. -/
inductive StatsKind where
  | broadcast
  | reply
deriving DecidableEq, Repr

namespace StatsKind

def op : StatsKind → Work
  | broadcast => .broadcastMemStats
  | reply => .fetchMemStatsReply

/-- `sprintf` with `"%u:%d:%ld:%ld"` for the broadcast and `"%u:%d:%ld:%ld:"` for the reply. -/
def print (kind : StatsKind) (r : MemStat) : List UInt8 :=
  let text := printNat r.qp.toNat ++ splitChar :: (printInt r.wid.toInt ++ splitChar :: (printInt r.total.toInt ++
    splitChar :: printInt r.free.toInt))
  match kind with
  | broadcast => text
  | reply => text ++ [splitChar]

/-- The request, whose text is in `buf`. -/
def request (kind : StatsKind) (records : List MemStat) : Option WorkRequest :=
  let text := records.flatMap kind.print
  if text.length < records.length * maxMemStatsSize + 1 then
    some { op := kind.op, size := UInt64.ofNat records.length, data := text ++ [0] }
  else none

end StatsKind

end Gam.Wire
