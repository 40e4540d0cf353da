import Mathlib

/-!
# Synchronisation of the partitions

`ClusterSync` over the key-value store of the master process (`master.cc`). A partition executes a list of
calls; the requests to the store and its answers travel in order on one connection per partition. A `Put`
returns once it is sent, a `Get` once its answer has come. The values are those that fit one request.
-/

namespace Gam.Database

open Function

structure ServerInfo where
  addr : String
  port : Int
deriving DecidableEq, Repr

/-- The servers of the configuration file, each listed once. -/
structure ClusterConfig where
  servers : List ServerInfo
  once : servers.Nodup

namespace ClusterConfig

def getPartitionNum (c : ClusterConfig) : Nat := c.servers.length

def getMyPartitionId (c : ClusterConfig) (my : ServerInfo) : Nat :=
  (c.servers.findIdx? (· = my)).getD (c.servers.length + 1)

def isMaster (c : ClusterConfig) (my : ServerInfo) : Bool := c.servers.head? = some my

end ClusterConfig

namespace ClusterSync

/-- What a call of the program is made of; `Fence` is a collection and then a broadcast. -/
inductive Op where
  | collect
  | broadcast
deriving DecidableEq, Repr

inductive Call where
  | fence
  | masterCollect
  | masterBroadcast
deriving DecidableEq, Repr

def Call.ops : Call → List Op
  | fence => [.collect, .broadcast]
  | masterCollect => [.collect]
  | masterBroadcast => [.broadcast]

/-- The state of a partition: the operations it has finished, `sync_key_`, the counter of the loop in
`MasterCollect`, whether it waits for the answer to a `Get`, and what its operations received. -/
structure Partition (V : Type) where
  op : Nat
  syncKey : UInt64
  round : Nat
  waiting : Bool
  collected : Nat → Nat → Option V
  received : Nat → Option V

inductive Request (V : Type) where
  | put (key : UInt64) (value : V)
  | get (key : UInt64)
deriving DecidableEq

/-- The partitions, the requests and answers on the way, and `kvs` and `to_serve_kv_request` of the master. -/
structure System (V : Type) where
  part : Nat → Partition V
  toMaster : Nat → List (Request V)
  toWorker : Nat → List V
  kvs : UInt64 → Option V
  toServe : UInt64 → List Nat

/-- A configuration, the program that every partition executes, and the value that a partition has for
each operation. -/
structure Setup (V : Type) where
  config : ClusterConfig
  calls : List Call
  value : Nat → Nat → V

variable {V : Type}

namespace Setup

def ops (x : Setup V) : List Op := x.calls.flatMap Call.ops

/-- The number of partitions. -/
def num (x : Setup V) : Nat := x.config.getPartitionNum

/-- `GetMyPartitionId` of the server that is listed at a position. -/
def partitionId (x : Setup V) (p : Nat) : Nat :=
  (x.config.servers[p]?.map x.config.getMyPartitionId).getD 0

def isMaster (x : Setup V) (p : Nat) : Bool :=
  (x.config.servers[p]?.map x.config.isMaster).getD false

end Setup

def Partition.start : Partition V := ⟨0, 0, 0, false, fun _ _ => none, fun _ => none⟩

/-- The end of an operation: `sync_key_ += partition_num`. -/
def Partition.next (n : Nat) (part : Partition V) : Partition V :=
  { part with op := part.op + 1, syncKey := part.syncKey + UInt64.ofNat n, round := 0 }

/-- A value arrives in slot `round` of the array of `MasterCollect`. -/
def Partition.store (v : V) (part : Partition V) : Partition V :=
  { part with
    collected := update part.collected part.op (update (part.collected part.op) part.round (some v))
    round := part.round + 1 }

namespace System

def start : System V := ⟨fun _ => Partition.start, fun _ => [], fun _ => [], fun _ => none, fun _ => []⟩

def setPart (p : Nat) (part : Partition V) (s : System V) : System V :=
  { s with part := update s.part p part }

def send (p : Nat) (request : Request V) (s : System V) : System V :=
  { s with toMaster := update s.toMaster p (s.toMaster p ++ [request]) }

def reply (p : Nat) (v : V) (s : System V) : System V :=
  { s with toWorker := update s.toWorker p (s.toWorker p ++ [v]) }

/-- `Put`, at the end of an operation. -/
def put (n p : Nat) (key : UInt64) (v : V) (s : System V) : System V :=
  (s.send p (.put key v)).setPart p ((s.part p).next n)

/-- `Get`, up to the wait for its answer. -/
def get (p : Nat) (key : UInt64) (s : System V) : System V :=
  (s.send p (.get key)).setPart p { s.part p with waiting := true }

/-- A partition that does not wait goes on with its program. -/
def act (x : Setup V) (p : Nat) (s : System V) : Option (System V) :=
  let part := s.part p
  let id := x.partitionId p
  if part.waiting then none
  else
    match x.ops[part.op]? with
    | none => none
    | some .collect =>
      if x.isMaster p then
        if part.round < x.num then
          if part.round ≠ id then some (s.get p (part.syncKey + UInt64.ofNat part.round))
          else some (s.setPart p (part.store (x.value p part.op)))
        else some (s.setPart p (part.next x.num))
      else some (s.put x.num p (part.syncKey + UInt64.ofNat id) (x.value p part.op))
    | some .broadcast =>
      if x.isMaster p then some (s.put x.num p (part.syncKey + UInt64.ofNat id) (x.value p part.op))
      else some (s.get p (part.syncKey + UInt64.ofNat 0))

/-- The master process takes a request from a connection. A `PUT` answers the requests that were
postponed for its key. -/
def serve (p : Nat) (s : System V) : Option (System V) :=
  match s.toMaster p with
  | [] => none
  | .put key v :: rest =>
    let s := { s with toMaster := update s.toMaster p rest, kvs := update s.kvs key (some v) }
    some { (s.toServe key).foldl (fun s q => s.reply q v) s with toServe := update s.toServe key [] }
  | .get key :: rest =>
    let s := { s with toMaster := update s.toMaster p rest }
    match s.kvs key with
    | some v => some (s.reply p v)
    | none => some { s with toServe := update s.toServe key (s.toServe key ++ [p]) }

/-- The answer to a `Get` arrives. -/
def receive (x : Setup V) (p : Nat) (s : System V) : Option (System V) :=
  match s.toWorker p, x.ops[(s.part p).op]? with
  | v :: rest, some .collect =>
    some ({ s with toWorker := update s.toWorker p rest }.setPart p { (s.part p).store v with waiting := false })
  | v :: rest, some .broadcast =>
    some ({ s with toWorker := update s.toWorker p rest }.setPart p { (s.part p).next x.num with
        waiting := false
        received := update (s.part p).received (s.part p).op (some v) })
  | _, _ => none

/-- One step of the system, at one of its partitions. -/
inductive Step (x : Setup V) (s : System V) : System V → Prop
  | act {p : Nat} {t : System V} (listed : p < x.num) (acts : s.act x p = some t) : Step x s t
  | serve {p : Nat} {t : System V} (listed : p < x.num) (serves : s.serve p = some t) : Step x s t
  | receive {p : Nat} {t : System V} (listed : p < x.num) (receives : s.receive x p = some t) : Step x s t

/-- Any interleaving of the partitions, the master process and the connections. -/
inductive Reachable (x : Setup V) : System V → Prop
  | start : Reachable x System.start
  | step {s t : System V} (before : Reachable x s) (next : Step x s t) : Reachable x t

end System

end ClusterSync

end Gam.Database
