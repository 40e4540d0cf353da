import Gam.Wire.MemStats
import Mathlib.Logic.Function.Basic

/-!
# The master

`Master::ProcessRequest` of `master.cc`: the statistics of the workers and the key-value store, together
with the requests that the applications and workers issue.
-/

namespace Gam.Wire

open Function

/-- The state of the master. `clients` are the connected workers by their id, `workers` the keys of
`widCliMapWorker`, `unsynced` the queue of updates that were not broadcast yet and `toServe` the `GET`
requests that wait for their key. -/
structure Master where
  kvs : UInt64 → Option (List UInt8) := fun _ => none
  toServe : UInt64 → List WorkRequest := fun _ => []
  clients : UInt32 → MemStat
  workers : List UInt32 := []
  unsynced : List UInt32 := []

/-- The answer to a `GET`, in the request that asked. -/
def WorkRequest.getReply (wr : WorkRequest) (value : List UInt8) : WorkRequest :=
  { wr with op := .getReply, size := UInt64.ofNat value.length, data := value }

namespace Master

/-- `SetMemStat` for the client that sent an update. -/
def setMemStat (m : Master) (wr : WorkRequest) : Master :=
  let stat := { m.clients wr.wid with total := wr.size.toInt64, free := wr.addr.toInt64 }
  { m with
    clients := update m.clients wr.wid stat
    workers := if wr.wid ∈ m.workers then m.workers else m.workers ++ [wr.wid]
    unsynced := m.unsynced ++ [wr.wid] }

/-- `ProcessRequest`, with the requests that are serialised and sent. `threshold` is `unsynced_th` of the
configuration. -/
def processRequest (threshold : Nat) (m : Master) (wr : WorkRequest) : Option (Master × List WorkRequest) :=
  match wr.op with
  | .updateMemStats =>
    let m := m.setMemStat wr
    if m.unsynced.length = threshold then
      (StatsKind.broadcast.request (m.unsynced.map m.clients)).map fun lwr => ({ m with unsynced := [] }, [lwr])
    else some (m, [])
  | .fetchMemStats => (StatsKind.reply.request (m.workers.map m.clients)).map fun lwr => (m, [lwr])
  | .put =>
    some ({ m with
        kvs := update m.kvs wr.addr (some wr.payload)
        toServe := update m.toServe wr.addr [] },
      (m.toServe wr.addr).map fun waiting => waiting.getReply wr.payload)
  | .get =>
    match m.kvs wr.addr with
    | some value => some (m, [wr.getReply value])
    | none => some ({ m with toServe := update m.toServe wr.addr (m.toServe wr.addr ++ [wr]) }, [])
  | _ => some (m, [])

end Master

/-- What an application or a worker issues: `GAlloc::Put`, `GAlloc::Get`, or a request that consists of
integers only. -/
inductive Issue where
  | put (key : UInt64) (value : List UInt8) (id wid : UInt32)
  | get (key : UInt64) (id wid : UInt32)
  | plain (wr : WorkRequest) (integers : wr.op ≠ .put ∧ wr.op ≠ .getReply ∧ wr.op ≠ .fetchMemStatsReply ∧ wr.op ≠ .broadcastMemStats)

def Issue.request : Issue → WorkRequest
  | put key value id wid => { op := .put, id := id, wid := wid, addr := key, size := UInt64.ofNat value.length, data := value }
  | get key id wid => { op := .get, id := id, wid := wid, addr := key }
  | plain wr _ => wr

/-- The master, the requests on their way to it, and every request that was serialised so far. -/
structure Traffic where
  master : Master
  inbox : List WorkRequest := []
  issued : List WorkRequest := []

inductive TrafficEvent where
  | issue (i : Issue)
  | serve (k : Nat)

/-- One event: a request is serialised and sent, or the master serves one that arrived. -/
def Traffic.step (threshold : Nat) (t : Traffic) : TrafficEvent → Option Traffic
  | .issue i => some { t with inbox := t.inbox ++ [i.request], issued := t.issued ++ [i.request] }
  | .serve k =>
    match t.inbox[k]? with
    | none => some t
    | some wr =>
      (t.master.processRequest threshold wr).map fun (m, sent) =>
        { master := m, inbox := t.inbox.eraseIdx k, issued := t.issued ++ sent }

def Traffic.run (threshold : Nat) (t : Traffic) (events : List TrafficEvent) : Option Traffic :=
  events.foldlM (Traffic.step threshold) t

end Gam.Wire
